import Stepwise.Toml.Text
import Stepwise.Document.Basic

/-!
Numbers and times of TOML. Where a text stops being a number, the rest is left; whatever may follow a value
is checked by the reader of the value.
-/

namespace Stepwise.Toml

private def isDecimal (c : Char) : Bool := '0' ≤ c && c ≤ '9'

private def digitValue? (base : Nat) (c : Char) : Option Nat :=
  let n :=
    if isDecimal c then c.toNat - '0'.toNat
    else if 'a' ≤ c && c ≤ 'f' then c.toNat - 'a'.toNat + 10
    else if 'A' ≤ c && c ≤ 'F' then c.toNat - 'A'.toNat + 10
    else base
  if n < base then some n else none

/-- The digits at the start of a text, where single underscores may stand between two digits. -/
private def takeDigits (base : Nat) : List Char → List Nat × List Char
  | [] => ([], [])
  | c :: '_' :: rest =>
    match digitValue? base c with
    | none => ([], c :: '_' :: rest)
    | some d =>
      if rest.head?.any fun next => (digitValue? base next).isSome then
        let (digits, left) := takeDigits base rest
        (d :: digits, left)
      else ([d], '_' :: rest)
  | c :: rest =>
    match digitValue? base c with
    | none => ([], c :: rest)
    | some d =>
      let (digits, left) := takeDigits base rest
      (d :: digits, left)

private def ofDigits (base : Nat) (digits : List Nat) : Nat :=
  digits.foldl (fun n d => n * base + d) 0

/-- An integer of 64 bits. -/
private def intScalar (n : Int) (rest : List Char) : Except String (Scalar × List Char) :=
  if -(Int.pow 2 63) ≤ n ∧ n < Int.pow 2 63 then .ok (.number (.int n), rest)
  else .error "integer number out of range"

private def readBased (base : Nat) (text : List Char) : Except String (Scalar × List Char) :=
  match takeDigits base text with
  | ([], _) => .error "invalid integer"
  | (digits, rest) => intScalar (Int.ofNat (ofDigits base digits)) rest

/-- The digits after a decimal point, if it is followed by some. -/
private def readFraction (text : List Char) : Option (List Nat × List Char) :=
  match text with
  | '.' :: rest =>
    match takeDigits 10 rest with
    | ([], _) => none
    | (digits, rest) => some (digits, rest)
  | _ => none

/-- A power of ten after its letter. -/
private def readPower (text : List Char) : Option (Int × List Char) :=
  match text with
  | e :: rest =>
    if e = 'e' ∨ e = 'E' then
      let (negative, rest) := match rest with
        | '-' :: rest => (true, rest)
        | '+' :: rest => (false, rest)
        | rest => (false, rest)
      match takeDigits 10 rest with
      | ([], _) => none
      | (digits, rest) =>
        let n := Int.ofNat (ofDigits 10 digits)
        some (if negative then -n else n, rest)
    else none
  | [] => none

/-- A decimal number after its sign. A positive number beyond the greatest finite one is refused, a negative
one is not finite. -/
private def readDecimal (negative : Bool) (text : List Char) : Except String (Scalar × List Char) :=
  let (whole, rest) := match text with
    | '0' :: rest => ([0], rest)
    | _ => takeDigits 10 text
  if whole.isEmpty then .error "invalid number"
  else
    let float (digits : List Nat) (exponent : Int) (rest : List Char) :
        Except String (Scalar × List Char) :=
      match Binary64.ofDecimal? negative (ofDigits 10 digits) exponent with
      | some x => .ok (.number (.float x), rest)
      | none => if negative then .ok (.notFinite, rest) else .error "floating-point number overflow"
    match readFraction rest with
    | some (fraction, rest) =>
      let (power, rest) := (readPower rest).getD (0, rest)
      float (whole ++ fraction) (power - fraction.length) rest
    | none =>
      match readPower rest with
      | some (power, rest) => float whole power rest
      | none =>
        let n := Int.ofNat (ofDigits 10 whole)
        intScalar (if negative then -n else n) rest

/-- An integer or a floating-point number. -/
def readNumber (text : List Char) : Except String (Scalar × List Char) :=
  let (sign, negative, body) := match text with
    | '-' :: rest => (true, true, rest)
    | '+' :: rest => (true, false, rest)
    | _ => (false, false, text)
  if body.take 3 == ['i', 'n', 'f'] || body.take 3 == ['n', 'a', 'n'] then
    .ok (.notFinite, body.drop 3)
  else
    match sign, body with
    | false, '0' :: 'x' :: rest => readBased 16 rest
    | false, '0' :: 'o' :: rest => readBased 8 rest
    | false, '0' :: 'b' :: rest => readBased 2 rest
    | _, _ => readDecimal negative body

/-! ### Times -/

/-- A number of exactly so many digits within bounds. -/
private def readField (digits low high : Nat) (text : List Char) : Option (Nat × List Char) :=
  let field := text.take digits
  if field.length = digits && field.all isDecimal then
    let n := ofDigits 10 (field.map fun c => c.toNat - '0'.toNat)
    if low ≤ n && n ≤ high then some (n, text.drop digits) else none
  else none

private def passChar (c : Char) (text : List Char) : Option (List Char) :=
  if text.head? = some c then some (text.drop 1) else none

private def twoDigits (n : Nat) : String :=
  if n < 10 then s!"0{n}" else toString n

private def daysOf (year month : Nat) : Nat :=
  if month = 2 then
    if year % 4 = 0 && (year % 100 != 0 || year % 400 = 0) then 29 else 28
  else if [4, 6, 9, 11].contains month then 30
  else 31

/-- A calendar date. -/
private def readDate (text : List Char) : Option (String × List Char) := do
  let (year, rest) ← readField 4 0 9999 text
  let (month, rest) ← readField 2 1 12 (← passChar '-' rest)
  let (_, after) ← readField 2 1 (daysOf year month) (← passChar '-' rest)
  return (String.ofList (text.take 10), after)

/-- The fraction of a second to nine digits, without zeros at its end. -/
private def readSecondFraction (text : List Char) : Option (String × List Char) :=
  match text with
  | '.' :: rest =>
    let digits := rest.takeWhile isDecimal
    if digits.isEmpty then none
    else
      let kept := ((digits.take 9).reverse.dropWhile (· == '0')).reverse
      some (if kept.isEmpty then "" else String.ofList ('.' :: kept), rest.drop digits.length)
  | _ => some ("", text)

private def readTime (text : List Char) : Option (String × List Char) := do
  let (hour, rest) ← readField 2 0 23 text
  let (minute, rest) ← readField 2 0 59 (← passChar ':' rest)
  let (second, rest) ← readField 2 0 60 (← passChar ':' rest)
  let (fraction, rest) ← readSecondFraction rest
  return (s!"{twoDigits hour}:{twoDigits minute}:{twoDigits second}{fraction}", rest)

/-- The distance from universal time; none if it is written but wrong. -/
private def readOffset (text : List Char) : Option (String × List Char) :=
  match text with
  | 'Z' :: rest | 'z' :: rest => some ("Z", rest)
  | '+' :: rest | '-' :: rest => do
    let (hour, rest) ← readField 2 0 23 rest
    let (minute, rest) ← readField 2 0 59 (← passChar ':' rest)
    let sign := if text.head? = some '-' && hour + minute != 0 then "-" else "+"
    return (s!"{sign}{twoDigits hour}:{twoDigits minute}", rest)
  | _ => some ("", text)

private def isTimeMark (c : Char) : Bool :=
  c == 'T' || c == 't' || c == ' '

/-- A date, a time or both; none if the text does not start like one. -/
def readDateTime? (text : List Char) : Option (Except String (String × List Char)) :=
  let invalid : Except String (String × List Char) := .error "invalid datetime"
  let startsWith (digits : Nat) (mark : Char) : Bool :=
    (text.take digits).all isDecimal && (text.drop digits).head? == some mark
  if startsWith 4 '-' then
    some <| match readDate text with
      | none => invalid
      | some (date, rest) =>
        if rest.head?.any isTimeMark && (readField 2 0 99 (rest.drop 1)).isSome then
          match readTime (rest.drop 1) with
          | none => invalid
          | some (time, rest) =>
            match readOffset rest with
            | none => invalid
            | some (offset, rest) => .ok (s!"{date}T{time}{offset}", rest)
        else .ok (date, rest)
  else if startsWith 2 ':' then
    some <| match readTime text with
      | none => invalid
      | some (time, rest) => .ok (time, rest)
  else none

end Stepwise.Toml
