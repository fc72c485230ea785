import Stepwise.Json.Printer
import Stepwise.Text.Blank

/-!
Tokens of the condition language and the splitting of text into them. A token knows the byte offset of
its first character. Words after a dot are always names, so a field may be called `is` or `not`.
-/

namespace Stepwise.Guard

inductive Comparison where
  | eq
  | ne
  | lt
  | le
  | gt
  | ge
deriving DecidableEq

def Comparison.spelling : Comparison → String
  | .eq => "=="
  | .ne => "!="
  | .lt => "<"
  | .le => "<="
  | .gt => ">"
  | .ge => ">="

inductive Lexeme where
  | name (text : String)
  | number (value : Number)
  | string (text : String)
  | truth (value : Bool)
  | none
  | and
  | or
  | not
  | is
  | compare (op : Comparison)
  | dot
  | openParen
  | closeParen
deriving DecidableEq

structure Token where
  lexeme : Lexeme
  position : Nat
deriving DecidableEq

/-- What a message calls the lexeme found; none stands for the end of the text. -/
def describe : Option Lexeme → String
  | some (.name text) => s!"identifier '{text}'"
  | some (.number value) => s!"number {value.text}"
  | some (.string text) => s!"string '{text}'"
  | some (.truth true) => "'True'"
  | some (.truth false) => "'False'"
  | some .none => "'None'"
  | some .and => "'and'"
  | some .or => "'or'"
  | some .not => "'not'"
  | some .is => "'is'"
  | some (.compare op) => s!"'{op.spelling}'"
  | some .dot => "'.'"
  | some .openParen => "'('"
  | some .closeParen => "')'"
  | none => "end of expression"

/-- The greatest number of `not`s and parentheses that may be open at any point. -/
def maxDepth : Nat := 64

/-- What is wrong with the text of a condition at some position. -/
inductive Complaint where
  | assignment
  | loneExclamation
  | unknownEscape (c : Char)
  | unterminatedString
  | minusWithoutNumber
  | invalidNumber (text : String)
  | unexpectedCharacter (c : Char)
  | trailing (found : Option Lexeme)
  | unclosedParen (found : Option Lexeme)
  | notNone (found : Option Lexeme)
  | noOperand (found : Option Lexeme)
  | noField (found : Option Lexeme)
  | functionCall
  | tooDeep
deriving DecidableEq

def Complaint.message : Complaint → String
  | .assignment => "assignment is not allowed; use '=='"
  | .loneExclamation => "'!' is not an operator; use 'not' or '!='"
  | .unknownEscape c => s!"unknown escape sequence '\\{c}'"
  | .unterminatedString => "unterminated string literal"
  | .minusWithoutNumber => "'-' must be followed by a number; arithmetic is not supported"
  | .invalidNumber text => s!"invalid number literal '{text}'"
  | .unexpectedCharacter c => s!"unexpected character '{c}'"
  | .trailing found => s!"unexpected {describe found} after expression"
  | .unclosedParen found => s!"expected ')' but found {describe found}"
  | .notNone found =>
    s!"'is' may only be followed by 'None' or 'not None', found {describe found}"
  | .noOperand found => s!"expected a value or path but found {describe found}"
  | .noField found => s!"expected a field name after '.' but found {describe found}"
  | .functionCall => "function calls are not allowed"
  | .tooDeep => s!"expression nests deeper than {maxDepth} levels"

/-- Why a text is no condition. -/
inductive Fault where
  | malformed (position : Nat) (complaint : Complaint)
  | foreignName (name : String)
deriving DecidableEq

def Fault.message : Fault → String
  | .malformed position complaint =>
    s!"Expression syntax error at position {position}: {complaint.message}"
  | .foreignName name =>
    s!"Identifier '{name}' is not allowed; paths must start with context, artifacts or quality"

def isDigit (c : Char) : Bool := '0' ≤ c && c ≤ '9'

def isLetter (c : Char) : Bool :=
  ('a' ≤ c && c ≤ 'z') || ('A' ≤ c && c ≤ 'Z') || c == '_'

/-- A lexeme, and how many characters of the text follow its first one. -/
abbrev Found := Lexeme × Nat

/-- A complaint, and how many bytes after the first character of the lexeme it lies. -/
abbrev Misfit := Complaint × Nat

/-- The characters of a quoted string after its opening quote. -/
def readString (quote : Char) (read : List Char) (length offset : Nat) :
    List Char → Except Misfit Found
  | [] => .error (.unterminatedString, 0)
  | c :: rest =>
    if c = quote then
      .ok (.string (String.ofList read.reverse), length + 1)
    else if c = '\\' then
      match rest with
      | [] => .error (.unterminatedString, 0)
      | e :: rest =>
        if e = '\\' ∨ e = '\'' ∨ e = '"' then
          readString quote (e :: read) (length + 2) (offset + 2) rest
        else if e = 'n' then readString quote ('\n' :: read) (length + 2) (offset + 2) rest
        else if e = 't' then readString quote ('\t' :: read) (length + 2) (offset + 2) rest
        else .error (.unknownEscape e, offset + 1)
    else
      readString quote (c :: read) (length + 1) (offset + c.utf8Size) rest

/-- A point with digits after it. -/
def fractionLength : List Char → Nat
  | '.' :: rest =>
    match rest.takeWhile isDigit with
    | [] => 0
    | digits => digits.length + 1
  | _ => 0

/-- An exponent mark, an optional sign and digits. -/
def exponentLength : List Char → Nat
  | c :: rest =>
    if c = 'e' ∨ c = 'E' then
      let sign := match rest with
        | '+' :: _ | '-' :: _ => 1
        | _ => 0
      match (rest.drop sign).takeWhile isDigit with
      | [] => 0
      | digits => digits.length + 1 + sign
    else 0
  | [] => 0

def natOfDigits (digits : List Char) : Nat :=
  digits.foldl (fun n c => n * 10 + (c.toNat - '0'.toNat)) 0

/-- The exponent that an exponent part stands for. -/
def exponentOf : List Char → Int
  | _ :: '-' :: digits => -natOfDigits digits
  | _ :: '+' :: digits => natOfDigits digits
  | _ :: digits => natOfDigits digits
  | [] => 0

/-- A numeral without fraction and exponent is an integer if 64 bits hold it; any other is the nearest
binary number. -/
def numberOf? (negative : Bool) (whole fraction exponent : List Char) : Option Number :=
  let nearest (digits : List Char) (scale : Int) : Option Number :=
    (Binary64.ofDecimal? negative (natOfDigits digits) scale).map .float
  if fraction.isEmpty && exponent.isEmpty then
    let size := natOfDigits whole
    let value : Int := if negative then -size else size
    if -Int.pow 2 63 ≤ value ∧ value < Int.pow 2 64 then some (.int value) else nearest whole 0
  else
    let digits := whole ++ fraction.drop 1
    nearest digits (exponentOf exponent - Int.ofNat (fraction.drop 1).length)

/-- A numeral; the text starts with its sign or first digit. -/
def readNumber (text : List Char) : Except Misfit Found :=
  let sign := if text.head? = some '-' then 1 else 0
  let unsigned := text.drop sign
  let whole := unsigned.takeWhile isDigit
  if whole.isEmpty then
    .error (.minusWithoutNumber, 0)
  else
    let afterWhole := unsigned.drop whole.length
    let fraction := afterWhole.take (fractionLength afterWhole)
    let afterFraction := afterWhole.drop fraction.length
    let exponent := afterFraction.take (exponentLength afterFraction)
    let length := sign + whole.length + fraction.length + exponent.length
    match numberOf? (sign == 1) whole fraction exponent with
    | some value => .ok (.number value, length - 1)
    | none => .error (.invalidNumber (String.ofList (text.take length)), 0)

/-- The lexeme that a word stands for. -/
def lexemeOfWord (afterDot : Bool) (word : String) : Lexeme :=
  if afterDot then .name word
  else match word with
    | "and" => .and
    | "or" => .or
    | "not" => .not
    | "is" => .is
    | "None" => .none
    | "True" | "true" => .truth true
    | "False" | "false" => .truth false
    | _ => .name word

/-- The lexeme that starts with the character `c`. -/
def readLexeme (afterDot : Bool) (c : Char) (rest : List Char) : Except Misfit Found :=
  let beforeEquals := rest.head? == some '='
  if c = '(' then .ok (.openParen, 0)
  else if c = ')' then .ok (.closeParen, 0)
  else if c = '.' then .ok (.dot, 0)
  else if c = '=' then
    if beforeEquals then .ok (.compare .eq, 1) else .error (.assignment, 0)
  else if c = '!' then
    if beforeEquals then .ok (.compare .ne, 1) else .error (.loneExclamation, 0)
  else if c = '<' then
    if beforeEquals then .ok (.compare .le, 1) else .ok (.compare .lt, 0)
  else if c = '>' then
    if beforeEquals then .ok (.compare .ge, 1) else .ok (.compare .gt, 0)
  else if c = '\'' ∨ c = '"' then readString c [] 0 1 rest
  else if isDigit c ∨ c = '-' then readNumber (c :: rest)
  else if isLetter c then
    let more := rest.takeWhile fun d => isLetter d || isDigit d
    .ok (lexemeOfWord afterDot (String.ofList (c :: more)), more.length)
  else .error (.unexpectedCharacter c, 0)

/-- Split a text into tokens. `position` is the byte offset of the text and `afterDot` tells whether the
token before it is a dot. -/
def tokensFrom (position : Nat) (afterDot : Bool) (text : List Char) : Except Fault (List Token) :=
  match text with
  | [] => .ok []
  | c :: rest =>
    if Text.isBlank c then
      tokensFrom (position + c.utf8Size) afterDot rest
    else
      match readLexeme afterDot c rest with
      | .error (complaint, offset) => .error (.malformed (position + offset) complaint)
      | .ok (lexeme, length) => do
        let width := c.utf8Size + Text.byteLength (rest.take length)
        let more ← tokensFrom (position + width) (lexeme == .dot) (rest.drop length)
        return ⟨lexeme, position⟩ :: more
termination_by text.length
decreasing_by
  · exact Nat.lt_succ_self _
  · exact Nat.lt_succ_of_le (List.length_drop ▸ Nat.sub_le _ _)

/-- The tokens of a text. -/
def tokens (text : List Char) : Except Fault (List Token) :=
  tokensFrom 0 false text

end Stepwise.Guard
