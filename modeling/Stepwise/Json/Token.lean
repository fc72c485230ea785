import Stepwise.Json.Numeral
import Stepwise.Document.Basic
import Stepwise.Text.Blank

/-!
The lexemes of JSON text. A lexeme knows the text from its first character on, so that a fault can be
placed by what was left unread. A defective lexeme ends the list. A flawed one has the right form but no
value, such as a number that is too large; the list goes on behind it.
-/

namespace Stepwise.Json

/-- Why a text is no JSON document. -/
inductive Cause where
  | endInValue
  | endInArray
  | endInObject
  | endInString
  | noValue
  | noWord
  | noColon
  | noItemEnd
  | noFieldEnd
  | noKey
  | trailingComma
  | trailingText
  | badNumber
  | outOfRange
  | badEscape
  | loneSurrogate
  | unpairedSurrogate
  | controlCharacter
  | tooDeep
deriving DecidableEq

/-- The wording of a fault. -/
def Cause.message : Cause → String
  | .endInValue => "EOF while parsing a value"
  | .endInArray => "EOF while parsing a list"
  | .endInObject => "EOF while parsing an object"
  | .endInString => "EOF while parsing a string"
  | .noValue => "expected value"
  | .noWord => "expected ident"
  | .noColon => "expected \x60:\x60"
  | .noItemEnd => "expected \x60,\x60 or \x60]\x60"
  | .noFieldEnd => "expected \x60,\x60 or \x60\x7d\x60"
  | .noKey => "key must be a string"
  | .trailingComma => "trailing comma"
  | .trailingText => "trailing characters"
  | .badNumber => "invalid number"
  | .outOfRange => "number out of range"
  | .badEscape => "invalid escape"
  | .loneSurrogate => "lone leading surrogate in hex escape"
  | .unpairedSurrogate => "unexpected end of hex escape"
  | .controlCharacter => "control character (\\u0000-\\u001F) found while parsing a string"
  | .tooDeep => "recursion limit exceeded"

/-- A fault lies `beyond` bytes after the start of the unread text. -/
structure Fault where
  cause : Cause
  unread : List Char
  beyond : Nat

/-- A fault at the first character of a text, or at its end with another cause. -/
def Fault.at (cause atEnd : Cause) : List Char → Fault
  | [] => ⟨atEnd, [], 0⟩
  | text => ⟨cause, text, 1⟩

inductive Token where
  | openArray
  | closeArray
  | openObject
  | closeObject
  | comma
  | colon
  | scalar (value : Scalar)
  /-- A string or another scalar without a value. -/
  | flawed (isString : Bool) (fault : Fault)
  | defect (fault : Fault)

structure Lexeme where
  token : Token
  start : List Char

/-- A lexeme that was recognised: its token and how many characters follow its first one. -/
abbrev Recognised := Token × Nat

private def isDigit (c : Char) : Bool := '0' ≤ c && c ≤ '9'

/-- The fraction of a numeral: none without a point, a fault without a digit after it. -/
private def readFraction (text : List Char) : Except Fault (Option (List Char)) :=
  match text with
  | '.' :: rest =>
    match rest.takeWhile isDigit with
    | [] => .error (.at .badNumber .endInValue rest)
    | digits => .ok (some digits)
  | _ => .ok none

/-- The exponent of a numeral, with its sign and its length in characters. -/
private def readExponent (text : List Char) :
    Except Fault (Option (Bool × List Char) × Nat) :=
  match text with
  | c :: rest =>
    if c = 'e' ∨ c = 'E' then
      let (negative, sign, rest) := match rest with
        | '+' :: rest => (false, 1, rest)
        | '-' :: rest => (true, 1, rest)
        | _ => (false, 0, rest)
      match rest.takeWhile isDigit with
      | [] => .error (.at .badNumber .endInValue rest)
      | digits => .ok (some (negative, digits), 1 + sign + digits.length)
    else .ok (none, 0)
  | [] => .ok (none, 0)

/-- A numeral whose sign, if any, has been read. -/
private def readNumeral (negative : Bool) (text : List Char) : Except Fault Recognised := do
  let whole := text.takeWhile isDigit
  match whole with
  | [] => throw (.at .badNumber .endInValue text)
  | '0' :: _ :: _ => throw ⟨.badNumber, text.drop 1, 1⟩
  | _ => pure ()
  let afterWhole := text.drop whole.length
  let fraction ← readFraction afterWhole
  let fractionLength := match fraction with
    | some digits => digits.length + 1
    | none => 0
  let (exponent, exponentLength) ← readExponent (afterWhole.drop fractionLength)
  let length := whole.length + fractionLength + exponentLength
  match Numeral.toNumber ⟨negative, whole, fraction, exponent⟩ with
  | .ok n => return (.scalar (.number n), length)
  | .error unread => return (.flawed false ⟨.outOfRange, text.drop (length - unread), 0⟩, length)

/-- The letters of a word after its first one. -/
private def readWord (value : Scalar) : List Char → List Char → Nat → Except Fault Recognised
  | [], _, length => .ok (.scalar value, length)
  | _ :: _, [], _ => .error ⟨.endInValue, [], 0⟩
  | c :: expected, d :: rest, length =>
    if c = d then readWord value expected rest (length + 1) else .error ⟨.noWord, d :: rest, 1⟩

private def hexValue? (c : Char) : Option Nat :=
  if '0' ≤ c && c ≤ '9' then some (c.toNat - '0'.toNat)
  else if 'a' ≤ c && c ≤ 'f' then some (c.toNat - 'a'.toNat + 10)
  else if 'A' ≤ c && c ≤ 'F' then some (c.toNat - 'A'.toNat + 10)
  else none

/-- The four hexadecimal digits at the start of a text; fewer than four bytes before the end count as an
unfinished string. -/
private def readHex4 (text : List Char) : Except Fault Nat :=
  if Text.byteLength (text.take 4) < 4 then
    .error ⟨.endInString, [], 0⟩
  else
    match (text.take 4).map hexValue? with
    | [some a, some b, some c, some d] => .ok (((a * 16 + b) * 16 + c) * 16 + d)
    | _ => .error ⟨.badEscape, text, 4⟩

/-- The character of an escape by code units, and how many characters of the text it takes. Half of a
surrogate pair is a flaw; it takes its own digits. -/
private def readUnicode (text : List Char) : Except Fault (Except Fault Char × Nat) := do
  let first ← readHex4 text
  if 0xDC00 ≤ first ∧ first ≤ 0xDFFF then
    return (.error ⟨.loneSurrogate, text.drop 4, 0⟩, 4)
  else if first < 0xD800 ∨ 0xDBFF < first then
    return (.ok (Char.ofNat first), 4)
  else
    match text.drop 4 with
    | [] => throw ⟨.endInString, [], 0⟩
    | '\\' :: [] => throw ⟨.endInString, [], 0⟩
    | '\\' :: 'u' :: rest =>
      let second ← readHex4 rest
      if second < 0xDC00 ∨ 0xDFFF < second then
        return (.error ⟨.loneSurrogate, rest.drop 4, 0⟩, 4)
      else
        return (.ok (Char.ofNat (0x10000 + (first - 0xD800) * 0x400 + (second - 0xDC00))), 10)
    | '\\' :: rest => return (.error ⟨.unpairedSurrogate, rest, 1⟩, 4)
    | rest => return (.error ⟨.unpairedSurrogate, rest, 1⟩, 4)

private def simpleEscape? : Char → Option Char
  | '"' => some '"'
  | '\\' => some '\\'
  | '/' => some '/'
  | 'b' => some '\x08'
  | 'f' => some '\x0c'
  | 'n' => some '\n'
  | 'r' => some '\r'
  | 't' => some '\t'
  | _ => none

/-- A string as far as it was read, in reverse, or its first flaw. -/
private abbrev Content := Except Fault (List Char)

private def Content.push (c : Char) (read : Content) : Content := read.map (c :: ·)

private def Content.token : Content → Token
  | .ok read => .scalar (.string (String.ofList read.reverse))
  | .error flaw => .flawed true flaw

/-- A fault inside a string; an earlier flaw goes before it. -/
private def Content.fail {α : Type} (read : Content) (fault : Fault) : Except Fault α :=
  match read with
  | .ok _ => .error fault
  | .error flaw => .error flaw

/-- The characters of a string up to its closing quote. `skip` characters of an escape are passed over;
`length` counts what was read. -/
private def readString (skip : Nat) (read : Content) (length : Nat) :
    List Char → Except Fault Recognised
  | [] => read.fail ⟨.endInString, [], 0⟩
  | c :: rest =>
    match skip with
    | skip + 1 => readString skip read (length + 1) rest
    | 0 =>
      if c = '"' then
        .ok (read.token, length + 1)
      else if c = '\\' then
        match rest with
        | [] => read.fail ⟨.endInString, [], 0⟩
        | 'u' :: digits =>
          match readUnicode digits with
          | .error fault => read.fail fault
          | .ok (.ok decoded, width) => readString (width + 1) (read.push decoded) (length + 1) rest
          | .ok (.error flaw, width) => readString (width + 1) (read.fail flaw) (length + 1) rest
        | e :: _ =>
          match simpleEscape? e with
          | some decoded => readString 1 (read.push decoded) (length + 1) rest
          | none => read.fail ⟨.badEscape, rest, 1⟩
      else if c.toNat < 0x20 then
        read.fail ⟨.controlCharacter, c :: rest, 1⟩
      else
        readString 0 (read.push c) (length + 1) rest

/-- The lexeme that starts with the character `c`. -/
private def readToken (c : Char) (rest : List Char) : Except Fault Recognised :=
  match c with
  | '[' => .ok (.openArray, 0)
  | ']' => .ok (.closeArray, 0)
  | '\x7b' => .ok (.openObject, 0)
  | '\x7d' => .ok (.closeObject, 0)
  | ',' => .ok (.comma, 0)
  | ':' => .ok (.colon, 0)
  | '"' => readString 0 (.ok []) 0 rest
  | 'n' => readWord .null "ull".toList rest 0
  | 't' => readWord (.bool true) "rue".toList rest 0
  | 'f' => readWord (.bool false) "alse".toList rest 0
  | '-' => readNumeral true rest
  | _ =>
    if isDigit c then
      (readNumeral false (c :: rest)).map fun (token, length) => (token, length - 1)
    else
      .error ⟨.noValue, c :: rest, 1⟩

private def isSpace (c : Char) : Bool :=
  c == ' ' || c == '\n' || c == '\t' || c == '\r'

/-- Split a text into lexemes. -/
def lexemes (text : List Char) : List Lexeme :=
  match text with
  | [] => []
  | c :: rest =>
    if isSpace c then
      lexemes rest
    else
      match readToken c rest with
      | .error fault => [⟨.defect fault, text⟩]
      | .ok (token, length) => ⟨token, text⟩ :: lexemes (rest.drop length)
termination_by text.length
decreasing_by
  · exact Nat.lt_succ_self _
  · exact Nat.lt_succ_of_le (List.length_drop ▸ Nat.sub_le _ _)

end Stepwise.Json
