/-!
Characters of YAML text and a place in it. Five characters break a line; a carriage return followed by a
line feed is one break.
-/

namespace Stepwise.Yaml

def isBreak (c : Char) : Bool :=
  c == '\n' || c == '\r' || c == '\x85' || c == '\u2028' || c == '\u2029'

def isBlank (c : Char) : Bool :=
  c == ' ' || c == '\t'

/-- Letters, digits, `_` and `-`, which make up the names of anchors and directives. -/
def isWordChar (c : Char) : Bool :=
  ('0' ≤ c && c ≤ '9') || ('a' ≤ c && c ≤ 'z') || ('A' ≤ c && c ≤ 'Z') || c == '_' || c == '-'

/-- The value of a hexadecimal digit. -/
def hexDigit? (c : Char) : Option Nat :=
  if '0' ≤ c && c ≤ '9' then some (c.toNat - '0'.toNat)
  else if 'a' ≤ c && c ≤ 'f' then some (c.toNat - 'a'.toNat + 10)
  else if 'A' ≤ c && c ≤ 'F' then some (c.toNat - 'A'.toNat + 10)
  else none

/-- Characters that may stand in a YAML text as they are. -/
def isAllowed (c : Char) : Bool :=
  let n := c.toNat
  c == '\t' || c == '\n' || c == '\r' || (0x20 ≤ n && n ≤ 0x7E) || n == 0x85 ||
    (0xA0 ≤ n && n ≤ 0xFFFD) || 0x10000 ≤ n

/-- A place in a text: what follows it, and how far it is from the start. Lines and columns count from
zero. -/
structure Cursor where
  rest : List Char
  index : Nat
  line : Nat
  column : Nat

namespace Cursor

def ofText (text : List Char) : Cursor := ⟨text, 0, 0, 0⟩

/-- The character some places ahead. -/
def peek? (c : Cursor) (ahead : Nat) : Option Char :=
  (c.rest.drop ahead).head?

/-- Whether the given character stands some places ahead. -/
def sees (c : Cursor) (x : Char) (ahead : Nat) : Bool :=
  c.peek? ahead == some x

/-- Whether a blank, a line break or the end stands some places ahead. -/
def gapAt (c : Cursor) (ahead : Nat) : Bool :=
  match c.peek? ahead with
  | some x => isBlank x || isBreak x
  | none => true

def blankAt (c : Cursor) (ahead : Nat) : Bool :=
  (c.peek? ahead).any isBlank

def breakAt (c : Cursor) (ahead : Nat) : Bool :=
  (c.peek? ahead).any isBreak

def atEnd (c : Cursor) : Bool := c.rest.isEmpty

/-- Whether the line or the text ends here. -/
def atLineEnd (c : Cursor) : Bool := c.atEnd || c.breakAt 0

/-- Pass characters that are no line breaks. -/
def skip (c : Cursor) (count : Nat) : Cursor :=
  ⟨c.rest.drop count, c.index + count, c.line, c.column + count⟩

/-- Pass the characters that fulfil a condition and are no line breaks. -/
def skipWhile (c : Cursor) (p : Char → Bool) : Cursor :=
  c.skip (c.rest.takeWhile p).length

/-- Pass a line break, if there is one, and say what it reads as: nothing at the end of the text, a line
feed for the usual breaks, and itself for the two separators of Unicode. -/
def readBreak (c : Cursor) : List Char × Cursor :=
  match c.rest with
  | '\r' :: '\n' :: rest => (['\n'], ⟨rest, c.index + 2, c.line + 1, 0⟩)
  | x :: rest =>
    if x = '\r' ∨ x = '\n' ∨ x = '\x85' then (['\n'], ⟨rest, c.index + 1, c.line + 1, 0⟩)
    else if isBreak x then ([x], ⟨rest, c.index + 1, c.line + 1, 0⟩)
    else ([], c)
  | [] => ([], c)

/-- Whether a line that separates documents starts here. -/
def atDocumentMark (c : Cursor) : Bool :=
  c.column == 0 && (c.rest.take 3 == ['-', '-', '-'] || c.rest.take 3 == ['.', '.', '.']) && c.gapAt 3

end Cursor

end Stepwise.Yaml
