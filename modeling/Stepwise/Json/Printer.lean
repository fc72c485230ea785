import Stepwise.Json.Basic
import Stepwise.Binary64.Shortest

/-!
The text of JSON values: a compact form without blanks, used wherever a value becomes text, and an
indented form for reports.
-/

namespace Stepwise

def Number.text : Number → String
  | .int n => toString n
  | .float x => x.text

namespace Json

private def hexDigit (n : Nat) : Char :=
  Nat.digitChar n

/-- How a character is written inside quotes. Only quotes, backslashes and control characters are
escaped; all else stands for itself. -/
def escapeChar (c : Char) : List Char :=
  if c = '"' then ['\\', '"']
  else if c = '\\' then ['\\', '\\']
  else if c = '\x08' then ['\\', 'b']
  else if c = '\t' then ['\\', 't']
  else if c = '\n' then ['\\', 'n']
  else if c = '\x0c' then ['\\', 'f']
  else if c = '\r' then ['\\', 'r']
  else if c.toNat < 0x20 then
    ['\\', 'u', '0', '0', hexDigit (c.toNat / 16), hexDigit (c.toNat % 16)]
  else [c]

/-- A string in quotes. -/
def quote (s : String) : String :=
  "\"" ++ String.ofList (s.toList.flatMap escapeChar) ++ "\""

mutual

/-- The text of a value without blanks. -/
def compact : Json → String
  | .null => "null"
  | .bool true => "true"
  | .bool false => "false"
  | .number n => n.text
  | .string s => quote s
  | .array items => "[" ++ compactItems items ++ "]"
  | .object fields => "\x7b" ++ compactFields fields ++ "\x7d"

def compactItems : List Json → String
  | [] => ""
  | [x] => x.compact
  | x :: rest => x.compact ++ "," ++ compactItems rest

def compactFields : List (String × Json) → String
  | [] => ""
  | [(key, x)] => quote key ++ ":" ++ x.compact
  | (key, x) :: rest => quote key ++ ":" ++ x.compact ++ "," ++ compactFields rest

end

private def newline (depth : Nat) : String :=
  "\n" ++ String.ofList (List.replicate (2 * depth) ' ')

mutual

/-- The text of a value over several lines, each level indented by two blanks; empty arrays and objects
stay on one line. -/
def indented (depth : Nat) : Json → String
  | .array (x :: rest) =>
    "[" ++ newline (depth + 1) ++ x.indented (depth + 1) ++ indentedItems (depth + 1) rest ++
      newline depth ++ "]"
  | .object ((key, x) :: rest) =>
    "\x7b" ++ newline (depth + 1) ++ quote key ++ ": " ++ x.indented (depth + 1) ++
      indentedFields (depth + 1) rest ++ newline depth ++ "\x7d"
  | .array [] => "[]"
  | .object [] => "\x7b\x7d"
  | .null => "null"
  | .bool true => "true"
  | .bool false => "false"
  | .number n => n.text
  | .string s => quote s

def indentedItems (depth : Nat) : List Json → String
  | [] => ""
  | x :: rest => "," ++ newline depth ++ x.indented depth ++ indentedItems depth rest

def indentedFields (depth : Nat) : List (String × Json) → String
  | [] => ""
  | (key, x) :: rest =>
    "," ++ newline depth ++ quote key ++ ": " ++ x.indented depth ++ indentedFields depth rest

end

/-- The indented text of a value. -/
def pretty (value : Json) : String :=
  value.indented 0

end Json

end Stepwise
