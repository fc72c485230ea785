import Stepwise.Text.Printable

/-!
Text in quotes as diagnostics show it: quotes and backslashes are escaped, the usual controls have short
forms, and any other character that cannot be shown is given by its number.
-/

namespace Stepwise.Text

private def hex (n : Nat) : List Char :=
  Nat.toDigits 16 n

/-- How a character is shown inside quotes. -/
def quotedChar (c : Char) : List Char :=
  if c = '\x00' then ['\\', '0']
  else if c = '\t' then ['\\', 't']
  else if c = '\n' then ['\\', 'n']
  else if c = '\r' then ['\\', 'r']
  else if c = '"' then ['\\', '"']
  else if c = '\\' then ['\\', '\\']
  else if 0x20 ≤ c.toNat && c.toNat < 0x7F || isPrintable c then [c]
  else ['\\', 'u', '\x7b'] ++ hex c.toNat ++ ['\x7d']

/-- A string in quotes. -/
def quoted (s : String) : String :=
  "\"" ++ String.ofList (s.toList.flatMap quotedChar) ++ "\""

end Stepwise.Text
