/-!
Keys, strings and what stands between them in TOML text. Every reader takes the text that follows and gives
back what is left.
-/

namespace Stepwise.Toml

def isBlank (c : Char) : Bool :=
  c == ' ' || c == '\t'

def skipBlanks (text : List Char) : List Char :=
  text.dropWhile isBlank

/-- Whether a character may stand in strings and comments: a tab, or one that is no control character. -/
def isStringChar (c : Char) : Bool :=
  c == '\t' || (0x20 ≤ c.toNat && c.toNat != 0x7F)

/-- A line ends with a line feed, which a carriage return may precede. -/
def takeBreak? : List Char → Option (List Char)
  | '\n' :: rest => some rest
  | '\r' :: '\n' :: rest => some rest
  | _ => none

def skipComment (text : List Char) : List Char :=
  match text with
  | '#' :: rest => rest.dropWhile isStringChar
  | _ => text

/-- Pass blanks and a comment up to the end of the line. -/
def endLine (text : List Char) : Except String (List Char) :=
  match skipComment (skipBlanks text) with
  | [] => .ok []
  | rest =>
    match takeBreak? rest with
    | some rest => .ok rest
    | none => .error "expected newline, \x60#\x60"

/-- Pass blanks, comments and line breaks, with at most `fuel` changes between them. -/
def skipLines : (fuel : Nat) → List Char → List Char
  | 0, text => text
  | fuel + 1, text =>
    match text with
    | ' ' :: rest | '\t' :: rest => skipLines fuel rest
    | '#' :: rest => skipLines fuel (rest.dropWhile isStringChar)
    | _ =>
      match takeBreak? text with
      | some rest => skipLines fuel rest
      | none => text

/-! ### Escapes -/

private def hexDigitValue? (c : Char) : Option Nat :=
  if '0' ≤ c && c ≤ '9' then some (c.toNat - '0'.toNat)
  else if 'a' ≤ c && c ≤ 'f' then some (c.toNat - 'a'.toNat + 10)
  else if 'A' ≤ c && c ≤ 'F' then some (c.toNat - 'A'.toNat + 10)
  else none

private def readCodePoint (digits : Nat) (text : List Char) : Except String (Char × List Char) :=
  let number? := (text.take digits).foldl
    (fun n? c => n?.bind fun n => (hexDigitValue? c).map (n * 16 + ·)) (some 0)
  match number? with
  | some n =>
    if (text.take digits).length = digits && n.isValidChar then
      .ok (Char.ofNat n, text.drop digits)
    else .error "invalid unicode escape"
  | none => .error "invalid unicode escape"

/-- The character that an escape stands for; its backslash has been passed. -/
private def readEscaped : List Char → Except String (Char × List Char)
  | 'b' :: rest => .ok ('\x08', rest)
  | 'f' :: rest => .ok ('\x0c', rest)
  | 'n' :: rest => .ok ('\n', rest)
  | 'r' :: rest => .ok ('\r', rest)
  | 't' :: rest => .ok ('\t', rest)
  | '\\' :: rest => .ok ('\\', rest)
  | '"' :: rest => .ok ('"', rest)
  | 'u' :: rest => readCodePoint 4 rest
  | 'U' :: rest => readCodePoint 8 rest
  | _ => .error "invalid escape sequence"

/-- Blanks and line breaks after a backslash at the end of a line. -/
private def skipJoint : (fuel : Nat) → List Char → List Char
  | 0, text => text
  | fuel + 1, text =>
    match text with
    | ' ' :: rest | '\t' :: rest => skipJoint fuel rest
    | _ =>
      match takeBreak? text with
      | some rest => skipJoint fuel rest
      | none => text

/-! ### Strings -/

/-- The rest of a string on one line after its opening quote; `read` is in reverse. -/
private def readLine (quote : Char) : (fuel : Nat) → (read : List Char) → List Char →
    Except String (String × List Char)
  | 0, _, _ => .error "invalid string"
  | _ + 1, _, [] => .error "invalid string"
  | fuel + 1, read, c :: rest => do
    if c == quote then return (String.ofList read.reverse, rest)
    else if c == '\\' && quote == '"' then
      let (decoded, rest) ← readEscaped rest
      readLine quote fuel (decoded :: read) rest
    else if isStringChar c then readLine quote fuel (c :: read) rest
    else throw "invalid string"

/-- The rest of a string of several lines after its opening quotes. One or two quotes are text, also just
before the three that close the string. -/
private def readLines (quote : Char) : (fuel : Nat) → (read : List Char) → List Char →
    Except String (String × List Char)
  | 0, _, _ => .error "invalid multi-line string"
  | _ + 1, _, [] => .error "invalid multi-line string"
  | fuel + 1, read, c :: rest => do
    if c == quote then
      let quotes := 1 + (rest.takeWhile (· == quote)).length
      if quotes < 3 then
        readLines quote fuel (List.replicate quotes quote ++ read) (rest.drop (quotes - 1))
      else
        let extra := min (quotes - 3) 2
        return (String.ofList (List.replicate extra quote ++ read).reverse, rest.drop (extra + 2))
    else if c == '\\' && quote == '"' then
      match takeBreak? (skipBlanks rest) with
      | some after => readLines quote fuel read (skipJoint after.length after)
      | none =>
        let (decoded, rest) ← readEscaped rest
        readLines quote fuel (decoded :: read) rest
    else
      match takeBreak? (c :: rest) with
      | some rest => readLines quote fuel ('\n' :: read) rest
      | none =>
        if isStringChar c then readLines quote fuel (c :: read) rest
        else throw "invalid multi-line string"

/-- A string value; the text starts with its quote. A line break just after three opening quotes is no
part of the string. -/
def readString (quote : Char) (text : List Char) : Except String (String × List Char) :=
  if text.take 3 == [quote, quote, quote] then
    let body := text.drop 3
    let body := (takeBreak? body).getD body
    readLines quote (body.length + 1) [] body
  else readLine quote text.length [] (text.drop 1)

/-! ### Keys -/

private def isKeyChar (c : Char) : Bool :=
  ('0' ≤ c && c ≤ '9') || ('a' ≤ c && c ≤ 'z') || ('A' ≤ c && c ≤ 'Z') || c == '_' || c == '-'

private def readSimpleKey (text : List Char) : Except String (String × List Char) :=
  match text with
  | '"' :: rest => readLine '"' text.length [] rest
  | '\'' :: rest => readLine '\'' text.length [] rest
  | _ =>
    let key := text.takeWhile isKeyChar
    if key.isEmpty then .error "invalid key" else .ok (String.ofList key, text.drop key.length)

/-- The greatest number of keys in a dotted key, and of values inside each other. -/
def maxDepth : Nat := 79

private def readKeys : (fuel : Nat) → List Char → Except String (List String × List Char)
  | 0, _ => .error "recursion limit exceeded"
  | fuel + 1, text => do
    let (key, rest) ← readSimpleKey (skipBlanks text)
    match skipBlanks rest with
    | '.' :: rest =>
      let (keys, rest) ← readKeys fuel rest
      return (key :: keys, rest)
    | rest => return ([key], rest)

/-- A key or several with dots between them, and the blanks around. -/
def readKey (text : List Char) : Except String (List String × List Char) :=
  readKeys maxDepth text

end Stepwise.Toml
