import Stepwise.Toml.Number
import Stepwise.Toml.Table

/-!
TOML text as a document. Lines fill the table of the header above them. A table enters its parent when the
next header or the end of the text is met.
-/

namespace Stepwise.Toml

/-- The key under which the text of a time stands. -/
private def timeKey : String := "$__toml_private_datetime"

private def timeDocument (text : String) : Document :=
  .object [(timeKey, .string text)]

private def readWord (word : String) (value : Scalar) (text : List Char) :
    Except String (Document × List Char) :=
  if text.take word.length == word.toList then .ok (.scalar value, text.drop word.length)
  else .error "invalid value"

/-- A value that is no collection. -/
private def readScalar (text : List Char) : Except String (Document × List Char) :=
  match text with
  | '"' :: _ => (readString '"' text).map fun (s, rest) => (.string s, rest)
  | '\'' :: _ => (readString '\'' text).map fun (s, rest) => (.string s, rest)
  | 't' :: _ => readWord "true" (.bool true) text
  | 'f' :: _ => readWord "false" (.bool false) text
  | 'i' :: _ => readWord "inf" .notFinite text
  | 'n' :: _ => readWord "nan" .notFinite text
  | _ =>
    match readDateTime? text with
    | some reads => reads.map fun (time, rest) => (timeDocument time, rest)
    | none => (readNumber text).map fun (value, rest) => (.scalar value, rest)

mutual

/-- A value; `depth` more collections may be opened. The first argument bounds the number of calls. -/
private def readValue : (fuel depth : Nat) → List Char → Except String (Document × List Char)
  | fuel + 1, depth + 1, '[' :: rest => do
    let (items, rest) ← readItems fuel depth (skipLines rest.length rest)
    return (.array items, rest)
  | fuel + 1, depth + 1, '\x7b' :: rest => do
    let (entries, rest) ← readInline fuel depth [] (skipBlanks rest)
    return (.object (Item.entriesToDocuments entries), rest)
  | _, _, '[' :: _ | _, _, '\x7b' :: _ => .error "recursion limit exceeded"
  | _, _, text => readScalar text

/-- The items of an array up to its bracket. -/
private def readItems : (fuel depth : Nat) → List Char → Except String (List Document × List Char)
  | 0, _, _ => .error "invalid array"
  | _ + 1, _, ']' :: rest => .ok ([], rest)
  | fuel + 1, depth, text => do
    let (item, rest) ← readValue fuel depth text
    match skipLines rest.length rest with
    | ',' :: rest =>
      let (items, rest) ← readItems fuel depth (skipLines rest.length rest)
      return (item :: items, rest)
    | ']' :: rest => return ([item], rest)
    | _ => throw "invalid array"

/-- The entries of a table in braces up to the closing one, which may not follow a comma. -/
private def readInline : (fuel depth : Nat) → Entries → List Char →
    Except String (Entries × List Char)
  | 0, _, _, _ => .error "invalid inline table"
  | fuel + 1, depth, entries, text => do
    if entries.isEmpty && text.head? == some '\x7d' then return (entries, text.drop 1)
    let (keys, rest) ← readKey text
    match rest with
    | '=' :: rest =>
      let (value, rest) ← readValue fuel depth (skipBlanks rest)
      let entries ← entries.set keys.dropLast (keys.getLastD "") (.value value)
      match skipBlanks rest with
      | ',' :: rest => readInline fuel depth entries rest
      | '\x7d' :: rest => return (entries, rest)
      | _ => throw "invalid inline table"
    | _ => throw "expected \x60.\x60, \x60=\x60"

end

/-- The tables read so far and the one that is being filled. -/
private structure Filling where
  root : Entries
  /-- The header of the table that is being filled; none for the lines before the first header. -/
  header : Option (List String × String × Bool)
  current : Entries

private def Filling.close (f : Filling) : Except String Entries :=
  match f.header with
  | none => .ok f.current
  | some (path, key, true) => f.root.addTable path key f.current
  | some (path, key, false) => f.root.putTable path key f.current

/-- A header; the bracket at the start of the line has been passed. -/
private def readHeader (f : Filling) (text : List Char) : Except String (Filling × List Char) := do
  let double := text.head? == some '['
  let (keys, rest) ← readKey (if double then text.drop 1 else text)
  let (path, key) := (keys.dropLast, keys.getLastD "")
  let closing := if double then [']', ']'] else [']']
  if rest.take closing.length != closing then throw "invalid table header"
  let rest ← endLine (rest.drop closing.length)
  let root ← f.close
  if double then return (⟨root, some (path, key, true), []⟩, rest)
  else
    let (current, root) ← root.takeTable path key
    return (⟨root, some (path, key, false), current⟩, rest)

private def readEntry (f : Filling) (text : List Char) : Except String (Filling × List Char) := do
  let (keys, rest) ← readKey text
  match rest with
  | '=' :: rest =>
    let rest := skipBlanks rest
    let (value, rest) ← readValue (rest.length + 1) maxDepth rest
    let rest ← endLine rest
    let current ← f.current.set keys.dropLast (keys.getLastD "") (.value value)
    return ({ f with current }, rest)
  | _ => throw "expected \x60.\x60, \x60=\x60"

private def readExpressions : (fuel : Nat) → Filling → List Char → Except String Entries
  | 0, f, _ => f.close
  | fuel + 1, f, text =>
    match skipBlanks text with
    | [] => f.close
    | '#' :: rest => do readExpressions fuel f (← endLine ('#' :: rest))
    | '[' :: rest => do
      let (f, rest) ← readHeader f rest
      readExpressions fuel f rest
    | text =>
      match takeBreak? text with
      | some rest => readExpressions fuel f rest
      | none => do
        let (f, rest) ← readEntry f text
        readExpressions fuel f rest

/-- Read a text. A byte order mark at its start is passed over. -/
def read (text : String) : Except String Document := do
  let text := match text.toList with
    | '\uFEFF' :: rest => rest
    | chars => chars
  let entries ← readExpressions (text.length + 1) ⟨[], none, []⟩ text
  return .object (Item.entriesToDocuments entries)

end Stepwise.Toml
