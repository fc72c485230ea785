import Stepwise.Yaml.Scalar
import Stepwise.Yaml.Tag

/-!
The tokens of a YAML text. Block collections have no brackets; their starts and ends are found from
columns and become tokens of their own. A key is recognised only when its colon is met, so the place
where a key may have begun is remembered until then.
-/

namespace Stepwise.Yaml

inductive Token where
  | version (major minor : Nat)
  | tagHandle (handle : String) (tagStart : Octets)
  | documentStart
  | documentEnd
  | blockSequenceStart
  | blockMappingStart
  | blockEnd
  | flowSequenceStart
  | flowSequenceEnd
  | flowMappingStart
  | flowMappingEnd
  | blockEntry
  | flowEntry
  | key
  | value
  | alias (name : String)
  | anchor (name : String)
  /-- What follows the handle, or the whole tag if there is none. -/
  | tag (handle : Option String) (name : Octets)
  | scalar (text : String) (style : Style)
deriving DecidableEq

/-- A place where a key may have begun. -/
private structure PossibleKey where
  possible : Bool
  /-- Nothing but a key can be meant here. -/
  required : Bool
  /-- The number of tokens before it. -/
  before : Nat
  place : Cursor

private structure Scan where
  /-- More than the number of characters left. -/
  bound : Nat
  cursor : Cursor
  /-- The tokens found so far, in reverse, and their number. -/
  tokens : List Token
  count : Nat
  /-- The column of the innermost block collection and those of the ones around it. -/
  indent : Int
  outer : List Int
  /-- A possible key for the block context and one for each open flow collection, innermost first. -/
  keys : List PossibleKey
  /-- Whether a key may begin here. -/
  keyAllowed : Bool

private def noKey (c : Cursor) : PossibleKey := ⟨false, false, 0, c⟩

namespace Scan

private def start (text : List Char) : Scan :=
  let c := Cursor.ofText text
  ⟨text.length + 1, c, [], 0, -1, [], [noKey c], true⟩

private def inFlow (s : Scan) : Bool := 1 < s.keys.length

private def push (s : Scan) (t : Token) : Scan :=
  { s with tokens := t :: s.tokens, count := s.count + 1 }

/-- Put a token before all but the first `before` ones. -/
private def insertAt (s : Scan) (before : Nat) (t : Token) : Scan :=
  let later := s.count - before
  { s with tokens := s.tokens.take later ++ t :: s.tokens.drop later, count := s.count + 1 }

private def missingColon : String := "could not find expected ':'"

/-- Give up keys that began on an earlier line or more than 1024 characters ago. -/
private def dropStaleKeys (s : Scan) : Except String Scan := do
  let stale (k : PossibleKey) : Bool :=
    k.possible && (k.place.line < s.cursor.line || k.place.index + 1024 < s.cursor.index)
  if s.keys.any fun k => stale k && k.required then throw missingColon
  return { s with keys := s.keys.map fun k => if stale k then { k with possible := false } else k }

/-- Give up the innermost possible key. -/
private def dropKey (s : Scan) : Except String Scan :=
  match s.keys with
  | [] => .ok s
  | k :: rest =>
    if k.possible && k.required then .error missingColon
    else .ok { s with keys := { k with possible := false } :: rest }

/-- Remember that a key may begin here. -/
private def saveKey (s : Scan) : Except String Scan :=
  if s.keyAllowed then do
    let required := !s.inFlow && s.indent == Int.ofNat s.cursor.column
    let s ← s.dropKey
    return { s with keys := ⟨true, required, s.count, s.cursor⟩ :: s.keys.drop 1 }
  else .ok s

/-- Open a block collection at a column, if it is deeper than the innermost one. -/
private def roll (s : Scan) (column before : Nat) (t : Token) : Scan :=
  if !s.inFlow && s.indent < Int.ofNat column then
    { s.insertAt before t with indent := Int.ofNat column, outer := s.indent :: s.outer }
  else s

/-- Close the block collections that are deeper than a column. -/
private def unroll (column : Int) : List Int → Scan → Scan
  | [], s => s
  | around :: outer, s =>
    if column < s.indent then
      unroll column outer { s.push .blockEnd with indent := around, outer }
    else s

private def unrollTo (s : Scan) (column : Int) : Scan :=
  if s.inFlow then s else unroll column s.outer s

/-- Pass blanks, comments and line breaks. A tab is no blank where a key may begin in block context. A byte
order mark at the start of a line is passed as well; it takes a column. -/
private def skipToToken : Nat → Scan → Scan
  | 0, s => s
  | fuel + 1, s =>
    let tabs := s.inFlow || !s.keyAllowed
    let c := if s.cursor.column == 0 && s.cursor.sees '\uFEFF' 0 then s.cursor.skip 1 else s.cursor
    let c := c.skipWhile fun x => x == ' ' || (tabs && x == '\t')
    let c := if c.sees '#' 0 then c.skipWhile (!isBreak ·) else c
    if c.breakAt 0 then
      let (_, next) := c.readBreak
      skipToToken fuel { s with cursor := next, keyAllowed := s.keyAllowed || !s.inFlow }
    else { s with cursor := c }

private def skip (s : Scan) (count : Nat) : Scan :=
  { s with cursor := s.cursor.skip count }

/-! ### Directives, anchors and tags -/

/-- The rest of a directive line may hold a comment only. -/
private def endDirective (s : Scan) : Except String Scan :=
  let c := s.cursor.skipWhile isBlank
  let c := if c.sees '#' 0 then c.skipWhile (!isBreak ·) else c
  if c.atLineEnd then .ok { s with cursor := c.readBreak.2 }
  else .error "did not find expected comment or line break"

private def readNat (c : Cursor) : Except String (Nat × Cursor) :=
  let digits := c.rest.takeWhile fun x => '0' ≤ x && x ≤ '9'
  if digits.isEmpty || 9 < digits.length then .error "did not find expected version number"
  else .ok (digits.foldl (fun n d => n * 10 + (d.toNat - '0'.toNat)) 0, c.skip digits.length)

private def readDirective (s : Scan) : Except String Scan := do
  let c := s.cursor.skip 1
  let name := c.rest.takeWhile isWordChar
  let c := c.skip name.length
  if name.isEmpty || !c.gapAt 0 then throw "could not find expected directive name"
  let c := c.skipWhile isBlank
  match String.ofList name with
  | "YAML" =>
    let (major, c) ← readNat c
    if !c.sees '.' 0 then throw "did not find expected digit or '.' character"
    let (minor, c) ← readNat (c.skip 1)
    ({ s with cursor := c }.push (.version major minor)).endDirective
  | "TAG" =>
    let (handle, c) ← readHandle c
    if handle != "!" && !isClosedHandle handle then throw "did not find expected '!'"
    if !c.blankAt 0 then throw "did not find expected whitespace"
    let (tagStart, c) ← readUri true [] (c.skipWhile isBlank)
    if !c.gapAt 0 then throw "did not find expected whitespace or line break"
    ({ s with cursor := c }.push (.tagHandle handle tagStart.untilZero)).endDirective
  | _ => throw "found unknown directive name"

/-- The name of an anchor or an alias after its mark. -/
private def readAnchor (s : Scan) : Except String (String × Scan) := do
  let c := s.cursor.skip 1
  let name := c.rest.takeWhile isWordChar
  let next := c.skip name.length
  let ends := next.gapAt 0 || next.rest.head?.any fun x => "?:,]\x7d%@\x60".contains x
  if name.isEmpty || !ends then throw "did not find expected alphabetic or numeric character"
  return (String.ofList name, { s with cursor := next })

private def takeTag (s : Scan) : Except String Scan := do
  let (handle, name, next) ← readTag s.cursor
  if !next.gapAt 0 && !(s.inFlow && next.sees ',' 0) then
    throw "did not find expected whitespace or line break"
  return { s with cursor := next }.push (.tag handle name)

/-! ### Tokens -/

/-- A token that begins or ends a document, or a directive; it closes all block collections. -/
private def atMargin (s : Scan) : Except String Scan := do
  let s ← (s.unrollTo (-1)).dropKey
  return { s with keyAllowed := false }

private def openFlow (s : Scan) (t : Token) : Except String Scan := do
  let s ← s.saveKey
  return (({ s with keys := noKey s.cursor :: s.keys, keyAllowed := true }).skip 1).push t

private def closeFlow (s : Scan) (t : Token) : Except String Scan := do
  let s ← s.dropKey
  let keys := if s.inFlow then s.keys.drop 1 else s.keys
  return (({ s with keys, keyAllowed := false }).skip 1).push t

private def readBlockEntry (s : Scan) : Except String Scan := do
  if !s.inFlow && !s.keyAllowed then
    throw "block sequence entries are not allowed in this context"
  let s ← (s.roll s.cursor.column s.count .blockSequenceStart).dropKey
  return (({ s with keyAllowed := true }).skip 1).push .blockEntry

private def readKeyMark (s : Scan) : Except String Scan := do
  if !s.inFlow && !s.keyAllowed then throw "mapping keys are not allowed in this context"
  let s ← (s.roll s.cursor.column s.count .blockMappingStart).dropKey
  return (({ s with keyAllowed := !s.inFlow }).skip 1).push .key

private def readValueMark (s : Scan) : Except String Scan := do
  match s.keys with
  | k :: rest =>
    if k.possible then
      let s := { s with keys := { k with possible := false } :: rest }
      let s := (s.insertAt k.before .key).roll k.place.column k.before .blockMappingStart
      return (({ s with keyAllowed := false }).skip 1).push .value
    else
      if !s.inFlow && !s.keyAllowed then throw "mapping values are not allowed in this context"
      let s := s.roll s.cursor.column s.count .blockMappingStart
      return (({ s with keyAllowed := !s.inFlow }).skip 1).push .value
  | [] => throw "mapping values are not allowed in this context"

private def withKey (s : Scan) (read : Scan → Except String Scan) : Except String Scan := do
  let s ← s.saveKey
  read { s with keyAllowed := false }

private def readScalar (s : Scan) (read : Read) (style : Style) : Except String Scan := do
  let (text, next) ← read
  return { s with cursor := next }.push (.scalar text style)

private def readBlockScalar (s : Scan) (literal : Bool) : Except String Scan := do
  let s ← s.dropKey
  let style : Style := if literal then .literal else .folded
  let s ← s.readScalar (readBlock s.bound literal s.indent (s.cursor.skip 1)) style
  return { s with keyAllowed := true }

private def readPlainScalar (s : Scan) : Except String Scan :=
  s.withKey fun s => do
    let p ← readPlain s.bound s.inFlow (s.indent + 1) s.cursor
    let s := { s with cursor := p.reached, keyAllowed := s.keyAllowed || p.newLine }
    return s.push (.scalar (String.ofList p.text.reverse) .plain)

private def startsPlain (s : Scan) (x : Char) : Bool :=
  let c := s.cursor
  (!c.gapAt 0 && !"-?:,[]\x7b\x7d#&*!|>'\"%@\x60".contains x) ||
    (x == '-' && !c.blankAt 1) ||
    (!s.inFlow && (x == '?' || x == ':') && !c.gapAt 1)

/-- Read the token that starts with the character `x`. -/
private def readToken (s : Scan) (x : Char) : Except String Scan :=
  let c := s.cursor
  if c.column == 0 && x == '%' then s.atMargin >>= readDirective
  else if c.atDocumentMark then do
    let s ← s.atMargin
    return (s.skip 3).push (if x == '-' then .documentStart else .documentEnd)
  else if x == '[' then s.openFlow .flowSequenceStart
  else if x == '\x7b' then s.openFlow .flowMappingStart
  else if x == ']' then s.closeFlow .flowSequenceEnd
  else if x == '\x7d' then s.closeFlow .flowMappingEnd
  else if x == ',' then do
    let s ← s.dropKey
    return (({ s with keyAllowed := true }).skip 1).push .flowEntry
  else if x == '-' && c.gapAt 1 then s.readBlockEntry
  else if x == '?' && (s.inFlow || c.gapAt 1) then s.readKeyMark
  else if x == ':' && (s.inFlow || c.gapAt 1) then s.readValueMark
  else if x == '*' then s.withKey fun s => do
    let (name, s) ← s.readAnchor
    return s.push (.alias name)
  else if x == '&' then s.withKey fun s => do
    let (name, s) ← s.readAnchor
    return s.push (.anchor name)
  else if x == '!' then s.withKey takeTag
  else if x == '|' && !s.inFlow then s.readBlockScalar true
  else if x == '>' && !s.inFlow then s.readBlockScalar false
  else if x == '\'' then s.withKey fun s => s.readScalar (readQuoted s.bound true (s.cursor.skip 1)) .quoted
  else if x == '"' then s.withKey fun s => s.readScalar (readQuoted s.bound false (s.cursor.skip 1)) .quoted
  else if s.startsPlain x then s.readPlainScalar
  else .error "found character that cannot start any token"

/-- Close what is open at the end of the text. -/
private def finish (s : Scan) : Except String (List Token) := do
  let c := s.cursor
  let line := if c.column == 0 then c.line else c.line + 1
  let s ← ({ s with cursor := ⟨[], c.index, line, 0⟩ }).atMargin
  return s.tokens.reverse

/-- Read tokens to the end of the text; every round takes at least one character. -/
private def readAll : Nat → Scan → Except String (List Token)
  | 0, s => s.finish
  | fuel + 1, s => do
    let s ← (skipToToken s.bound s).dropStaleKeys
    let s := s.unrollTo (Int.ofNat s.cursor.column)
    match s.cursor.rest with
    | [] => s.finish
    | x :: _ => do readAll fuel (← s.readToken x)

end Scan

def tokens (text : List Char) : Except String (List Token) :=
  let start := Scan.start text
  if text.all isAllowed then Scan.readAll start.bound start
  else .error "control characters are not allowed"

end Stepwise.Yaml
