import Stepwise.Yaml.Cursor

/-!
Tags of YAML nodes. A tag is a row of octets; an octet may be written by its hexadecimal number after a
percent sign. Of all tags only a few make a difference.
-/

namespace Stepwise.Yaml

abbrev Octets := List UInt8

private def octetsOf (text : List Char) : Octets :=
  text.map fun c => c.toNat.toUInt8

/-- A zero ends a tag, whatever follows it. -/
def Octets.untilZero (octets : Octets) : Octets :=
  octets.takeWhile (· != 0)

/-- Whether octets are the encoding of a text. -/
private def isText (octets : Octets) : Bool :=
  (ByteArray.mk octets.toArray).validateUTF8

/-- What a tag says about a node. -/
inductive Tag where
  | bool
  | int
  | float
  | null
  /-- A type of somebody's own; its name may fail to be text. -/
  | own (named : Bool)
  /-- A type that makes no difference. -/
  | other
deriving DecidableEq

namespace Tag

/-- The octets with which the tags of standard types begin. -/
def standardStart : Octets := octetsOf "tag:yaml.org,2002:".toList

def ofOctets (octets : Octets) : Tag :=
  let standard (name : String) : Bool := octets == standardStart ++ octetsOf name.toList
  if standard "bool" then .bool
  else if standard "int" then .int
  else if standard "float" then .float
  else if standard "null" then .null
  else match octets with
  | 0x21 :: name => .own (isText name)
  | _ => .other

/-- Whether a tag gives a node a type that only a reader of that type knows. -/
def isNamedOwn (tag : Option Tag) : Bool :=
  tag == some (.own true)

end Tag

/-! ### Reading -/

/-- An octet by its number. -/
private def readOctet (c : Cursor) : Except String (Nat × Cursor) :=
  match c.rest with
  | '%' :: x :: y :: _ =>
    match hexDigit? x, hexDigit? y with
    | some high, some low => .ok (high * 16 + low, c.skip 3)
    | _, _ => .error "did not find URI escaped octet"
  | _ => .error "did not find URI escaped octet"

/-- How many octets a character has that begins with the given one. -/
private def widthOf? (octet : Nat) : Option Nat :=
  if octet < 0x80 then some 1
  else if octet < 0xC0 then none
  else if octet < 0xE0 then some 2
  else if octet < 0xF0 then some 3
  else if octet < 0xF8 then some 4
  else none

/-- Octets inside a character. -/
private def readTrailing : Nat → Octets → Cursor → Except String (Octets × Cursor)
  | 0, read, c => .ok (read, c)
  | count + 1, read, c => do
    let (octet, c) ← readOctet c
    if octet < 0x80 || 0xC0 ≤ octet then throw "found an incorrect trailing UTF-8 octet"
    readTrailing count (read ++ [octet.toUInt8]) c

/-- A character whose octets are given by their numbers. -/
private def readEscaped (c : Cursor) : Except String (Octets × Cursor) := do
  let (octet, c) ← readOctet c
  match widthOf? octet with
  | some width => readTrailing (width - 1) [octet.toUInt8] c
  | none => throw "found an incorrect leading UTF-8 octet"

private def isUriChar (brackets : Bool) (c : Char) : Bool :=
  isWordChar c || ";/?:@&=+$.!~*'()%".contains c || (brackets && ",[]".contains c)

private def readUriFrom (brackets : Bool) : Nat → Octets → Cursor → Except String (Octets × Cursor)
  | 0, read, c => .ok (read, c)
  | fuel + 1, read, c =>
    match c.rest with
    | [] => .ok (read, c)
    | x :: _ =>
      if x = '%' then do
        let (octets, next) ← readEscaped c
        readUriFrom brackets fuel (read ++ octets) next
      else if isUriChar brackets x then
        readUriFrom brackets fuel (read ++ octetsOf [x]) (c.skip 1)
      else .ok (read, c)

/-- The octets of part of a tag after those that are given. There must be one. -/
def readUri (brackets : Bool) (before : Octets) (c : Cursor) : Except String (Octets × Cursor) := do
  let (octets, next) ← readUriFrom brackets c.rest.length before c
  if octets.isEmpty then throw "did not find expected tag URI"
  return (octets, next)

/-- A handle is an exclamation mark, or a word between two. -/
def readHandle (c : Cursor) : Except String (String × Cursor) :=
  if c.sees '!' 0 then
    let word := (c.rest.drop 1).takeWhile isWordChar
    let closed := (c.skip (1 + word.length)).sees '!' 0
    let length := 1 + word.length + if closed then 1 else 0
    .ok (String.ofList (c.rest.take length), c.skip length)
  else .error "did not find expected '!'"

def isClosedHandle (handle : String) : Bool :=
  handle != "!" && handle.endsWith "!"

/-- A tag at its exclamation mark: the handle to be replaced, if any, and what follows it. -/
def readTag (c : Cursor) : Except String (Option String × Octets × Cursor) := do
  if c.sees '<' 1 then
    let (octets, next) ← readUri true [] (c.skip 2)
    if !next.sees '>' 0 then throw "did not find the expected '>'"
    return (none, octets.untilZero, next.skip 1)
  let (handle, next) ← readHandle c
  if isClosedHandle handle then
    let (octets, next) ← readUri false [] next
    return (some handle, octets.untilZero, next)
  else
    -- the handle alone stands for a tag without a name
    let (octets, next) ← readUri false (octetsOf handle.toList) next
    match Octets.untilZero (octets.drop 1) with
    | [] => return (none, octets.take 1, next)
    | name => return (some "!", name, next)

/-- The octets that a handle stands for if nothing else is said. -/
def standardHandles : List (String × Octets) :=
  [("!", octetsOf ['!']), ("!!", Tag.standardStart)]

end Stepwise.Yaml
