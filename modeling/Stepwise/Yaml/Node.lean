import Stepwise.Yaml.Token

/-!
The tree of nodes that the tokens of one document describe. Every token that may be missing stands for an
empty plain scalar. Aliases stay in the tree; what they stand for is said by the anchors of the whole tree.
-/

namespace Stepwise.Yaml

/-- What stands before a node. -/
structure Properties where
  /-- The number of the anchor. -/
  anchor : Option Nat
  tag : Option Tag

namespace Properties

def none : Properties := ⟨.none, .none⟩

def isGiven (p : Properties) : Bool :=
  p.anchor.isSome || p.tag.isSome

end Properties

inductive Node where
  | scalar (text : String) (style : Style) (properties : Properties)
  | sequence (items : List Node) (properties : Properties)
  | mapping (entries : List (Node × Node)) (properties : Properties)
  /-- Stands for the last node with an anchor of the given number. -/
  | alias (anchor : Nat)

namespace Node

instance : Inhabited Node := ⟨.alias 0⟩

/-- What stands where nothing is written. -/
def blank : Node := .scalar "" .plain .none

/-! ### Measures of a tree -/

mutual

/-- The number of scalars, aliases, and starts and ends of collections. -/
def size : Node → Nat
  | .scalar _ _ _ | .alias _ => 1
  | .sequence items _ => 2 + itemsSize items
  | .mapping entries _ => 2 + entriesSize entries

def itemsSize : List Node → Nat
  | [] => 0
  | item :: rest => item.size + itemsSize rest

def entriesSize : List (Node × Node) → Nat
  | [] => 0
  | (key, value) :: rest => key.size + value.size + entriesSize rest

end

private def underAnchor (p : Properties) (node : Node) : List (Nat × Node) :=
  match p.anchor with
  | some n => [(n, node)]
  | none => []

mutual

/-- The nodes with anchors, in the order in which they begin. -/
def anchored : Node → List (Nat × Node)
  | .scalar text style p => underAnchor p (.scalar text style p)
  | .sequence items p => underAnchor p (.sequence items p) ++ itemsAnchored items
  | .mapping entries p => underAnchor p (.mapping entries p) ++ entriesAnchored entries
  | .alias _ => []

def itemsAnchored : List Node → List (Nat × Node)
  | [] => []
  | item :: rest => item.anchored ++ itemsAnchored rest

def entriesAnchored : List (Node × Node) → List (Nat × Node)
  | [] => []
  | (key, value) :: rest => key.anchored ++ value.anchored ++ entriesAnchored rest

end

/-! ### Reading -/

/-- What is known after some of the tokens. -/
private structure Reading where
  rest : List Token
  handles : List (String × Octets)
  /-- The names of anchors so far, each once, with the number that an alias of the name has. -/
  names : List (String × Nat)

private abbrev Step := StateT Reading (Except String)

private def peek? : Step (Option Token) := do
  return (← get).rest.head?

private def pass : Step Unit :=
  modify fun r => { r with rest := r.rest.drop 1 }

/-- Whether one of the tokens comes next. -/
private def seesAny (tokens : List Token) : Step Bool := do
  return (← peek?).any tokens.contains

/-- Pass a token if it comes next. -/
private def takes (t : Token) : Step Bool := do
  if (← peek?) = some t then
    pass
    return true
  else return false

/-- The tag that a handle and a name stand for. -/
private def resolveTag (handle : Option String) (name : Octets) : Step Tag := do
  match handle with
  | none => return .ofOctets name
  | some handle =>
    match (← get).handles.lookup handle with
    | some start => return .ofOctets (start ++ name)
    | none => throw "found undefined tag handle"

/-- Give a name to the node that begins. Its number is the number of names so far, so the next new name
after a name given again has the same number as that. -/
private def numberAnchor (name : String) : Step Nat :=
  modifyGet fun r =>
    let number := r.names.length
    (number, { r with names := (name, number) :: r.names.filter fun n => n.1 != name })

private def anchor? : Step (Option String) := do
  match ← peek? with
  | some (.anchor name) => pass; return some name
  | _ => return none

private def tag? : Step (Option Tag) := do
  match ← peek? with
  | some (.tag handle name) => pass; return some (← resolveTag handle name)
  | _ => return none

/-- An anchor and a tag before a node, in either order. -/
private def properties : Step Properties := do
  let early ← anchor?
  let tag ← tag?
  let name ← if early.isSome then pure early else anchor?
  return ⟨← name.mapM numberAnchor, tag⟩

/-- The number of the name that an alias repeats. -/
private def numberOf (name : String) : Step Nat := do
  match (← get).names.lookup name with
  | some number => return number
  | none => throw "unknown anchor"

private def tooDeep : String := "nodes are nested too deeply"

mutual

/-- A node. In block context it may be a block collection; where `indentless` is set, entries of a
sequence may follow without a deeper indentation. The first argument bounds the number of calls. -/
private def readNode : Nat → (block indentless : Bool) → Step Node
  | 0, _, _ => throw tooDeep
  | fuel + 1, block, indentless => do
    match ← peek? with
    | some (.alias name) => pass; return .alias (← numberOf name)
    | _ => readContent fuel block indentless (← properties)

private def readContent : Nat → (block indentless : Bool) → Properties → Step Node
  | 0, _, _, _ => throw tooDeep
  | fuel + 1, block, indentless, p => do
    match ← peek?, block, indentless with
    | some .blockEntry, _, true => return .sequence (← readIndentless fuel) p
    | some (.scalar text style), _, _ => pass; return .scalar text style p
    | some .flowSequenceStart, _, _ =>
      pass; return .sequence (← readFlowItems fuel true) p
    | some .flowMappingStart, _, _ =>
      pass; return .mapping (← readFlowEntries fuel true) p
    | some .blockSequenceStart, true, _ =>
      pass; return .sequence (← readBlockItems fuel) p
    | some .blockMappingStart, true, _ =>
      pass; return .mapping (← readBlockEntries fuel) p
    | _, _, _ =>
      if p.isGiven then return .scalar "" .plain p
      else throw "did not find expected node content"

/-- The entries of a block sequence up to its end. -/
private def readBlockItems : Nat → Step (List Node)
  | 0 => throw tooDeep
  | fuel + 1 => do
    if ← takes .blockEntry then
      let item ← readUnless fuel [.blockEntry, .blockEnd] true false
      return item :: (← readBlockItems fuel)
    else if ← takes .blockEnd then return []
    else throw "did not find expected '-' indicator"

/-- The entries of a sequence that is not indented deeper than the mapping around it. -/
private def readIndentless : Nat → Step (List Node)
  | 0 => throw tooDeep
  | fuel + 1 => do
    if ← takes .blockEntry then
      let item ← readUnless fuel [.blockEntry, .key, .value, .blockEnd] true false
      return item :: (← readIndentless fuel)
    else return []

/-- The entries of a block mapping up to its end. -/
private def readBlockEntries : Nat → Step (List (Node × Node))
  | 0 => throw tooDeep
  | fuel + 1 => do
    if ← takes .key then
      let key ← readUnless fuel [.key, .value, .blockEnd] true true
      let value ←
        if ← takes .value then readUnless fuel [.key, .value, .blockEnd] true true
        else pure blank
      return (key, value) :: (← readBlockEntries fuel)
    else if ← takes .blockEnd then return []
    else throw "did not find expected key"

/-- The items of a flow sequence up to its bracket. A key without braces makes a mapping of its own. -/
private def readFlowItems : Nat → (first : Bool) → Step (List Node)
  | 0, _ => throw tooDeep
  | fuel + 1, first => do
    if ← takes .flowSequenceEnd then return []
    if !first then
      if !(← takes .flowEntry) then throw "did not find expected ',' or ']'"
      if ← takes .flowSequenceEnd then return []
    if ← takes .key then
      let key ←
        if ← seesAny [.value, .flowEntry, .flowSequenceEnd] then
          pass; pure blank
        else readNode fuel false false
      let value ←
        if ← takes .value then readUnless fuel [.flowEntry, .flowSequenceEnd] false false
        else pure blank
      return .mapping [(key, value)] .none :: (← readFlowItems fuel false)
    else
      let item ← readNode fuel false false
      return item :: (← readFlowItems fuel false)

/-- The entries of a flow mapping up to its brace. -/
private def readFlowEntries : Nat → (first : Bool) → Step (List (Node × Node))
  | 0, _ => throw tooDeep
  | fuel + 1, first => do
    if ← takes .flowMappingEnd then return []
    if !first then
      if !(← takes .flowEntry) then throw "did not find expected ',' or '\x7d'"
      if ← takes .flowMappingEnd then return []
    if ← takes .key then
      let key ← readUnless fuel [.value, .flowEntry, .flowMappingEnd] false false
      let value ←
        if ← takes .value then readUnless fuel [.flowEntry, .flowMappingEnd] false false
        else pure blank
      return (key, value) :: (← readFlowEntries fuel false)
    else
      let key ← readNode fuel false false
      return (key, blank) :: (← readFlowEntries fuel false)

/-- A node, or the blank one if a token comes next that cannot begin a node. -/
private def readUnless : Nat → List Token → (block indentless : Bool) → Step Node
  | 0, _, _, _ => throw tooDeep
  | fuel + 1, others, block, indentless => do
    if ← seesAny others then return blank
    else readNode fuel block indentless

end

/-- Take the directives before a document. -/
private def readDirectives (versioned : Bool) (own : List (String × Octets)) : List Token →
    Except String (List (String × Octets) × List Token)
  | .version major minor :: rest =>
    if versioned then .error "found duplicate %YAML directive"
    else if major = 1 ∧ (minor = 1 ∨ minor = 2) then readDirectives true own rest
    else .error "found incompatible YAML document"
  | .tagHandle handle start :: rest =>
    if (own.lookup handle).isSome then .error "found duplicate %TAG directive"
    else readDirectives versioned ((handle, start) :: own) rest
  | rest => .ok (own, rest)

private def startsContent : List Token → Bool
  | [] | .version _ _ :: _ | .tagHandle _ _ :: _ | .documentStart :: _ | .documentEnd :: _ => false
  | _ => true

/-- The root of the only document that the tokens describe; none if there is no document. -/
def ofTokens (tokens : List Token) : Except String (Option Node) := do
  if tokens.isEmpty then return none
  let (own, rest) ← readDirectives false [] tokens
  let explicit := rest.length < tokens.length || rest.head? = some .documentStart
  if explicit && rest.head? ≠ some .documentStart then throw "did not find expected <document start>"
  let rest := if explicit then rest.drop 1 else rest
  let start : Reading := ⟨rest, own ++ standardHandles, []⟩
  let (root, finish) ←
    if explicit && !startsContent rest then pure (blank, start)
    else (readNode (4 * rest.length + 8) true false).run start
  if !(finish.rest.dropWhile (· = .documentEnd)).isEmpty then throw "there is more than one document"
  return some root

end Node

end Stepwise.Yaml
