import Stepwise.Yaml.Node
import Stepwise.Document.Basic
import Stepwise.Document.Reach

/-!
YAML text as a document. A scalar has the type that its tag or, if it is plain, its text suggests, unless a
type asks for it. Keys are texts; a mapping with keys of other types can be fitted to a type but is no JSON
value. Aliases are followed where the document is looked at, and nowhere else.
-/

namespace Stepwise.Yaml

/-! ### Plain scalars -/

private def isDigit (c : Char) : Bool := '0' ≤ c && c ≤ '9'

private def digitIn? (base : Nat) (c : Char) : Option Nat :=
  let n :=
    if isDigit c then c.toNat - '0'.toNat
    else if 'a' ≤ c && c ≤ 'z' then c.toNat - 'a'.toNat + 10
    else if 'A' ≤ c && c ≤ 'Z' then c.toNat - 'A'.toNat + 10
    else base
  if n < base then some n else none

/-- The number that digits of a base write; none if there is no digit or another character. -/
private def natIn? (base : Nat) (text : List Char) : Option Nat :=
  if text.isEmpty then none
  else text.foldl (fun n? c => n?.bind fun n => (digitIn? base c).map (n * base + ·)) (some 0)

private def dropSign : List Char → List Char
  | '+' :: rest | '-' :: rest => rest
  | text => text

/-- Digits after a zero are no number. -/
private def hasLeadingZero (text : List Char) : Bool :=
  match dropSign text with
  | '0' :: d :: rest => (d :: rest).all isDigit
  | _ => false

/-- A number without its sign, in one of four bases. -/
private def magnitude? (text : List Char) : Option Nat :=
  match text with
  | '0' :: 'x' :: rest => natIn? 16 rest
  | '0' :: 'o' :: rest => natIn? 8 rest
  | '0' :: 'b' :: rest => natIn? 2 rest
  | _ => if hasLeadingZero text then none else natIn? 10 text

/-- An integer of 64 bits without a sign or with a plus sign. -/
private def unsigned? (text : List Char) : Option Nat :=
  let digits := match text with
    | '+' :: rest => rest
    | _ => text
  (magnitude? digits).bind fun n => if n < Nat.pow 2 64 then some n else none

/-- An integer of at most 128 bits. -/
private def int? (text : List Char) : Option Int :=
  match text with
  | '-' :: rest => (magnitude? rest).bind fun n => if n ≤ Nat.pow 2 127 then some (-(n : Int)) else none
  | '+' :: rest => (magnitude? rest).bind fun n => if n < Nat.pow 2 128 then some (n : Int) else none
  | _ => (magnitude? text).bind fun n => if n < Nat.pow 2 128 then some (n : Int) else none

/-- The exponent after a mantissa, if there is nothing else. -/
private def exponent? (text : List Char) : Option Int :=
  match text with
  | [] => some 0
  | e :: rest =>
    if e = 'e' ∨ e = 'E' then
      match rest with
      | '-' :: digits => (natIn? 10 digits).map fun n => -(n : Int)
      | '+' :: digits => (natIn? 10 digits).map fun n => (n : Int)
      | digits => (natIn? 10 digits).map fun n => (n : Int)
    else none

/-- A finite decimal number; digits may be missing on one side of the point. -/
private def float? (text : List Char) : Option Binary64 :=
  let (negative, body) := match text with
    | '-' :: rest => (true, rest)
    | '+' :: rest => (false, rest)
    | _ => (false, text)
  let whole := body.takeWhile isDigit
  let (fraction, rest) := match body.dropWhile isDigit with
    | '.' :: rest => (rest.takeWhile isDigit, rest.dropWhile isDigit)
    | rest => ([], rest)
  (natIn? 10 (whole ++ fraction)).bind fun digits =>
    (exponent? rest).bind fun e => Binary64.ofDecimal? negative digits (e - fraction.length)

private def isNullWord (text : String) : Bool :=
  ["~", "null", "Null", "NULL"].contains text

private def isNull (text : String) : Bool :=
  text.isEmpty || isNullWord text

private def bool? (text : String) : Option Bool :=
  if ["true", "True", "TRUE"].contains text then some true
  else if ["false", "False", "FALSE"].contains text then some false
  else none

private def isNotFinite (text : String) : Bool :=
  [".inf", ".Inf", ".INF", "+.inf", "+.Inf", "+.INF", "-.inf", "-.Inf", "-.INF", ".nan", ".NaN",
    ".NAN"].contains text

/-- A floating-point number, or what is not finite. -/
private def floatScalar? (text : String) : Option Scalar :=
  if isNotFinite text then some .notFinite
  else (float? text.toList).map fun x => .number (.float x)

/-- An integer of 64 bits is a number. A longer one has no type of its own, which the empty option inside
says. -/
private def intScalar? (text : String) : Option (Option Scalar) :=
  (int? text.toList).map fun n =>
    if -(Int.pow 2 63) ≤ n ∧ n < Int.pow 2 64 then some (.number (.int n)) else none

/-- The value of a plain scalar by itself; none for an integer that is too long. -/
def plainScalar? (text : String) : Option Scalar :=
  if isNull text then some .null
  else match bool? text with
  | some b => some (.bool b)
  | none =>
    match intScalar? text with
    | some scalar? => scalar?
    | none =>
      if hasLeadingZero text.toList then some (.string text)
      else some ((floatScalar? text).getD (.string text))

/-! ### Scalars -/

/-- The value of a scalar by itself. A standard tag decides in every style. -/
private def valueOf? (text : String) (style : Style) (tag : Option Tag) : Option Scalar :=
  match tag with
  | some .bool => (bool? text).map .bool
  | some .int => (intScalar? text).join
  | some .float => floatScalar? text
  | some .null => if isNullWord text then some .null else none
  | some (.own true) => none
  | some .other => some (.string text)
  | some (.own false) | none =>
    if style = .plain then plainScalar? text else some (.string text)

/-- Whether a scalar is absent where a value may be absent. -/
private def absent? (text : String) (style : Style) (tag : Option Tag) : Option Bool :=
  match style, tag with
  | .plain, some .null => if isNullWord text then some true else none
  | .plain, none => some (isNull text)
  | _, _ => some false

private def count? (text : String) (style : Style) (tag : Option Tag) : Option Nat :=
  if style = .plain || (style = .literal && tag = some .int) then unsigned? text.toList else none

private def openScalar (text : String) (style : Style) (tag : Option Tag) : OpenScalar :=
  ⟨text, valueOf? text style tag, count? text style tag, absent? text style tag,
    style = .plain && text.isEmpty⟩

/-! ### Nodes -/

/-- A walk through the parts that are looked at. It may follow so many aliases more. -/
private abbrev Walk := StateT Nat (Except String)

namespace Node

/-- A node, or what it stands for. -/
private def target (anchors : List (Nat × Node)) : Node → Walk Node
  | .alias number => do
    match ← get, anchors.lookup number with
    | left + 1, some node => set left; return node
    | 0, _ => throw "repetition limit exceeded"
    | _, none => throw "unknown anchor"
  | node => return node

/-- The text of a key and whether it is a string by itself. -/
private def keyText (anchors : List (Nat × Node)) (key : Node) : Walk (String × Bool) := do
  match ← key.target anchors with
  | .scalar text style p =>
    return (text, (valueOf? text style p.tag).any fun value => value matches .string _)
  | _ => throw "invalid type: expected a string"

private def under (p : Properties) (d : Document) : Document :=
  if Tag.isNamedOwn p.tag then .typeless d else d

/-- The document of a node. Where it is looked at there are at most `depth` collections inside each
other, and no collections are keys. -/
private def walk (anchors : List (Nat × Node)) (depth : Nat) (reach : Reach) (node : Node) :
    Walk Document := do
  if reach matches .nothing then return .unfit
  match ← node.target anchors, depth with
  | .scalar text style p, _ => return .openScalar (openScalar text style p.tag)
  | .sequence items p, depth + 1 =>
    return under p (.array (← items.mapM (walk anchors depth reach.inItem)))
  | .mapping entries p, depth + 1 =>
    let read ← entries.mapM fun (key, value) => do
      let (text, isString) ← keyText anchors key
      return (isString, text, ← walk anchors depth (reach.underKey text) value)
    let d := Document.object (read.map Prod.snd)
    return under p (if read.all Prod.fst then d else .typeless d)
  | .alias _, _ | .sequence _ _, 0 | .mapping _ _, 0 => throw "recursion limit exceeded"

end Node

/-- The greatest number of collections inside each other. -/
def maxDepth : Nat := 128

/-- How many aliases may be followed for every node. -/
def maxRepetition : Nat := 100

/-- Read a text with at most one document, of which only some parts are looked at. A text without one reads
as an empty plain scalar. -/
def read (reach : Reach) (text : String) : Except String Document := do
  let root := (← Node.ofTokens (← tokens text.toList)).getD .blank
  (root.walk root.anchored.reverse maxDepth reach).run' (maxRepetition * root.size)

end Stepwise.Yaml
