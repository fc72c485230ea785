import Stepwise.Document.Basic
import Stepwise.Document.Reach
import Stepwise.Json.Printer
import Stepwise.Text.Quoted

/-!
Fitting documents to types. How a document fails to fit is a `Misfit`. The first problem in the order of the
document is reported, and missing fields after that.
-/

namespace Stepwise

/-- Which kind of thing was found where another was expected. -/
inductive Found where
  | null
  | bool (value : Bool)
  | number (value : Number)
  | string (value : String)
  | notFinite
  | sequence
  | map
  | unfit

def Found.describe : Found → String
  | .null => "null"
  | .bool b => s!"boolean \x60{b}\x60"
  | .number (.int n) => s!"integer \x60{n}\x60"
  | .number (.float x) => s!"floating point \x60{x.text}\x60"
  | .string s => s!"string {Text.quoted s}"
  | .notFinite => "floating point"
  | .sequence => "sequence"
  | .map => "map"
  | .unfit => "unreadable value"

/-- Why a document does not fit a type. -/
inductive Misfit where
  | wrongType (found : Found) (expected : String)
  | wrongValue (found : Found) (expected : String)
  | missingField (name : String)
  | duplicateField (name : String)
  | unknownVariant (name : String) (expected : List String)
  | wrongLength (length : Nat) (expected : String)

private def alternatives (names : List String) : String :=
  match names.map fun name => s!"\x60{name}\x60" with
  | [] => "there are no variants"
  | [a] => "expected " ++ a
  | [a, b] => s!"expected {a} or {b}"
  | several => "expected one of " ++ ", ".intercalate several

def Misfit.message : Misfit → String
  | .wrongType found expected => s!"invalid type: {found.describe}, expected {expected}"
  | .wrongValue found expected => s!"invalid value: {found.describe}, expected {expected}"
  | .missingField name => s!"missing field \x60{name}\x60"
  | .duplicateField name => s!"duplicate field \x60{name}\x60"
  | .unknownVariant name expected => s!"unknown variant \x60{name}\x60, {alternatives expected}"
  | .wrongLength length expected => s!"invalid length {length}, expected {expected}"

/-- How a structure may be written as the list of its fields. -/
inductive ListForm where
  | never
  /-- Without items after the last field. -/
  | exact
  /-- Without items after the last field; a message tells how many there may be. -/
  | counted
  /-- With items after the last field, which are passed over. -/
  | lax
deriving DecidableEq

/-- A number of elements. -/
def elements (n : Nat) : String :=
  if n = 1 then "1 element" else s!"{n} elements"

/-- What is wrong with a list of `length` items of which `read` are fields; none if nothing is. -/
def ListForm.surplus? (form : ListForm) (read length : Nat) : Option Misfit :=
  if length ≤ read then none
  else match form with
  | .lax => none
  | .counted => some (.wrongLength length s!"{elements read} in sequence")
  | .never | .exact => some (.wrongLength length "fewer elements in array")

namespace Document

def found : Document → Found
  | .scalar .null => .null
  | .scalar (.bool b) => .bool b
  | .scalar (.number n) => .number n
  | .scalar (.string s) => .string s
  | .scalar .notFinite => .notFinite
  | .openScalar s => .string s.text
  | .array _ => .sequence
  | .object _ => .map
  | .typeless inner => inner.found
  | .unfit => .unfit

def misfit {α : Type} (d : Document) (expected : String) : Except Misfit α :=
  .error (.wrongType d.found expected)

/-- A string; a scalar whose type is open is taken as it is spelled. -/
def text (d : Document) : Except Misfit String :=
  match d.shape with
  | .scalar (.string s) => .ok s
  | .openScalar s => .ok s.text
  | _ => d.misfit "a string"

def flag (d : Document) : Except Misfit Bool :=
  match d.shape with
  | .scalar (.bool b) => .ok b
  | _ => d.misfit "a boolean"

/-- A value that may be null. -/
def optional {α : Type} (fit : Document → Except Misfit α) (d : Document) :
    Except Misfit (Option α) :=
  match d.shape with
  | .scalar .null => .ok none
  | .openScalar s =>
    match s.absent? with
    | some true => .ok none
    | some false => (fit d).map some
    | none => d.misfit "null"
  | _ => (fit d).map some

/-- A non-negative integer; `type` is what a message calls it. -/
def count (type : String) (d : Document) : Except Misfit Nat :=
  match d.shape with
  | .scalar (.number (.int n)) =>
    match n.toNat? with
    | some size => .ok size
    | none => .error (.wrongValue (.number (.int n)) type)
  | .openScalar s =>
    match s.count? with
    | some size => .ok size
    | none => d.misfit type
  | _ => d.misfit type

/-- A list; an open scalar may stand for the empty one. -/
def list (d : Document) : Except Misfit (List Document) :=
  match d.shape with
  | .array items => .ok items
  | .openScalar s => if s.isBlank then .ok [] else d.misfit "a sequence"
  | _ => d.misfit "a sequence"

/-- The entries of a map; an open scalar may stand for the empty one. -/
def entries (d : Document) (expected : String) : Except Misfit (List (String × Document)) :=
  match d.shape with
  | .object entries => .ok entries
  | .openScalar s => if s.isBlank then .ok [] else d.misfit expected
  | _ => d.misfit expected

/-- An open namespace of JSON values. -/
def namespaceOf (d : Document) : Except Misfit Object :=
  (d.entries "a map").map objectOf

end Document

/-- A field of a structure: its name, another name it may be given, whether it must be there, what is
looked at in its value, and what to do with it. -/
structure Field (σ : Type) where
  name : String
  otherName : Option String
  required : Bool
  reach : Reach
  set : Document → σ → Except Misfit σ

namespace Field

variable {σ α : Type}

/-- A field that has a default. -/
def withDefault (name : String) (fit : Document → Except Misfit α) (put : σ → α → σ) : Field σ :=
  ⟨name, none, false, .everything, fun d s => (fit d).map (put s)⟩

/-- A field that must be there. -/
def needed (name : String) (fit : Document → Except Misfit α) (put : σ → α → σ) : Field σ :=
  { withDefault name fit put with required := true }

/-- A field with a second name. -/
def orNamed (f : Field σ) (name : String) : Field σ :=
  { f with otherName := some name }

/-- A field with a value that is not looked at everywhere. -/
def reaching (f : Field σ) (reach : Reach) : Field σ :=
  { f with reach }

/-- What is looked at in a structure with the given fields. -/
def reachOf (fields : List (Field σ)) : Reach :=
  .fields (fields.flatMap fun f => (f.name :: f.otherName.toList).map fun name => (name, f.reach))

def answersTo (f : Field σ) (key : String) : Bool :=
  f.name == key || f.otherName == some key

/-- Set the fields of a structure from entries in order; entries of no field are passed over. `seen`
holds the names already set. -/
def setEntries (fields : List (Field σ)) (seen : List String) (s : σ) :
    List (String × Document) → Except Misfit (σ × List String)
  | [] => .ok (s, seen)
  | (key, d) :: rest =>
    match fields.find? (answersTo · key) with
    | none => setEntries fields seen s rest
    | some f =>
      if seen.contains f.name then
        .error (.duplicateField f.name)
      else
        match f.set d s with
        | .ok s => setEntries fields (f.name :: seen) s rest
        | .error misfit => .error misfit

/-- Set the fields of a structure from a list; `read` counts the items before. -/
def setItems (form : ListForm) (expected : String) (read : Nat) (s : σ) :
    List (Field σ) → List Document → Except Misfit σ
  | [], rest =>
    match form.surplus? read (read + rest.length) with
    | some misfit => .error misfit
    | none => .ok s
  | f :: fields, [] =>
    if f.required then .error (.wrongLength read expected)
    else setItems form expected read s fields []
  | f :: fields, d :: rest =>
    match f.set d s with
    | .ok s => setItems form expected (read + 1) s fields rest
    | .error misfit => .error misfit

end Field

/-- Fit a document to a structure, given its fields and their defaults. -/
def Document.toStructure {σ : Type} (form : ListForm) (name : String) (fields : List (Field σ))
    (defaults : σ) (d : Document) : Except Misfit σ :=
  match d.shape, form with
  | .array _, .never => d.misfit name
  | .array items, form =>
    Field.setItems form s!"{name} with {elements fields.length}" 0 defaults fields items
  | _, _ => do
    let entries ← d.entries name
    let (s, seen) ← Field.setEntries fields [] defaults entries
    match fields.find? fun f => f.required && !seen.contains f.name with
    | some f => throw (.missingField f.name)
    | none => return s

end Stepwise
