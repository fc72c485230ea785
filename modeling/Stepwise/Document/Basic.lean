import Stepwise.Json.Basic

/-!
Documents: what a text notation says before it is fitted to a type. Entries keep the order of the text
and may repeat a key. Some notations leave the type of a scalar open; such a scalar says what it is to each
type that may be asked for.
-/

namespace Stepwise

inductive Scalar where
  | null
  | bool (value : Bool)
  | number (value : Number)
  | string (value : String)
  /-- An infinity or no number at all; JSON has null in its place. -/
  | notFinite
deriving DecidableEq

def Scalar.toJson : Scalar → Json
  | .null | .notFinite => .null
  | .bool b => .bool b
  | .number n => .number n
  | .string s => .string s

theorem Scalar.canonical_toJson (s : Scalar) : s.toJson.Canonical := by
  cases s <;> constructor

/-- A scalar whose type is chosen by whoever reads it. -/
structure OpenScalar where
  /-- What it is where a string is asked for. -/
  text : String
  /-- What it is by itself; none if that is no JSON value. -/
  value? : Option Scalar
  /-- What it is where a non-negative integer is asked for. -/
  count? : Option Nat
  /-- Whether it is absent where a value may be absent; none if it cannot stand there. -/
  absent? : Option Bool
  /-- Whether it is an empty collection where a collection is asked for. -/
  isBlank : Bool
deriving DecidableEq

inductive Document where
  | scalar (value : Scalar)
  | openScalar (value : OpenScalar)
  | array (items : List Document)
  | object (entries : List (String × Document))
  /-- A document that fits types but is no JSON value by itself, say because a key is a number. -/
  | typeless (inner : Document)
  /-- A document that fits no type and may stand only where nothing is read. -/
  | unfit

namespace Document

instance : Inhabited Document := ⟨.scalar .null⟩

def null : Document := .scalar .null

def string (s : String) : Document := .scalar (.string s)

def number (n : Number) : Document := .scalar (.number n)

mutual

/-- The JSON value of a document. A key given twice has its last value. -/
def toJson : Document → Json
  | .scalar value => value.toJson
  | .openScalar s => (s.value?.getD .null).toJson
  | .array items => .array (itemsToJson items)
  | .object entries => .object (addEntries [] entries)
  | .typeless inner => inner.toJson
  | .unfit => .null

def itemsToJson : List Document → List Json
  | [] => []
  | d :: rest => d.toJson :: itemsToJson rest

def addEntries (fields : Json.Fields) : List (String × Document) → Json.Fields
  | [] => fields
  | (key, d) :: rest => addEntries (Json.insertField key d.toJson fields) rest

end

mutual

theorem canonical_toJson : (d : Document) → d.toJson.Canonical
  | .scalar value => by
    rw [toJson]
    exact value.canonical_toJson
  | .openScalar s => by
    rw [toJson]
    exact (s.value?.getD .null).canonical_toJson
  | .array items => by
    rw [toJson]
    exact .array (canonical_itemsToJson items)
  | .object entries => by
    rw [toJson]
    exact canonical_addEntries [] entries (.object .nil (by simp))
  | .typeless inner => by
    rw [toJson]
    exact canonical_toJson inner
  | .unfit => by
    rw [toJson]
    exact .null

theorem canonical_itemsToJson : (items : List Document) → ∀ x ∈ itemsToJson items, x.Canonical
  | [] => by simp [itemsToJson]
  | d :: rest => by
    intro x hx
    rw [itemsToJson] at hx
    rcases List.mem_cons.1 hx with rfl | hx
    · exact canonical_toJson d
    · exact canonical_itemsToJson rest x hx

theorem canonical_addEntries (fields : Json.Fields) : (entries : List (String × Document)) →
    (Json.object fields).Canonical → (Json.object (addEntries fields entries)).Canonical
  | [] => by
    intro h
    rw [addEntries]
    exact h
  | (key, d) :: rest => by
    intro h
    rw [addEntries]
    exact canonical_addEntries _ rest (h.insertField (canonical_toJson d))

end

mutual

/-- Whether the document has a JSON value. -/
def isTyped : Document → Bool
  | .scalar _ => true
  | .openScalar s => s.value?.isSome
  | .array items => itemsTyped items
  | .object entries => entriesTyped entries
  | .typeless _ | .unfit => false

def itemsTyped : List Document → Bool
  | [] => true
  | d :: rest => d.isTyped && itemsTyped rest

def entriesTyped : List (String × Document) → Bool
  | [] => true
  | (_, d) :: rest => d.isTyped && entriesTyped rest

end

/-- What a document looks like when a type is given. -/
def shape : Document → Document
  | .typeless inner => inner.shape
  | d => d

/-- The canonical value of a document. -/
def toValue (d : Document) : Value :=
  ⟨d.toJson, d.canonical_toJson⟩

/-- The object with the given entries. -/
def objectOf (entries : List (String × Document)) : Object :=
  ⟨addEntries [] entries, canonical_addEntries [] entries (.object .nil (by simp))⟩

end Document

mutual

/-- A JSON value as a document; its entries are in the order of their keys. -/
def Json.toDocument : Json → Document
  | .null => .scalar .null
  | .bool b => .scalar (.bool b)
  | .number n => .scalar (.number n)
  | .string s => .scalar (.string s)
  | .array items => .array (Json.itemsToDocument items)
  | .object fields => .object (Json.fieldsToDocument fields)

def Json.itemsToDocument : List Json → List Document
  | [] => []
  | x :: rest => x.toDocument :: Json.itemsToDocument rest

def Json.fieldsToDocument : List (String × Json) → List (String × Document)
  | [] => []
  | (key, x) :: rest => (key, x.toDocument) :: Json.fieldsToDocument rest

end

end Stepwise
