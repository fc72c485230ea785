import Stepwise.Binary64.Basic

/-!
JSON values. An object is a list of fields; in a canonical value the keys of every object increase, so
that two canonical values are equal exactly when they hold the same data. `Value` and `Object` carry
that fact in their types. Keys are ordered by code points.
-/

namespace Stepwise

/-- An integer or a binary floating-point number; `1` and `1.0` are different numbers. -/
inductive Number where
  | int (value : Int)
  | float (value : Binary64)
deriving DecidableEq

inductive Json where
  | null
  | bool (value : Bool)
  | number (value : Number)
  | string (value : String)
  | array (items : List Json)
  | object (fields : List (String × Json))
deriving Inhabited

namespace Json

abbrev Fields := List (String × Json)

/-- The keys of every object in the value increase. -/
inductive Canonical : Json → Prop where
  | null : Canonical .null
  | bool (b : Bool) : Canonical (.bool b)
  | number (n : Number) : Canonical (.number n)
  | string (s : String) : Canonical (.string s)
  | array {items : List Json} (each : ∀ x ∈ items, Canonical x) : Canonical (.array items)
  | object {fields : Fields} (sorted : fields.Pairwise (fun f g => f.1 < g.1))
      (each : ∀ f ∈ fields, Canonical f.2) : Canonical (.object fields)

/-- Set a key in a list of fields: replace its value, or enter it before the first greater key. -/
def insertField (key : String) (value : Json) : Fields → Fields
  | [] => [(key, value)]
  | (k, v) :: rest =>
    if key < k then (key, value) :: (k, v) :: rest
    else if key = k then (key, value) :: rest
    else (k, v) :: insertField key value rest

theorem mem_insertField {key : String} {value : Json} {fields : Fields} {f : String × Json}
    (h : f ∈ insertField key value fields) : f = (key, value) ∨ f ∈ fields := by
  induction fields with
  | nil => simpa [insertField] using h
  | cons g rest ih =>
    obtain ⟨k, v⟩ := g
    unfold insertField at h
    split at h
    · simpa using h
    · split at h
      · rcases List.mem_cons.1 h with h | h
        · exact .inl h
        · exact .inr (List.mem_cons_of_mem _ h)
      · rcases List.mem_cons.1 h with h | h
        · exact .inr (h ▸ List.mem_cons_self)
        · rcases ih h with h | h
          · exact .inl h
          · exact .inr (List.mem_cons_of_mem _ h)

theorem sorted_insertField {key : String} {value : Json} {fields : Fields}
    (sorted : fields.Pairwise (fun f g => f.1 < g.1)) :
    (insertField key value fields).Pairwise (fun f g => f.1 < g.1) := by
  induction fields with
  | nil => simp [insertField]
  | cons g rest ih =>
    obtain ⟨k, v⟩ := g
    rw [List.pairwise_cons] at sorted
    unfold insertField
    split
    · rename_i below
      refine List.pairwise_cons.2 ⟨?_, List.pairwise_cons.2 sorted⟩
      intro f hf
      rcases List.mem_cons.1 hf with rfl | hf
      · exact below
      · exact String.lt_trans below (sorted.1 f hf)
    · split
      · rename_i same
        exact List.pairwise_cons.2 ⟨fun f hf => same ▸ sorted.1 f hf, sorted.2⟩
      · rename_i notBelow notSame
        refine List.pairwise_cons.2 ⟨?_, ih sorted.2⟩
        intro f hf
        rcases mem_insertField hf with rfl | hf
        · have : k ≤ key := String.not_lt.1 notBelow
          exact String.not_le.1 fun h => notSame (String.le_antisymm h this)
        · exact sorted.1 f hf

/-- Setting a key keeps the keys increasing. -/
theorem Canonical.insertField {key : String} {value : Json} {fields : Fields}
    (hFields : Canonical (.object fields)) (hValue : value.Canonical) :
    Canonical (.object (insertField key value fields)) := by
  cases hFields with
  | object sorted each =>
    refine .object (sorted_insertField sorted) fun f hf => ?_
    rcases mem_insertField hf with rfl | hf
    · exact hValue
    · exact each f hf

theorem mem_of_lookup {key : String} {value : Json} {fields : Fields}
    (h : fields.lookup key = some value) : (key, value) ∈ fields := by
  induction fields with
  | nil => simp at h
  | cons f rest ih =>
    obtain ⟨k, v⟩ := f
    rw [List.lookup_cons] at h
    by_cases hk : key = k
    · subst hk
      simp at h
      simp [h]
    · rw [beq_eq_false_iff_ne.2 hk] at h
      exact List.mem_cons_of_mem _ (ih h)

/-- A field of a canonical object is canonical. -/
theorem Canonical.lookup {key : String} {value : Json} {fields : Fields}
    (hFields : Canonical (.object fields)) (h : fields.lookup key = some value) :
    value.Canonical := by
  cases hFields with
  | object _ each => exact each _ (mem_of_lookup h)

/-- Follow keys down through objects; none if one is missing or a value on the way is no object. -/
def walk? : List String → Json → Option Json
  | [], value => some value
  | key :: rest, .object fields => (fields.lookup key).bind (walk? rest)
  | _ :: _, _ => none

def string? : Json → Option String
  | .string s => some s
  | _ => none

/-- A number that counts something: a non-negative integer. -/
def count? : Json → Option Nat
  | .number (.int n) => n.toNat?
  | _ => none

end Json

/-- A JSON value in canonical form. -/
structure Value where
  json : Json
  canonical : json.Canonical

/-- A JSON object in canonical form: a namespace of the state, a log record, the parameters of a step. -/
@[ext]
structure Object where
  fields : Json.Fields
  canonical : (Json.object fields).Canonical

namespace Value

def null : Value := ⟨.null, .null⟩

def bool (b : Bool) : Value := ⟨.bool b, .bool b⟩

def string (s : String) : Value := ⟨.string s, .string s⟩

def int (n : Int) : Value := ⟨.number (.int n), .number _⟩

def nat (n : Nat) : Value := int n

def array (items : List Value) : Value :=
  ⟨.array (items.map Value.json), .array fun x hx => by
    obtain ⟨v, _, rfl⟩ := List.mem_map.1 hx
    exact v.canonical⟩

def object (o : Object) : Value := ⟨.object o.fields, o.canonical⟩

instance : Inhabited Value := ⟨null⟩

end Value

namespace Object

def empty : Object := ⟨[], .object List.Pairwise.nil (by simp)⟩

instance : Inhabited Object := ⟨empty⟩

def get? (o : Object) (key : String) : Option Json :=
  o.fields.lookup key

/-- Look a key up, keeping that its value is canonical. -/
def value? (o : Object) (key : String) : Option Value :=
  match h : o.fields.lookup key with
  | some v => some ⟨v, o.canonical.lookup h⟩
  | none => none

def insert (o : Object) (key : String) (value : Value) : Object :=
  ⟨Json.insertField key value.json o.fields, o.canonical.insertField value.canonical⟩

def isEmpty (o : Object) : Bool :=
  o.fields.isEmpty

def size (o : Object) : Nat :=
  o.fields.length

def toJson (o : Object) : Json :=
  .object o.fields

/-- The object with the given fields; a key given twice has its last value. -/
def ofList (fields : List (String × Value)) : Object :=
  fields.foldl (fun o f => o.insert f.1 f.2) empty

end Object

/-- The fields of an object, and none of any other value. -/
def Value.object? (v : Value) : Option Object :=
  match h : v.json with
  | .object fields => some ⟨fields, h ▸ v.canonical⟩
  | _ => none

end Stepwise
