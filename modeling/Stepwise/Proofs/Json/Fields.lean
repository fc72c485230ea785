import Mathlib.Data.Fintype.EquivFin
import Stepwise.Json.Merge

/-! Fields seen through their lookups. Sorted fields with the same lookups are the same list, so an
equation between canonical objects is proved one key at a time. A merge is known by what it answers for
each key, and a proof about values descends from an object to what its lookups find. -/
namespace Stepwise.Json

/-- An object, of whatever fields. -/
def isObject : Json → Bool
  | .object _ => true
  | _ => false

theorem exists_fields_of_isObject {v : Json} (h : v.isObject = true) : ∃ fields, v = .object fields := by
  cases v with
  | object fields => exact ⟨fields, rfl⟩
  | null | bool | number | string | array => simp [isObject] at h

/-! ### Lookups -/

theorem lookup_cons_of_ne {key k : String} (v : Json) (rest : Fields) (h : key ≠ k) :
    List.lookup key ((k, v) :: rest) = rest.lookup key := by
  rw [List.lookup_cons, beq_eq_false_iff_ne.mpr h]

theorem lookup_singleton_eq_some {key k : String} {v w : Json}
    (h : List.lookup key [(k, v)] = some w) : key = k ∧ v = w := by
  have hMem := mem_of_lookup h
  rw [List.mem_singleton, Prod.mk.injEq] at hMem
  exact ⟨hMem.1, hMem.2.symm⟩

theorem lookup_insertField_self (key : String) (value : Json) (fields : Fields) :
    (insertField key value fields).lookup key = some value := by
  induction fields with
  | nil => simp [insertField]
  | cons f rest ih =>
      obtain ⟨k, v⟩ := f
      unfold insertField
      split_ifs with hBelow hSame
      · simp
      · simp
      · rw [lookup_cons_of_ne v _ hSame, ih]

theorem lookup_insertField_of_ne {key other : String} (value : Json) (fields : Fields)
    (h : other ≠ key) : (insertField key value fields).lookup other = fields.lookup other := by
  induction fields with
  | nil => simp [insertField, h]
  | cons f rest ih =>
      obtain ⟨k, v⟩ := f
      unfold insertField
      split_ifs with hBelow hSame
      · rw [lookup_cons_of_ne value _ h]
      · subst hSame
        rw [lookup_cons_of_ne value _ h, lookup_cons_of_ne v _ h]
      · simp only [List.lookup_cons, ih]

theorem Canonical.sorted {fields : Fields} (h : Canonical (.object fields)) :
    fields.Pairwise (fun f g => f.1 < g.1) := by
  cases h with
  | object sorted _ => exact sorted

/-- No later field has the key of the first. -/
theorem lookup_tail_eq_none {key : String} {value : Json} {rest : Fields}
    (sorted : ((key, value) :: rest).Pairwise (fun f g => f.1 < g.1)) : rest.lookup key = none := by
  rw [List.lookup_eq_none_iff]
  intro g hg
  have hLess : key < g.1 := (List.pairwise_cons.mp sorted).1 g hg
  rw [bne_iff_ne]
  intro hEq
  exact String.lt_irrefl _ (hEq ▸ hLess)

theorem lookup_of_mem {fields : Fields} (sorted : fields.Pairwise (fun f g => f.1 < g.1))
    {f : String × Json} (h : f ∈ fields) : fields.lookup f.1 = some f.2 := by
  induction fields with
  | nil => cases h
  | cons g rest ih =>
      obtain ⟨hLess, hRest⟩ := List.pairwise_cons.mp sorted
      rcases List.mem_cons.mp h with rfl | hMem
      · exact List.lookup_cons_self
      · have hNe : f.1 ≠ g.1 := fun hEq => String.lt_irrefl _ (hEq ▸ hLess f hMem)
        rw [lookup_cons_of_ne g.2 rest hNe, ih hRest hMem]

theorem nodup_keys {fields : Fields} (sorted : fields.Pairwise (fun f g => f.1 < g.1)) :
    (fields.map Prod.fst).Nodup :=
  List.pairwise_map.mpr (sorted.imp fun {f g} (hLess : f.1 < g.1) (hEq : f.1 = g.1) =>
    String.lt_irrefl g.1 (hEq ▸ hLess))

theorem mem_keys_iff {fields : Fields} {key : String} :
    key ∈ fields.map Prod.fst ↔ (fields.lookup key).isSome = true := by
  simp [List.lookup_isSome_iff]

/-- Two sorted lists of fields with the same lookups start with the same key: the smaller of two
different first keys would be missing on the other side. -/
private theorem first_key_eq {k l : String} {v w : Json} {a b : Fields}
    (ha : ((k, v) :: a).Pairwise (fun f g => f.1 < g.1))
    (hb : ((l, w) :: b).Pairwise (fun f g => f.1 < g.1))
    (h : ∀ key, List.lookup key ((k, v) :: a) = List.lookup key ((l, w) :: b)) : k = l := by
  have hFirst : (k, v) ∈ (l, w) :: b := mem_of_lookup (by rw [← h k, List.lookup_cons_self])
  have hSecond : (l, w) ∈ (k, v) :: a := mem_of_lookup (by rw [h l, List.lookup_cons_self])
  rcases List.mem_cons.mp hFirst with hEq | hIn
  · exact congrArg Prod.fst hEq
  · rcases List.mem_cons.mp hSecond with hEq | hBack
    · exact (congrArg Prod.fst hEq).symm
    · have hLess : l < k := (List.pairwise_cons.mp hb).1 _ hIn
      have hMore : k < l := (List.pairwise_cons.mp ha).1 _ hBack
      exact absurd (String.lt_trans hLess hMore) (String.lt_irrefl _)

/-- Sorted fields are determined by their lookups. -/
theorem eq_of_lookup_eq {a b : Fields} (ha : a.Pairwise (fun f g => f.1 < g.1))
    (hb : b.Pairwise (fun f g => f.1 < g.1)) (h : ∀ key, a.lookup key = b.lookup key) : a = b := by
  induction a generalizing b with
  | nil =>
      cases b with
      | nil => rfl
      | cons g b =>
          have hHead := h g.1
          rw [List.lookup_nil, List.lookup_cons_self] at hHead
          cases hHead
  | cons f a ih =>
      obtain ⟨k, v⟩ := f
      cases b with
      | nil =>
          have hHead := h k
          rw [List.lookup_nil, List.lookup_cons_self] at hHead
          cases hHead
      | cons g b =>
          obtain ⟨l, w⟩ := g
          have hKey := first_key_eq ha hb h
          subst hKey
          have hHead := h k
          rw [List.lookup_cons_self, List.lookup_cons_self] at hHead
          have hTail : a = b := by
            refine ih (List.pairwise_cons.mp ha).2 (List.pairwise_cons.mp hb).2 fun key => ?_
            by_cases hFirst : key = k
            · rw [hFirst, lookup_tail_eq_none ha, lookup_tail_eq_none hb]
            · have hNext := h key
              rwa [lookup_cons_of_ne v a hFirst, lookup_cons_of_ne w b hFirst] at hNext
          rw [hTail, Option.some.inj hHead]

/-! ### Merges -/

theorem updated_none (value : Json) : updated none value = value := by
  cases value <;> rfl

theorem updated_of_plain (existing : Option Json) {value : Json} (h : value.isObject = false) :
    updated existing value = value := by
  cases value with
  | object fields => simp [isObject] at h
  | null | bool | number | string | array => rfl

theorem updated_object_object (fields update : Fields) :
    updated (some (.object fields)) (.object update) = .object (mergeFields fields update) := rfl

theorem updated_plain_object {existing : Json} (h : existing.isObject = false) (update : Fields) :
    updated (some existing) (.object update) = .object update := by
  cases existing with
  | object fields => simp [isObject] at h
  | null | bool | number | string | array => rfl

/-- What a merge holds under a key. -/
theorem lookup_mergeFields (base : Fields) {update : Fields}
    (sorted : update.Pairwise (fun f g => f.1 < g.1)) (key : String) :
    (mergeFields base update).lookup key =
      match update.lookup key with
      | none => base.lookup key
      | some value => some (updated (base.lookup key) value) := by
  induction update generalizing base with
  | nil => rfl
  | cons f rest ih =>
      obtain ⟨k, v⟩ := f
      rw [mergeFields, ih _ (List.pairwise_cons.mp sorted).2]
      by_cases hKey : key = k
      · subst hKey
        rw [lookup_tail_eq_none sorted, List.lookup_cons_self]
        exact lookup_insertField_self ..
      · rw [lookup_cons_of_ne v rest hKey, lookup_insertField_of_ne _ _ hKey]

theorem lookup_mergeFields_of_none (base : Fields) {update : Fields} {key : String}
    (sorted : update.Pairwise (fun f g => f.1 < g.1)) (h : update.lookup key = none) :
    (mergeFields base update).lookup key = base.lookup key := by
  rw [lookup_mergeFields base sorted key, h]

theorem lookup_mergeFields_of_some {base update : Fields} {key : String} {value : Json}
    (sorted : update.Pairwise (fun f g => f.1 < g.1)) (h : update.lookup key = some value) :
    (mergeFields base update).lookup key = some (updated (base.lookup key) value) := by
  rw [lookup_mergeFields base sorted key, h]

theorem Canonical.mergeFields {base update : Fields} (hBase : Canonical (.object base))
    (hUpdate : Canonical (.object update)) : Canonical (.object (mergeFields base update)) := by
  cases hUpdate with
  | object _ each => exact canonical_mergeFields hBase update each

theorem mergeFields_nil_left {f : Fields} (hf : Canonical (.object f)) : mergeFields [] f = f := by
  have hNil : Canonical (.object []) := .object .nil nofun
  refine eq_of_lookup_eq (hNil.mergeFields hf).sorted hf.sorted fun key => ?_
  rw [lookup_mergeFields _ hf.sorted]
  cases f.lookup key with
  | none => rfl
  | some v => exact congrArg some (updated_none v)

/-- An object updates fields, whatever it is put onto: those of an object, and none otherwise. -/
theorem exists_base (existing : Option Json) (h : ∀ b, existing = some b → b.Canonical) :
    ∃ base, Canonical (.object base) ∧ ∀ update, Canonical (.object update) →
      updated existing (.object update) = .object (mergeFields base update) := by
  have hNil : Canonical (.object []) := .object .nil nofun
  cases existing with
  | none =>
      refine ⟨[], hNil, fun update hUpdate => ?_⟩
      rw [updated_none, mergeFields_nil_left hUpdate]
  | some b =>
      cases hb : b.isObject with
      | false =>
          refine ⟨[], hNil, fun update hUpdate => ?_⟩
          rw [updated_plain_object hb, mergeFields_nil_left hUpdate]
      | true =>
          obtain ⟨base, rfl⟩ := exists_fields_of_isObject hb
          exact ⟨base, h _ rfl, fun update _ => updated_object_object base update⟩

/-! ### Descent -/

theorem sizeOf_lt_of_lookup {fields : Fields} {key : String} {value : Json}
    (h : fields.lookup key = some value) : sizeOf value < sizeOf (Json.object fields) := by
  have hSize := List.sizeOf_lt_of_mem (mem_of_lookup h)
  simp only [Prod.mk.sizeOf_spec, object.sizeOf_spec] at hSize ⊢
  omega

/-- To prove something of every value, prove it of what is no object, and of an object from what its
lookups find. -/
theorem descend {motive : Json → Prop} (plain : ∀ v, v.isObject = false → motive v)
    (object : ∀ fields, (∀ key v, fields.lookup key = some v → motive v) → motive (.object fields))
    (v : Json) : motive v := by
  cases hv : v.isObject with
  | false => exact plain v hv
  | true =>
      obtain ⟨fields, rfl⟩ := exists_fields_of_isObject hv
      exact object fields fun key w hw => descend plain object w
termination_by sizeOf v
decreasing_by
  subst_vars
  exact sizeOf_lt_of_lookup hw

/-- Finitely many fields leave a key free. -/
theorem exists_lookup_eq_none (fields : Fields) : ∃ key, fields.lookup key = none := by
  obtain ⟨key, hKey⟩ := Infinite.exists_notMem_finset (fields.map Prod.fst).toFinset
  refine ⟨key, List.lookup_eq_none_iff.mpr fun f hf => bne_iff_ne.mpr fun hEq => hKey ?_⟩
  rw [List.mem_toFinset, hEq]
  exact List.mem_map_of_mem hf

theorem canonical_singleton (key : String) {value : Json} (h : value.Canonical) :
    Canonical (.object [(key, value)]) := by
  refine .object (List.pairwise_singleton _ _) fun f hf => ?_
  rw [List.mem_singleton] at hf
  rw [hf]
  exact h

end Stepwise.Json

/-! ### Objects -/

namespace Stepwise

theorem Object.get?_insert_self (o : Object) (key : String) (value : Value) :
    (o.insert key value).get? key = some value.json :=
  Json.lookup_insertField_self key value.json o.fields

theorem Object.get?_insert_of_ne (o : Object) {key other : String} (value : Value) (h : other ≠ key) :
    (o.insert key value).get? other = o.get? other :=
  Json.lookup_insertField_of_ne value.json o.fields h

theorem Object.get?_insert (o : Object) (key other : String) (value : Value) :
    (o.insert key value).get? other = if other = key then some value.json else o.get? other := by
  split_ifs with hSame
  · rw [hSame, get?_insert_self]
  · exact o.get?_insert_of_ne value hSame

theorem Object.get?_empty (key : String) : empty.get? key = none := rfl

theorem Object.map_json_value? (o : Object) (key : String) : (o.value? key).map Value.json = o.get? key := by
  unfold value? get?
  split <;> rename_i h <;> exact h.symm

/-- An object that is listed with different keys has what the list has. -/
theorem Object.get?_ofList {fields : List (String × Value)} (hKeys : (fields.map Prod.fst).Nodup) (key : String) :
    (ofList fields).get? key = (fields.lookup key).map Value.json := by
  have hFold : ∀ o : Object, (fields.foldl (fun o f => o.insert f.1 f.2) o).get? key =
      ((fields.lookup key).map Value.json).or (o.get? key) := by
    induction fields with
    | nil => exact fun o => rfl
    | cons f rest ih =>
        obtain ⟨hOther, hRest⟩ := List.nodup_cons.mp hKeys
        intro o
        rw [List.foldl_cons, ih hRest, get?_insert, List.lookup_cons]
        by_cases hSame : key = f.1
        · have hAbsent : rest.lookup key = none := List.lookup_eq_none_iff.mpr fun g hg => by
            rw [bne_iff_ne, hSame]
            exact fun h => hOther (h ▸ List.mem_map_of_mem hg)
          rw [if_pos hSame, hAbsent, hSame, beq_self_eq_true]
          rfl
        · rw [if_neg hSame, beq_eq_false_iff_ne.mpr hSame]
  rw [ofList, hFold, get?_empty, Option.or_none]

/-- A record is an object as it is. -/
theorem Value.object?_object (o : Object) : (Value.object o).object? = some o := rfl

end Stepwise
