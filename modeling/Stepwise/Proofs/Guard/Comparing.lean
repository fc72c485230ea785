import Mathlib.Data.List.Forall2
import Mathlib.Data.String.Basic
import Stepwise.Guard.Compare
import Stepwise.Proofs.Json.Fields

/-! The laws of comparing values. Two strings have an order, and so have two values that count as numbers;
equality agrees with it there. Into lists and objects only equality descends, and between objects it is
symmetric because no key is repeated. -/
namespace Stepwise

/-! ### Numbers -/

namespace Binary64

instance : Std.OrientedCmp order where
  eq_swap := Std.OrientedOrd.eq_swap

end Binary64

namespace Number

instance : Std.OrientedCmp order where
  eq_swap {x y} := by
    cases x <;> cases y <;> exact Std.OrientedOrd.eq_swap

end Number

/-! ### Values -/

namespace Json

def isString : Json → Bool
  | .string _ => true
  | _ => false

/-- A number or a boolean. -/
def isNumeric : Json → Bool
  | .number _ | .bool _ => true
  | _ => false

theorem exists_string {x : Json} (h : x.isString = true) : ∃ s, x = .string s := by
  cases x with
  | string s => exact ⟨s, rfl⟩
  | null | bool | number | array | object => cases h

end Json

namespace Guard

variable {x y : Json}

/-- Two strings, or two values that count as numbers. -/
def Comparable (x y : Json) : Prop :=
  (x.isString = true ∧ y.isString = true) ∨ (x.isNumeric = true ∧ y.isNumeric = true)

theorem isNumeric_iff : x.isNumeric = true ↔ ∃ n, numeric? x = some n := by
  cases x <;> simp [Json.isNumeric, numeric?]

theorem order?_numeric {m n : Number} (hx : numeric? x = some m) (hy : numeric? y = some n) :
    order? x y = some (m.order n) := by
  unfold order?
  split
  · cases hx
  · rw [hx, hy]

/-- Booleans are equal when the numbers that they count as are. -/
theorem equal_numeric {m n : Number} (hx : numeric? x = some m) (hy : numeric? y = some n) :
    equal x y = (m.order n == .eq) := by
  cases x with
  | number a =>
      cases hx
      cases y <;> cases hy <;> rw [equal]
  | bool a =>
      cases hx
      cases y with
      | number b =>
          cases hy
          rw [equal]
      | bool b =>
          cases hy
          cases a <;> cases b <;> rfl
      | null | string | array | object => cases hy
  | null | string | array | object => cases hx

/-- Between comparable values one order decides all the relations. -/
theorem Comparable.exists_order (h : Comparable x y) :
    ∃ o, order? x y = some o ∧ order? y x = some o.swap ∧ equal x y = (o == .eq) := by
  rcases h with ⟨hx, hy⟩ | ⟨hx, hy⟩
  · obtain ⟨s, rfl⟩ := Json.exists_string hx
    obtain ⟨t, rfl⟩ := Json.exists_string hy
    have hSwap : compare t s = (compare s t).swap := Std.OrientedOrd.eq_swap
    refine ⟨compare s t, rfl, congrArg some hSwap, ?_⟩
    rw [equal, Bool.eq_iff_iff, beq_iff_eq, beq_iff_eq, compare_eq_iff_eq]
  · obtain ⟨m, hm⟩ := isNumeric_iff.mp hx
    obtain ⟨n, hn⟩ := isNumeric_iff.mp hy
    have hSwap : n.order m = (m.order n).swap := Std.OrientedCmp.eq_swap
    exact ⟨m.order n, order?_numeric hm hn, hSwap ▸ order?_numeric hn hm, equal_numeric hm hn⟩

theorem Comparable.symm (h : Comparable x y) : Comparable y x :=
  h.imp And.symm And.symm

theorem order?_eq_none (h : ¬ Comparable x y) : order? x y = none := by
  unfold order?
  split
  · exact absurd (.inl ⟨rfl, rfl⟩) h
  · split
    · next hm hn => exact absurd (.inr ⟨isNumeric_iff.mpr ⟨_, hm⟩, isNumeric_iff.mpr ⟨_, hn⟩⟩) h
    · rfl

theorem Comparable.equal_comm (h : Comparable x y) : equal x y = equal y x := by
  obtain ⟨o, -, hBack, hEqual⟩ := h.exists_order
  obtain ⟨o', hOrder', -, hEqual'⟩ := h.symm.exists_order
  cases hOrder'.symm.trans hBack
  rw [hEqual, hEqual']
  cases o <;> rfl

/-! ### Lists and objects -/

theorem equalItems_iff {a b : List Json} :
    equalItems a b = true ↔ List.Forall₂ (fun x y => equal x y = true) a b := by
  induction a generalizing b with
  | nil => cases b <;> simp [equalItems]
  | cons x a ih =>
      cases b with
      | nil => simp [equalItems]
      | cons y b => rw [equalItems, Bool.and_eq_true, ih, List.forall₂_cons]

/-- Lists are equal item by item. -/
theorem equal_array_iff {a b : List Json} :
    equal (.array a) (.array b) = true ↔
      a.length = b.length ∧
        ∀ (i : Nat) v w, a[i]? = some v → b[i]? = some w → equal v w = true := by
  rw [equal, equalItems_iff, List.forall₂_iff_get]
  constructor
  · rintro ⟨hLength, hEach⟩
    refine ⟨hLength, fun i v w hv hw => ?_⟩
    obtain ⟨hi, rfl⟩ := List.getElem?_eq_some_iff.mp hv
    obtain ⟨hi', rfl⟩ := List.getElem?_eq_some_iff.mp hw
    exact hEach i hi hi'
  · rintro ⟨hLength, hEach⟩
    exact ⟨hLength, fun i hi hi' =>
      hEach i _ _ (List.getElem?_eq_getElem hi) (List.getElem?_eq_getElem hi')⟩

theorem equalFields_iff {a b : Json.Fields} :
    equalFields a b = true ↔ ∀ f ∈ a, ∃ w, b.lookup f.1 = some w ∧ equal f.2 w = true := by
  induction a with
  | nil => simp [equalFields]
  | cons f a ih =>
      obtain ⟨key, v⟩ := f
      rw [equalFields, Bool.and_eq_true, ih, List.forall_mem_cons]
      cases b.lookup key <;> simp

/-- Objects are equal when they have the same keys and equal values under each. As no key is repeated, it is
enough to compare the numbers of the keys and to look up those of one of the objects. -/
theorem equal_object_iff {a b : Json.Fields} (ha : Json.Canonical (.object a))
    (hb : Json.Canonical (.object b)) :
    equal (.object a) (.object b) = true ↔
      (∀ key, (a.lookup key).isSome = (b.lookup key).isSome) ∧
        ∀ key v w, a.lookup key = some v → b.lookup key = some w → equal v w = true := by
  have hKeysA := Json.nodup_keys ha.sorted
  have hKeysB := Json.nodup_keys hb.sorted
  rw [equal, Bool.and_eq_true, beq_iff_eq, equalFields_iff]
  constructor
  · rintro ⟨hLength, hEach⟩
    have hSubset : a.map Prod.fst ⊆ b.map Prod.fst := by
      intro key hKey
      obtain ⟨f, hf, rfl⟩ := List.mem_map.mp hKey
      obtain ⟨w, hw, -⟩ := hEach f hf
      rw [Json.mem_keys_iff, hw]
      rfl
    have hPerm : (a.map Prod.fst).Perm (b.map Prod.fst) :=
      (List.subperm_of_subset hKeysA hSubset).perm_of_length_le (by simp [hLength])
    refine ⟨fun key => ?_, fun key v w hv hw => ?_⟩
    · rw [Bool.eq_iff_iff, ← Json.mem_keys_iff, ← Json.mem_keys_iff, hPerm.mem_iff]
    · obtain ⟨w', hw', hEqual⟩ := hEach (key, v) (Json.mem_of_lookup hv)
      cases hw.symm.trans hw'
      exact hEqual
  · rintro ⟨hSame, hEach⟩
    have hPerm : (a.map Prod.fst).Perm (b.map Prod.fst) := by
      refine (List.perm_ext_iff_of_nodup hKeysA hKeysB).mpr fun key => ?_
      rw [Json.mem_keys_iff, Json.mem_keys_iff, hSame]
    refine ⟨by simpa using hPerm.length_eq, fun f hf => ?_⟩
    have hv := Json.lookup_of_mem ha.sorted hf
    obtain ⟨w, hw⟩ := Option.isSome_iff_exists.mp ((hSame f.1).symm.trans (by rw [hv]; rfl))
    exact ⟨w, hw, hEach f.1 f.2 w hv hw⟩

theorem equal_self (hx : x.Canonical) : equal x x = true := by
  induction hx with
  | null => rfl
  | bool b => rw [equal, beq_self_eq_true]
  | number n =>
      have hOrder : n.order n = .eq := Std.ReflCmp.compare_self
      rw [equal, hOrder, beq_self_eq_true]
  | string s => rw [equal, beq_self_eq_true]
  | array each ih =>
      refine equal_array_iff.mpr ⟨rfl, fun i v w hv hw => ?_⟩
      cases hv.symm.trans hw
      exact ih v (List.mem_of_getElem? hv)
  | object sorted each ih =>
      have hFields := Json.Canonical.object sorted each
      refine (equal_object_iff hFields hFields).mpr ⟨fun key => rfl, fun key v w hv hw => ?_⟩
      cases hv.symm.trans hw
      exact ih _ (Json.mem_of_lookup hv)

/-- Induction on the first value; the second has the same shape. -/
theorem equal_symm (hx : x.Canonical) (hy : y.Canonical) (h : equal x y = true) : equal y x = true := by
  induction hx generalizing y with
  | null =>
      cases y with
      | null => rfl
      | bool | number | string | array | object => cases h
  | bool b =>
      cases y with
      | bool | number => exact (Comparable.equal_comm (.inr ⟨rfl, rfl⟩)).symm.trans h
      | null | string | array | object => cases h
  | number n =>
      cases y with
      | bool | number => exact (Comparable.equal_comm (.inr ⟨rfl, rfl⟩)).symm.trans h
      | null | string | array | object => cases h
  | string s =>
      cases y with
      | string t => exact (Comparable.equal_comm (.inl ⟨rfl, rfl⟩)).symm.trans h
      | null | bool | number | array | object => cases h
  | array each ih =>
      cases hy with
      | array each' =>
          rw [equal_array_iff] at h ⊢
          exact ⟨h.1.symm, fun i w v hw hv => ih v (List.mem_of_getElem? hv)
            (each' w (List.mem_of_getElem? hw)) (h.2 i v w hv hw)⟩
      | null | bool | number | string | object => cases h
  | object sorted each ih =>
      cases hy with
      | object sorted' each' =>
          have hFields := Json.Canonical.object sorted each
          have hFields' := Json.Canonical.object sorted' each'
          rw [equal_object_iff hFields hFields'] at h
          rw [equal_object_iff hFields' hFields]
          exact ⟨fun key => (h.1 key).symm, fun key w v hw hv => ih _ (Json.mem_of_lookup hv)
            (hFields'.lookup hw) (h.2 key v w hv hw)⟩
      | null | bool | number | string | array => cases h

/-! ### The laws -/

/-- The laws of the comparison operators between two values. -/
structure Comparison.Laws (x y : Json) : Prop where
  reflexive : Comparison.holds .eq x x = true
  symmetric : Comparison.holds .eq x y = Comparison.holds .eq y x
  unequal : Comparison.holds .ne x y = !Comparison.holds .eq x y
  greater : Comparison.holds .lt x y = Comparison.holds .gt y x
  greater_or_equal : Comparison.holds .le x y = Comparison.holds .ge y x
  /-- Comparable values stand in exactly one of the strict relations. -/
  trichotomy : Comparable x y → ∃! op, op ∈ [.lt, .eq, .gt] ∧ Comparison.holds op x y = true
  weak : Comparable x y → Comparison.holds .le x y = (Comparison.holds .lt x y || Comparison.holds .eq x y)
  /-- Other values have no order. -/
  unordered : ¬ Comparable x y → ∀ op ∈ [.lt, .le, .gt, .ge], Comparison.holds op x y = false
  arrays : ∀ a b, x = .array a → y = .array b →
    (Comparison.holds .eq x y = true ↔ a.length = b.length ∧
      ∀ (i : Nat) v w, a[i]? = some v → b[i]? = some w → Comparison.holds .eq v w = true)
  objects : ∀ a b, x = .object a → y = .object b →
    (Comparison.holds .eq x y = true ↔ (∀ key, (a.lookup key).isSome = (b.lookup key).isSome) ∧
      ∀ key v w, a.lookup key = some v → b.lookup key = some w → Comparison.holds .eq v w = true)

/-- The strict relation or equality that an order stands for. -/
def Comparison.ofOrdering : Ordering → Comparison
  | .lt => .lt
  | .eq => .eq
  | .gt => .gt

theorem Comparable.exists_relation (h : Comparable x y) :
    ∃ o, ∀ op ∈ [.lt, .eq, .gt], Comparison.holds op x y = true ↔ op = Comparison.ofOrdering o := by
  obtain ⟨o, hOrder, -, hEqual⟩ := h.exists_order
  refine ⟨o, fun op hOp => ?_⟩
  simp only [List.mem_cons, List.not_mem_nil, or_false] at hOp
  rcases hOp with rfl | rfl | rfl <;> simp only [Comparison.holds, hOrder, hEqual] <;>
    cases o <;> decide

theorem Comparison.holds_flip (x y : Json) :
    Comparison.holds .lt x y = Comparison.holds .gt y x ∧
      Comparison.holds .le x y = Comparison.holds .ge y x := by
  by_cases hComparable : Comparable x y
  · obtain ⟨o, hOrder, hBack, -⟩ := hComparable.exists_order
    simp only [Comparison.holds, hOrder, hBack]
    cases o <;> decide
  · simp only [Comparison.holds, order?_eq_none hComparable,
      order?_eq_none fun h => hComparable (Comparable.symm h)]
    decide

/-- The comparison operators obey their laws between any two values. -/
theorem comparison_laws (x y : Value) : Comparison.Laws x.json y.json where
  reflexive := equal_self x.canonical
  symmetric := Bool.eq_iff_iff.mpr ⟨equal_symm x.canonical y.canonical, equal_symm y.canonical x.canonical⟩
  unequal := rfl
  greater := (Comparison.holds_flip x.json y.json).1
  greater_or_equal := (Comparison.holds_flip x.json y.json).2
  trichotomy hComparable := by
    obtain ⟨o, hRelation⟩ := hComparable.exists_relation
    have hMem : Comparison.ofOrdering o ∈ [Comparison.lt, .eq, .gt] := by cases o <;> decide
    exact ⟨_, ⟨hMem, (hRelation _ hMem).mpr rfl⟩, fun op hOp => (hRelation op hOp.1).mp hOp.2⟩
  weak hComparable := by
    obtain ⟨o, hOrder, -, hEqual⟩ := hComparable.exists_order
    simp only [Comparison.holds, hOrder, hEqual]
    cases o <;> decide
  unordered hComparable op hOp := by
    have hNone := order?_eq_none hComparable
    simp only [List.mem_cons, List.not_mem_nil, or_false] at hOp
    rcases hOp with rfl | rfl | rfl | rfl <;> simp only [Comparison.holds, hNone] <;> decide
  arrays a b hx hy := by
    rw [hx, hy]
    exact equal_array_iff
  objects a b hx hy := by
    have ha := x.canonical
    have hb := y.canonical
    rw [hx] at ha ⊢
    rw [hy] at hb ⊢
    exact equal_object_iff ha hb

end Guard

end Stepwise
