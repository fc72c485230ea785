import Mathlib.Order.Compare
import Stepwise.Proofs.Except
import Stepwise.Proofs.Guard.Integers

/-! Comparisons of integers with binary numbers. Beside a binary number an integer is rounded to the nearest one,
and that number is the only one with which the comparison then fails: it is taken to be equal to the integer
though it is not. Numbers are compared by their values but for this, and equality is transitive but between two
integers that are rounded to one number. -/
namespace Stepwise

namespace Number

/-- The exact value. -/
def value : Number → ℚ
  | .int n => n
  | .float x => x.value

/-- A number is kept in a word of 64 bits. -/
def InWord : Number → Prop
  | .int n => n ∈ words
  | .float _ => True

/-- An integer beside the number to which it is rounded, when that is another one. -/
inductive Blurs : Number → Number → Prop
  | left {n : Int} {x : Binary64} : x.value = (Binary64.ofInt n).value → x.value ≠ n → Blurs (.int n) (.float x)
  | right {n : Int} {x : Binary64} : x.value = (Binary64.ofInt n).value → x.value ≠ n → Blurs (.float x) (.int n)

theorem Blurs.symm {a b : Number} (h : Blurs a b) : Blurs b a := by
  cases h with
  | left hRounded hOther => exact .right hRounded hOther
  | right hRounded hOther => exact .left hRounded hOther

theorem blurs_iff {n : Int} {x : Binary64} :
    Blurs (.int n) (.float x) ↔ x.value = (Binary64.ofInt n).value ∧ x.value ≠ n :=
  ⟨fun h => by cases h with | left hRounded hOther => exact ⟨hRounded, hOther⟩, fun h => .left h.1 h.2⟩

theorem order_of_blurs {a b : Number} (h : Blurs a b) : a.value ≠ b.value ∧ a.order b = .eq := by
  cases h with
  | left hRounded hOther =>
      exact ⟨hOther.symm, (Binary64.order_eq_compare _ _).trans (compare_eq_iff_eq.mpr hRounded.symm)⟩
  | right hRounded hOther =>
      exact ⟨hOther, (Binary64.order_eq_compare _ _).trans (compare_eq_iff_eq.mpr hRounded)⟩

theorem order_int_float {n : Int} {x : Binary64} (hn : n ∈ words) (h : ¬ Blurs (.int n) (.float x)) :
    order (.int n) (.float x) = compare (n : ℚ) x.value := by
  have hNearest := Binary64.nearest_ofInt (log2_le_of_words hn)
  have hOrder : order (.int n) (.float x) = compare (Binary64.ofInt n).value x.value :=
    Binary64.order_eq_compare _ _
  rw [hOrder]
  by_cases hRounded : x.value = (Binary64.ofInt n).value
  · have hSame : x.value = n := by
      by_contra hOther
      exact h (.left hRounded hOther)
    rw [hNearest.value_eq hSame, hSame]
  · exact hNearest.compare_eq hRounded

theorem order_of_not_blurs {a b : Number} (ha : a.InWord) (hb : b.InWord) (h : ¬ Blurs a b) :
    a.order b = compare a.value b.value := by
  cases a with
  | int m =>
      cases b with
      | int n =>
          rw [value, value, ← cmp_eq_compare, Int.cast_strictMono.cmp_map_eq, cmp_eq_compare]
          rfl
      | float y => exact order_int_float ha h
  | float x =>
      cases b with
      | int n =>
          have hBack := order_int_float hb fun hBlurs => h hBlurs.symm
          have hSwap : order (.float x) (.int n) = (order (.int n) (.float x)).swap := Std.OrientedCmp.eq_swap
          rw [hSwap, hBack, value, value, ← Std.OrientedOrd.eq_swap]
      | float y => exact Binary64.order_eq_compare x y

/-- An integer is told from every binary number exactly if it has at most 53 bits before its last zeros. -/
theorem exists_blurs_iff {n : Int} (hn : n ∈ words) :
    (∃ x, Blurs (.int n) (.float x)) ↔ ¬ ∃ (k : Int) (j : Nat), |k| < 2 ^ 53 ∧ n = k * 2 ^ j := by
  have hNearest := Binary64.nearest_ofInt (log2_le_of_words hn)
  rw [← Binary64.exists_value_iff (log2_le_of_words hn)]
  constructor
  · rintro ⟨x, hBlurs⟩ ⟨y, hy⟩
    obtain ⟨hRounded, hOther⟩ := blurs_iff.mp hBlurs
    exact hOther (hRounded.trans (hNearest.value_eq hy))
  · intro hNone
    exact ⟨Binary64.ofInt n, .left rfl fun hSame => hNone ⟨_, hSame⟩⟩

/-- Numbers that are equal are rounded to the same value. -/
theorem rounded_eq {a b : Number} (h : a.order b = .eq) : a.toBinary.value = b.toBinary.value := by
  cases a with
  | int m =>
      cases b with
      | int n =>
          have hSame : m = n := compare_eq_iff_eq.mp h
          rw [hSame]
      | float y => exact compare_eq_iff_eq.mp ((Binary64.order_eq_compare _ _).symm.trans h)
  | float x => exact compare_eq_iff_eq.mp ((Binary64.order_eq_compare _ _).symm.trans h)

/-- Equality is transitive but from an integer through a binary number to another integer. -/
theorem order_trans_iff {a b c : Number} (hab : a.order b = .eq) (hbc : b.order c = .eq) :
    a.order c ≠ .eq ↔ ∃ m x n, m ≠ n ∧ a = .int m ∧ b = .float x ∧ c = .int n := by
  have hRounded : a.toBinary.value = c.toBinary.value := (rounded_eq hab).trans (rounded_eq hbc)
  have hEqual : a.toBinary.order c.toBinary = .eq :=
    (Binary64.order_eq_compare _ _).trans (compare_eq_iff_eq.mpr hRounded)
  constructor
  · intro hDiffers
    cases a with
    | float x => exact absurd hEqual hDiffers
    | int m =>
        cases c with
        | float z => exact absurd hEqual hDiffers
        | int n =>
            have hOther : m ≠ n := fun hSame => hDiffers (compare_eq_iff_eq.mpr hSame)
            cases b with
            | int k => exact absurd ((compare_eq_iff_eq.mp hab).trans (compare_eq_iff_eq.mp hbc)) hOther
            | float y => exact ⟨m, y, n, hOther, rfl, rfl, rfl⟩
  · rintro ⟨m, x, n, hOther, rfl, rfl, rfl⟩ hSame
    exact hOther (compare_eq_iff_eq.mp hSame)

end Number

namespace Guard

/-- Numbers in words are compared exactly, unless one is an integer and the other a binary number to which that
integer is rounded although its value is another; those two are taken to be equal. An integer has such a number
if it has more than 53 bits before its last zeros. So equality, which between values is transitive, is not from
one integer to another through a number to which both are rounded, and is transitive everywhere else. -/
theorem numbers_compare_rounded {a b : Number} (ha : a.InWord) (hb : b.InWord) :
    (¬ a.Blurs b → ∀ op, Comparison.holds op (.number a) (.number b) = true ↔ op.Relates a.value b.value) ∧
    (a.Blurs b → a.value ≠ b.value ∧ ∀ op, Comparison.holds op (.number a) (.number b) = op.accepts .eq) ∧
    (∀ n, a = .int n → Binary64.Nearest n (Binary64.ofInt n) ∧
      ((∃ x, a.Blurs (.float x)) ↔ ¬ ∃ (k : Int) (j : Nat), |k| < 2 ^ 53 ∧ n = k * 2 ^ j)) ∧
    ∀ c : Number, Comparison.holds .eq (.number a) (.number b) = true →
      Comparison.holds .eq (.number b) (.number c) = true →
      (Comparison.holds .eq (.number a) (.number c) = false ↔
        ∃ m x n, m ≠ n ∧ a = .int m ∧ b = .float x ∧ c = .int n) := by
  have hHolds (op : Comparison) (m n : Number) :
      op.holds (.number m) (.number n) = op.accepts (m.order n) := Comparison.holds_numeric rfl rfl op
  have hEqual (m n : Number) : Comparison.holds .eq (.number m) (.number n) = true ↔ m.order n = .eq := by
    rw [hHolds, Comparison.accepts, beq_iff_eq]
  refine ⟨fun hExact op => ?_, fun hBlurs => ?_, ?_, fun c hab hbc => ?_⟩
  · rw [hHolds, Number.order_of_not_blurs ha hb hExact]
    exact Comparison.accepts_compare_iff op a.value b.value
  · obtain ⟨hOther, hOrder⟩ := Number.order_of_blurs hBlurs
    exact ⟨hOther, fun op => by rw [hHolds, hOrder]⟩
  · rintro n rfl
    exact ⟨Binary64.nearest_ofInt (Number.log2_le_of_words ha), Number.exists_blurs_iff ha⟩
  · rw [hEqual] at hab hbc
    rw [← Number.order_trans_iff hab hbc, Bool.eq_false_iff, ne_eq, hEqual]

/-- The number from which on not every integer has a binary number of its own. -/
private def limit : Binary64 :=
  ⟨false, 4503599627370496, 1, by decide⟩

private theorem value_limit : limit.value = 9007199254740992 := by
  norm_num [limit, Binary64.value, Binary64.sign]

private theorem blurs_limit : Number.Blurs (.int 9007199254740993) (.float limit) := by
  have hRounded : Binary64.ofInt 9007199254740993 = limit := by decide +kernel
  refine .left (by rw [hRounded]) ?_
  rw [value_limit]
  norm_num

theorem numbers_compare_rounded_limit :
    Comparison.holds .lt (.number (.int 9007199254740991)) (.number (.float limit)) = true ∧
    Comparison.holds .le (.number (.int 9007199254740993)) (.number (.float limit)) = true ∧
    Binary64.Nearest 9007199254740993 (Binary64.ofInt 9007199254740993) ∧
    (¬ ∃ (k : Int) (j : Nat), |k| < 2 ^ 53 ∧ 9007199254740993 = k * 2 ^ j) ∧
    Comparison.holds .eq (.number (.int 9007199254740993)) (.number (.int 9007199254740992)) = false := by
  have hClear : ¬ Number.Blurs (.int 9007199254740991) (.float limit) := by
    have hRounded : Binary64.ofInt 9007199254740991 = ⟨false, 9007199254740991, 0, by decide⟩ := by
      decide +kernel
    rw [Number.blurs_iff, hRounded, value_limit]
    norm_num [Binary64.value, Binary64.sign]
  obtain ⟨hExact, -⟩ :=
    numbers_compare_rounded (a := .int 9007199254740991) (b := .float limit) ⟨by decide, by decide⟩ trivial
  obtain ⟨-, hBlurred, hRounds, hTransitive⟩ :=
    numbers_compare_rounded (a := .int 9007199254740993) (b := .float limit) ⟨by decide, by decide⟩ trivial
  obtain ⟨-, hEqual⟩ := hBlurred blurs_limit
  obtain ⟨hNearest, hLong⟩ := hRounds _ rfl
  refine ⟨(hExact hClear .lt).mpr ?_, hEqual .le, hNearest, hLong.mp ⟨_, blurs_limit⟩, ?_⟩
  · change ((9007199254740991 : Int) : ℚ) < limit.value
    rw [value_limit]
    norm_num
  · exact (hTransitive _ (hEqual .eq) (by decide +kernel)).mpr
      ⟨_, _, _, (by decide : (9007199254740993 : Int) ≠ 9007199254740992), rfl, rfl, rfl⟩

/-- Two integers that differ are both taken to be equal to the same binary number, in a condition too. -/
theorem two_integers_equal_limit :
    limit.value = 9007199254740992 ∧
    Comparison.holds .eq (.number (.int 9007199254740992)) (.number (.float limit)) = true ∧
    Comparison.holds .eq (.number (.float limit)) (.number (.int 9007199254740993)) = true ∧
    Comparison.holds .eq (.number (.int 9007199254740992)) (.number (.int 9007199254740993)) = false ∧
    ∃ c, Condition.compile "context.k == 9007199254740992.0" = .ok c ∧
      c.holds (State.ofContext (.ofList [("k", .int 9007199254740993)])) = true := by
  refine ⟨value_limit, by decide +kernel, by decide +kernel, by decide +kernel, ?_⟩
  have hHolds : Except.map (fun c => c.holds (State.ofContext (.ofList [("k", .int 9007199254740993)])))
      (Condition.compile "context.k == 9007199254740992.0") = .ok true := by decide +kernel
  exact map_eq_ok_iff.mp hHolds

end Guard

end Stepwise
