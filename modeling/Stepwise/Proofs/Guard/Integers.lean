import Mathlib.Data.Set.Defs
import Stepwise.Proofs.Binary64.Rounding
import Stepwise.Proofs.Guard.Comparing
import Stepwise.Proofs.Guard.Numeral
import Stepwise.Proofs.Guard.Spelling

/-! Comparisons with integers in conditions. The numeral of every integer that a word of 64 bits holds is read
exactly, and two such integers are compared exactly, whether one type of word holds them both or not; so a
condition says of an integer what it says in arithmetic. -/
namespace Stepwise

namespace Number

/-- The integers that a word of 64 bits holds, a signed or an unsigned one. -/
def words : Set Int := { n | -2 ^ 63 ≤ n ∧ n < 2 ^ 64 }

theorem log2_le_of_words {n : Int} (h : n ∈ words) : n.natAbs.log2 ≤ 1022 := by
  rcases eq_or_ne n.natAbs 0 with hZero | hNonzero
  · rw [hZero]
    decide
  · have hSize : n.natAbs < 2 ^ 65 := by
      obtain ⟨hLow, hHigh⟩ := h
      omega
    have hLog := (Nat.log2_lt hNonzero).mpr hSize
    omega

/-- An integer that a signed word of 64 bits holds. -/
def isSigned (n : Int) : Bool := -Int.pow 2 63 ≤ n && n < Int.pow 2 63

/-- An integer that an unsigned word of 64 bits holds. -/
def isUnsigned (n : Int) : Bool := 0 ≤ n && n < Int.pow 2 64

/-- Two integers compared as signed words if both are such, else as unsigned ones if both are such, and else
as the binary numbers nearest to them. -/
def orderOfWords (m n : Int) : Ordering :=
  if isSigned m && isSigned n then Ord.compare m n
  else if isUnsigned m && isUnsigned n then Ord.compare m n
  else (Binary64.ofInt m).order (Binary64.ofInt n)

/-- Integers in words are compared exactly: those that no one type of word holds differ in sign. -/
theorem orderOfWords_eq {m n : Int} (hm : m ∈ words) (hn : n ∈ words) :
    orderOfWords m n = compare m n := by
  unfold orderOfWords
  split_ifs with hSigned hUnsigned
  · rfl
  · rfl
  · have hSigns : (m < 0 ∧ 0 < n) ∨ (n < 0 ∧ 0 < m) := by
      have hSignedEnd : Int.pow 2 63 = 2 ^ 63 := rfl
      have hUnsignedEnd : Int.pow 2 64 = 2 ^ 64 := rfl
      obtain ⟨hmLow, hmHigh⟩ := hm
      obtain ⟨hnLow, hnHigh⟩ := hn
      simp only [isSigned, isUnsigned, Bool.and_eq_true, decide_eq_true_eq] at *
      omega
    have hmLog := log2_le_of_words hm
    have hnLog := log2_le_of_words hn
    rcases hSigns with ⟨hNegative, hPositive⟩ | ⟨hNegative, hPositive⟩
    · exact (Binary64.order_ofInt_of_signs hNegative hPositive hmLog hnLog).trans
        (compare_lt_iff_lt.mpr (hNegative.trans hPositive)).symm
    · have hSwapped :=
        Std.OrientedCmp.gt_iff_lt.mpr (Binary64.order_ofInt_of_signs hNegative hPositive hnLog hmLog)
      exact hSwapped.trans (compare_gt_iff_gt.mpr (hNegative.trans hPositive)).symm

end Number

namespace Guard

/-! ### Relations -/

namespace Comparison

/-- The relation that an operator is written for. -/
def Relates {α : Type} [LinearOrder α] (op : Comparison) (a b : α) : Prop :=
  match op with
  | .eq => a = b
  | .ne => a ≠ b
  | .lt => a < b
  | .le => a ≤ b
  | .gt => b < a
  | .ge => b ≤ a

/-- Whether an operator holds of two values that have an order. -/
def accepts : Comparison → Ordering → Bool
  | .eq, o => o == .eq
  | .ne, o => o != .eq
  | .lt, o => o == .lt
  | .le, o => o != .gt
  | .gt, o => o == .gt
  | .ge, o => o != .lt

theorem accepts_compare_iff {α : Type} [LinearOrder α] (op : Comparison) (a b : α) :
    op.accepts (compare a b) = true ↔ op.Relates a b := by
  cases op with
  | eq => rw [accepts, beq_iff_eq, compare_eq_iff_eq, Relates]
  | ne => rw [accepts, bne_iff_ne, ne_eq, compare_eq_iff_eq, Relates]
  | lt => rw [accepts, beq_iff_eq, compare_lt_iff_lt, Relates]
  | le => rw [accepts, bne_iff_ne, compare_le_iff_le, Relates]
  | gt => rw [accepts, beq_iff_eq, compare_gt_iff_gt, Relates]
  | ge => rw [accepts, bne_iff_ne, compare_ge_iff_ge, Relates]

/-- The operators hold of numbers, and of booleans in the place of numbers, as their order says. -/
theorem holds_numeric {x y : Json} {m n : Number} (hx : numeric? x = some m) (hy : numeric? y = some n)
    (op : Comparison) : op.holds x y = op.accepts (m.order n) := by
  have hOrder := order?_numeric hx hy
  have hEqual := equal_numeric hx hy
  cases op <;> simp only [holds, accepts, hOrder, hEqual] <;> cases m.order n <;> rfl

end Comparison

/-! ### Integers -/

/-- A value that counts as an integer: the integer itself, and a boolean for zero or one. -/
inductive CountsAs : Json → Int → Prop
  | int (m : Int) : CountsAs (.number (.int m)) m
  | false : CountsAs (.bool false) 0
  | true : CountsAs (.bool true) 1

theorem CountsAs.numeric?_eq {v : Json} {m : Int} (h : CountsAs v m) : numeric? v = some (.int m) := by
  cases h <;> rfl

/-- A comparison with an integer is exact over all words of 64 bits. Its text compiles, and the condition holds
where the path leads to an integer, or to a boolean that counts as one, that stands in the relation to the
numeral. Comparing two integers as signed words, else as unsigned ones, and else after rounding, is no
different. -/
theorem integers_compare_exactly {n : Int} (hn : n ∈ Number.words) (op : Comparison) {path : Path}
    (hKeys : ∀ key ∈ path.keys, isWord key = true) :
    ∃ c, Condition.compile (path.text ++ " " ++ op.spelling ++ " " ++ toString n) = .ok c ∧
      ∀ m ∈ Number.words, Number.orderOfWords m n = compare m n ∧
        ∀ (s : State) (v : Json), s.lookup? path.root path.keys = some v → CountsAs v m →
          (c.holds s = true ↔ op.Relates m n) := by
  obtain ⟨c, hCompile, hHolds⟩ :=
    Grammar.means_comparison hKeys op (.number (.int n)) (lexes_toString hn.1 hn.2)
  have hText : path.text ++ (" " ++ op.spelling ++ " ") ++ toString n =
      path.text ++ " " ++ op.spelling ++ " " ++ toString n := by
    simp only [String.append_assoc]
  refine ⟨c, hText ▸ hCompile, fun m hm => ⟨?_, fun s v hPath hCounts => ?_⟩⟩
  · exact Number.orderOfWords_eq hm hn
  · have hResolve : path.resolve s = v := by rw [Path.resolve, hPath, Option.getD_some]
    have hNumeral : numeric? (Grammar.Literal.value (.number (.int n))).toJson = some (.int n) := rfl
    rw [hHolds]
    dsimp only
    rw [hResolve, Comparison.holds_numeric hCounts.numeric?_eq hNumeral]
    exact Comparison.accepts_compare_iff op m n

/-- No one type of word holds both a negative integer and the greatest one. -/
theorem integers_compare_exactly_minus_one :
    ∃ c, Condition.compile "context.k < 18446744073709551615" = .ok c ∧
      Number.orderOfWords (-1) 18446744073709551615 = .lt ∧
      c.holds (State.ofContext (.ofList [("k", .int (-1))])) = true ∧
      c.holds (State.ofContext (.ofList [("k", .int 18446744073709551615)])) = false ∧
      c.holds (State.ofContext (.ofList [("k", .bool true)])) = true := by
  have hGreatest : (18446744073709551615 : Int) ∈ Number.words := ⟨by decide, by decide⟩
  have hOne : (1 : Int) ∈ Number.words := ⟨by decide, by decide⟩
  have hMinusOne : (-1 : Int) ∈ Number.words := ⟨by decide, by decide⟩
  obtain ⟨c, hCompile, hEach⟩ :=
    integers_compare_exactly hGreatest .lt (by decide +kernel : ∀ key ∈ (⟨.context, ["k"]⟩ : Path).keys, _)
  refine ⟨c, ?_, (hEach _ hMinusOne).1, ?_, ?_, ?_⟩
  · rw [← hCompile]
    exact congrArg Condition.compile (by decide +kernel)
  · exact ((hEach _ hMinusOne).2 _ _ (by rfl) (.int _)).mpr (by decide : (-1 : Int) < 18446744073709551615)
  · rw [Bool.eq_false_iff, ne_eq, (hEach _ hGreatest).2 _ _ (by rfl) (.int _)]
    exact lt_irrefl _
  · exact ((hEach _ hOne).2 _ _ (by rfl) .true).mpr (by decide : (1 : Int) < 18446744073709551615)

end Guard

end Stepwise
