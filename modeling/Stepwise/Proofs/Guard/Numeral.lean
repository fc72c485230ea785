import Mathlib.Algebra.Group.Nat.Defs
import Mathlib.Algebra.Ring.Int.Defs
import Stepwise.Proofs.Guard.Lexing

/-! Decimal numerals. The digits of an integer, with a minus before those of a negative one, are one lexeme,
and as long as 64 bits hold the integer it is exact. -/
namespace Stepwise.Guard

theorem isDigit_of_mem_toDigits {n : Nat} {c : Char} (h : c ∈ Nat.toDigits 10 n) : isDigit c = true := by
  have hDigit := Nat.isDigit_of_mem_toDigits (by decide) (Nat.le_refl 10) h
  simpa [isDigit, Char.isDigit, Char.le_def] using hDigit

theorem natOfDigits_toDigits (n : Nat) : natOfDigits (Nat.toDigits 10 n) = n := by
  conv_rhs => rw [← Nat.ofDigitChars_ten_toDigits (n := n), Nat.ofDigitChars_eq_foldl]
  simp only [natOfDigits, Nat.mul_comm 10]

theorem NumeralParts.ofText_digits {digits : List Char} (h : ∀ c ∈ digits, isDigit c = true) :
    ofText digits = ⟨0, digits, [], []⟩ := by
  have hSign : digits.head? ≠ some '-' := by
    intro hMinus
    have hDigit := h '-' (List.mem_of_mem_head? hMinus)
    cases hDigit
  have hWhole : digits.takeWhile isDigit = digits := List.takeWhile_eq_self_iff.mpr h
  simp only [ofText, if_neg hSign, List.drop_zero, hWhole, List.drop_length]
  rfl

theorem NumeralParts.ofText_minus {digits : List Char} (h : ∀ c ∈ digits, isDigit c = true) :
    ofText ('-' :: digits) = ⟨1, digits, [], []⟩ := by
  have hWhole : digits.takeWhile isDigit = digits := List.takeWhile_eq_self_iff.mpr h
  simp only [ofText, List.head?_cons, if_true, List.drop_one, List.tail_cons, hWhole, List.drop_length]
  rfl

/-- The integer of a row of digits, if 64 bits hold it. -/
theorem numberOf?_digits {negative : Bool} {digits : List Char} {value : Int}
    (hValue : (if negative then -(natOfDigits digits : Int) else natOfDigits digits) = value)
    (hLow : -2 ^ 63 ≤ value) (hHigh : value < 2 ^ 64) :
    numberOf? negative digits [] [] = some (.int value) := by
  subst hValue
  simp only [numberOf?, List.isEmpty_nil, Bool.and_self, if_true]
  exact if_pos ⟨hLow, hHigh⟩

theorem isBlank_of_isDigit {c : Char} (h : isDigit c = true) : Text.isBlank c = false := by
  cases hBlank : Text.isBlank c with
  | false => rfl
  | true =>
      have hSeparate : Separate [c] := separate_cons.mpr (.inl hBlank)
      have hDigit := (hSeparate.head rfl).2.1
      rw [h] at hDigit
      cases hDigit

/-- A numeral is read by its parts. -/
theorem readNumber_of_parts {text : List Char} {value : Number}
    (hWhole : (NumeralParts.ofText text).whole ≠ [])
    (hNumber : numberOf? ((NumeralParts.ofText text).sign == 1) (NumeralParts.ofText text).whole
      (NumeralParts.ofText text).fraction (NumeralParts.ofText text).exponent = some value) :
    readNumber text = .ok (.number value, (NumeralParts.ofText text).length - 1) := by
  rw [readNumber_eq]
  generalize NumeralParts.ofText text = parts at hWhole hNumber ⊢
  dsimp only
  rw [if_neg (by simpa using hWhole), hNumber]

theorem readNumber_digits {digits : List Char} (hDigits : ∀ c ∈ digits, isDigit c = true)
    (hSome : digits ≠ []) (h : (natOfDigits digits : Int) < 2 ^ 64) :
    readNumber digits = .ok (.number (.int (natOfDigits digits)), digits.length - 1) := by
  have hParts := NumeralParts.ofText_digits hDigits
  have hLow : -2 ^ 63 ≤ (natOfDigits digits : Int) := by omega
  have hRead : readNumber digits = .ok (.number (.int (natOfDigits digits)), _) :=
    readNumber_of_parts (by rw [hParts]; exact hSome)
      (by rw [hParts]; exact numberOf?_digits rfl hLow h)
  rw [hRead, hParts, NumeralParts.length]
  simp

theorem readNumber_minus {digits : List Char} (hDigits : ∀ c ∈ digits, isDigit c = true)
    (hSome : digits ≠ []) (h : -2 ^ 63 ≤ -(natOfDigits digits : Int)) :
    readNumber ('-' :: digits) = .ok (.number (.int (-natOfDigits digits)), digits.length) := by
  have hParts := NumeralParts.ofText_minus hDigits
  have hHigh : -(natOfDigits digits : Int) < 2 ^ 64 := by omega
  have hRead : readNumber ('-' :: digits) = .ok (.number (.int (-natOfDigits digits)), _) :=
    readNumber_of_parts (by rw [hParts]; exact hSome)
      (by rw [hParts]; exact numberOf?_digits rfl h hHigh)
  rw [hRead, hParts, NumeralParts.length]
  simp

/-- A text that is read as a numeral to its end is one lexeme. -/
theorem lexes_numeral {c : Char} {rest : List Char} {value : Number} (hFirst : isDigit c = true ∨ c = '-')
    (hRead : readNumber (c :: rest) = .ok (.number value, rest.length)) :
    Lexes false (c :: rest) [.number value] := by
  have hBlank : Text.isBlank c = false := by
    rcases hFirst with hDigit | rfl
    · exact isBlank_of_isDigit hDigit
    · rfl
  refine .lexeme hBlank (by rw [readLexeme_numeral false hFirst, hRead]) ?_
  rw [List.drop_length]
  exact .nil

/-- The decimal text of an integer that 64 bits hold is the lexeme of that integer. -/
theorem lexes_toString {n : Int} (hLow : -2 ^ 63 ≤ n) (hHigh : n < 2 ^ 64) :
    Lexes false (toString n).toList [.number (.int n)] := by
  have hDigits (k : Nat) : ∀ c ∈ Nat.toDigits 10 k, isDigit c = true := fun c => isDigit_of_mem_toDigits
  have hSome (k : Nat) : Nat.toDigits 10 k ≠ [] := Nat.toDigits_ne_nil
  cases n with
  | ofNat k =>
      have hText : (toString (Int.ofNat k)).toList = Nat.toDigits 10 k := by
        rw [Int.toString_eq_repr, Int.repr, Nat.repr_eq_ofList_toDigits, String.toList_ofList]
      have hRead := readNumber_digits (hDigits k) (hSome k) (by rwa [natOfDigits_toDigits])
      obtain ⟨c, rest, hCons⟩ := List.exists_cons_of_ne_nil (hSome k)
      rw [natOfDigits_toDigits, hCons] at hRead
      rw [hText, hCons]
      exact lexes_numeral (.inl (hDigits k c (hCons ▸ List.mem_cons_self))) hRead
  | negSucc k =>
      have hText : (toString (Int.negSucc k)).toList = '-' :: Nat.toDigits 10 (k + 1) := by
        simp [Int.toString_eq_repr, Int.repr, Nat.repr_eq_ofList_toDigits]
      have hRead := readNumber_minus (hDigits (k + 1)) (hSome (k + 1))
        (by rw [natOfDigits_toDigits]; omega)
      rw [natOfDigits_toDigits] at hRead
      rw [hText]
      exact lexes_numeral (.inr rfl) hRead

end Stepwise.Guard
