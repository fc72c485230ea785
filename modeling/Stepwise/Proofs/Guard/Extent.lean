import Stepwise.Proofs.Guard.Lexing

/-! Lexemes that end within a text. What a lexeme is does not depend on the characters behind it once it has
ended: it is read alike from its own characters and from more of them. Numerals need care, since a point, a
mark or a sign behind digits is looked at before it is known whether it belongs to the numeral. -/
namespace Stepwise.Guard

variable {text more : List Char}

/-- What is taken from a longer text, but lies within the shorter one, is taken from that too. -/
theorem takeWhile_of_append {p : Char → Bool} (h : ((text ++ more).takeWhile p).length ≤ text.length) :
    (text ++ more).takeWhile p = text.takeWhile p := by
  rw [List.takeWhile_append] at h ⊢
  split_ifs at h ⊢ with hAll
  · rw [List.length_append] at h
    have hNone : more.takeWhile p = [] := List.eq_nil_of_length_eq_zero (by omega)
    rw [hNone, List.append_nil]
    exact ((List.takeWhile_prefix p).eq_of_length hAll).symm
  · rfl

theorem fractionLength_of_append (h : fractionLength (text ++ more) ≤ text.length) :
    fractionLength (text ++ more) = fractionLength text := by
  cases text with
  | nil => exact Nat.le_zero.mp h
  | cons c text =>
      by_cases hDot : c = '.'
      · subst hDot
        rw [List.cons_append] at h ⊢
        have hDigits : (text ++ more).takeWhile isDigit = text.takeWhile isDigit := by
          refine takeWhile_of_append ?_
          simp only [fractionLength, List.length_cons] at h
          split at h
          · rename_i hNone
            rw [hNone]
            exact Nat.zero_le _
          · exact Nat.le_of_succ_le_succ h
        simp only [fractionLength, hDigits]
      · rw [List.cons_append, fractionLength_of_head_ne (by simpa using hDot),
          fractionLength_of_head_ne (by simpa using hDot)]

theorem signLength_append (hText : text ≠ []) : signLength (text ++ more) = signLength text := by
  obtain ⟨c, text, rfl⟩ := List.exists_cons_of_ne_nil hText
  rw [List.cons_append]
  unfold signLength
  split <;> split <;> simp_all

/-- The digits of an exponent behind its mark. -/
def exponentDigits (text : List Char) : List Char :=
  (text.drop (signLength text)).takeWhile isDigit

theorem exponentLength_mark {c : Char} (hMark : c = 'e' ∨ c = 'E') (text : List Char) :
    exponentLength (c :: text) =
      if exponentDigits text = [] then 0 else (exponentDigits text).length + 1 + signLength text := by
  rw [exponentLength_cons, if_pos hMark]
  unfold exponentDigits
  split
  · next hNone => rw [if_pos hNone]
  · next hSome => rw [if_neg hSome]

theorem exponentDigits_of_append
    (h : exponentDigits (text ++ more) = [] ∨
      (exponentDigits (text ++ more)).length + signLength (text ++ more) ≤ text.length) :
    exponentDigits (text ++ more) = exponentDigits text := by
  by_cases hText : text = []
  · subst hText
    rcases h with hNone | hWithin
    · exact hNone
    · exact List.eq_nil_of_length_eq_zero (by rw [List.length_nil] at hWithin; omega)
  · unfold exponentDigits at h ⊢
    rw [signLength_append hText, List.drop_append_of_le_length (signLength_le text)] at h ⊢
    refine takeWhile_of_append ?_
    rcases h with hNone | hWithin
    · rw [hNone]
      exact Nat.zero_le _
    · rw [List.length_drop]
      omega

theorem exponentLength_of_append (h : exponentLength (text ++ more) ≤ text.length) :
    exponentLength (text ++ more) = exponentLength text := by
  cases text with
  | nil => exact Nat.le_zero.mp h
  | cons c text =>
      rw [List.cons_append] at h ⊢
      by_cases hMark : c = 'e' ∨ c = 'E'
      · rw [exponentLength_mark hMark] at h ⊢
        rw [exponentLength_mark hMark]
        have hDigits : exponentDigits (text ++ more) = exponentDigits text := by
          refine exponentDigits_of_append ?_
          split_ifs at h with hNone
          · exact .inl hNone
          · rw [List.length_cons] at h
            exact .inr (by omega)
        rw [hDigits] at h ⊢
        split_ifs at h ⊢ with hNone
        · rfl
        · rw [signLength_append]
          rintro rfl
          exact hNone rfl
      · rw [exponentLength_cons, exponentLength_cons, if_neg hMark, if_neg hMark]

/-- The parts of a numeral that ends within a text are found in that text. -/
theorem NumeralParts.ofText_of_append (hText : text ≠ [])
    (h : (ofText (text ++ more)).length ≤ text.length) : ofText (text ++ more) = ofText text := by
  have hHead : (text ++ more).head? = text.head? := by
    obtain ⟨c, others, rfl⟩ := List.exists_cons_of_ne_nil hText
    rfl
  have hSign := minus_length_le text
  simp only [ofText, length, hHead] at h ⊢
  generalize (if text.head? = some '-' then 1 else 0) = sign at h hSign ⊢
  rw [List.drop_append_of_le_length hSign] at h ⊢
  have hWhole : (text.drop sign ++ more).takeWhile isDigit = (text.drop sign).takeWhile isDigit := by
    refine takeWhile_of_append ?_
    rw [List.length_drop]
    omega
  rw [hWhole] at h ⊢
  have hWithin := (List.takeWhile_prefix isDigit (l := text.drop sign)).length_le
  generalize (text.drop sign).takeWhile isDigit = whole at h hWithin ⊢
  rw [List.drop_append_of_le_length hWithin] at h ⊢
  have hAfter : ((text.drop sign).drop whole.length).length = text.length - sign - whole.length := by
    rw [List.length_drop, List.length_drop]
  generalize (text.drop sign).drop whole.length = afterWhole at h hAfter ⊢
  have hFraction : fractionLength (afterWhole ++ more) = fractionLength afterWhole := by
    refine fractionLength_of_append ?_
    rw [List.length_take_of_le (fractionLength_le _)] at h
    omega
  have hFits := fractionLength_le afterWhole
  rw [hFraction, List.take_append_of_le_length hFits, List.length_take_of_le hFits,
    List.drop_append_of_le_length hFits] at h
  rw [hFraction, List.take_append_of_le_length hFits, List.length_take_of_le hFits,
    List.drop_append_of_le_length hFits]
  have hExponent : exponentLength (afterWhole.drop (fractionLength afterWhole) ++ more) =
      exponentLength (afterWhole.drop (fractionLength afterWhole)) := by
    refine exponentLength_of_append ?_
    rw [List.length_take_of_le (exponentLength_le _)] at h
    rw [List.length_drop]
    omega
  rw [hExponent, List.take_append_of_le_length (exponentLength_le _)]

theorem readNumber_of_append {c : Char} {lexeme : Lexeme} {length : Nat}
    (h : readNumber (c :: (text ++ more)) = .ok (lexeme, length)) (hWithin : length ≤ text.length) :
    readNumber (c :: text) = .ok (lexeme, length) := by
  rw [← List.cons_append, readNumber_eq] at h
  dsimp only at h
  split_ifs at h with hWhole
  split at h
  · rename_i value hNumber
    cases h
    have hParts : NumeralParts.ofText (c :: text ++ more) = NumeralParts.ofText (c :: text) := by
      refine NumeralParts.ofText_of_append (List.cons_ne_nil c text) ?_
      rw [List.length_cons]
      omega
    rw [hParts] at hWhole hNumber ⊢
    rw [readNumber_eq]
    dsimp only
    rw [if_neg hWhole, hNumber]
  · cases h

/-- A string takes more characters than were taken before. -/
theorem length_lt_of_readString {quote : Char} {read : List Char} {length offset width : Nat}
    {lexeme : Lexeme} (h : readString quote read length offset text = .ok (lexeme, width)) :
    length < width := by
  fun_induction readString quote read length offset text with
  | case1 | case3 | case7 => cases h
  | case2 =>
      cases h
      exact Nat.lt_succ_self _
  | case4 read length offset e text _ _ ih | case5 read length offset text _ _ ih
  | case6 read length offset text _ _ _ ih | case8 read length offset c text _ _ ih =>
      have hRest := ih h
      omega

theorem readString_of_append {quote : Char} {read : List Char} {length offset width : Nat}
    {lexeme : Lexeme} (h : readString quote read length offset (text ++ more) = .ok (lexeme, width))
    (hWithin : width ≤ length + text.length) :
    readString quote read length offset text = .ok (lexeme, width) := by
  fun_induction readString quote read length offset text with
  | case1 =>
      have hMore := length_lt_of_readString h
      rw [List.length_nil] at hWithin
      omega
  | case2 =>
      rw [List.cons_append, readString_end] at h
      exact h
  | case3 read length offset hEnd =>
      -- the escaped character would lie beyond the text
      cases more with
      | nil => simp [readString, hEnd] at h
      | cons e more =>
          rw [List.length_singleton] at hWithin
          rw [List.singleton_append, readString.eq_def] at h
          simp only [hEnd, if_true, if_false] at h
          split_ifs at h
          all_goals
            have hMore := length_lt_of_readString h
            omega
  | case4 read length offset e text hEscape hEnd ih =>
      simp only [List.cons_append, readString, hEnd, hEscape, if_true, if_false] at h
      exact ih h (by simp only [List.length_cons] at hWithin; omega)
  | case5 read length offset text hEnd _ ih =>
      simp [readString, hEnd] at h
      exact ih h (by simp only [List.length_cons] at hWithin; omega)
  | case6 read length offset text hEnd _ _ ih =>
      simp [readString, hEnd] at h
      exact ih h (by simp only [List.length_cons] at hWithin; omega)
  | case7 read length offset e text hEscape hN hT hEnd => simp [readString, hEnd, hEscape, hN, hT] at h
  | case8 read length offset c text hEnd hBackslash ih =>
      rw [List.cons_append, readString_other hEnd hBackslash] at h
      exact ih h (by simp only [List.length_cons] at hWithin; omega)

/-- A lexeme that ends within a text is read from that text alone. -/
theorem readLexeme_of_append {afterDot : Bool} {c : Char} {lexeme : Lexeme} {length : Nat}
    (h : readLexeme afterDot c (text ++ more) = .ok (lexeme, length)) (hWithin : length ≤ text.length) :
    readLexeme afterDot c text = .ok (lexeme, length) := by
  by_cases hQuote : c = '\'' ∨ c = '"'
  · rw [readLexeme_quote afterDot hQuote] at h ⊢
    exact readString_of_append h (by omega)
  by_cases hNumeral : isDigit c = true ∨ c = '-'
  · rw [readLexeme_numeral afterDot hNumeral] at h ⊢
    exact readNumber_of_append h hWithin
  by_cases hLetter : isLetter c = true
  · rw [readLexeme_word afterDot hLetter] at h ⊢
    cases h
    rw [takeWhile_of_append hWithin]
  have hNext (hEquals : ((text ++ more).head? == some '=') = true) (hOne : 1 ≤ length) :
      (text.head? == some '=') = true := by
    cases text with
    | nil =>
        rw [List.length_nil] at hWithin
        omega
    | cons d text => exact hEquals
  have hOther (hEquals : ¬ ((text ++ more).head? == some '=') = true) :
      ¬ (text.head? == some '=') = true := by
    cases text with
    | nil => exact Bool.false_ne_true
    | cons d text => exact hEquals
  unfold readLexeme at h
  simp only [hQuote, hNumeral, hLetter, Bool.false_eq_true, if_false] at h
  split_ifs at h
  all_goals cases h
  all_goals subst_vars
  all_goals first
    | rfl
    | exact if_pos (hNext ‹_› (Nat.le_refl 1))
    | exact if_neg (hOther ‹_›)

end Stepwise.Guard
