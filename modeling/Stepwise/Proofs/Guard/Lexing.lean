import Mathlib.Data.List.TakeWhile
import Mathlib.Tactic.Common
import Stepwise.Guard.Token
import Stepwise.Proofs.Except

/-! The lexemes of a text that stands in a longer one. Blanks, parentheses and quotes continue no lexeme, so
a text before one of them splits as it does alone; and blanks around a text are not seen. Positions play no
part in how a text splits. -/
namespace Stepwise.Guard

/-! ### Ends of lexemes -/

/-- The text continues no lexeme that stands before it: it is empty, or begins with a blank, a parenthesis
or a quote. -/
def Separate (text : List Char) : Prop :=
  ∀ c ∈ text.head?, Text.isBlank c = true ∨ c = '(' ∨ c = ')' ∨ c = '\'' ∨ c = '"'

theorem separate_cons {c : Char} {rest : List Char} :
    Separate (c :: rest) ↔ Text.isBlank c = true ∨ c = '(' ∨ c = ')' ∨ c = '\'' ∨ c = '"' := by
  simp [Separate]

theorem separate_of_blank {text : List Char} (h : ∀ c ∈ text, Text.isBlank c = true) : Separate text :=
  fun c hc => .inl (h c (List.mem_of_mem_head? hc))

variable {rest : List Char}

/-- The first character of such a text is no part of a word, a number or an operator. -/
theorem Separate.head (h : Separate rest) {c : Char} (hc : c ∈ rest.head?) :
    isLetter c = false ∧ isDigit c = false ∧ c ≠ '=' ∧ c ≠ '.' ∧ c ≠ '+' ∧ c ≠ '-' := by
  have hNat : c.toNat = c.val.toNat := rfl
  rcases h c hc with hBlank | rfl | rfl | rfl | rfl
  · simp [Text.isBlank, isLetter, isDigit, Char.le_def, UInt32.le_iff_toNat_le, Char.ext_iff,
      UInt32.ext_iff] at *
    omega
  · decide
  · decide
  · decide
  · decide

/-- What a text takes while its characters have a property ends before a character without it. -/
theorem takeWhile_append_of_head {p : Char → Bool} (text : List Char)
    (h : ∀ c ∈ rest.head?, p c = false) : (text ++ rest).takeWhile p = text.takeWhile p := by
  induction text with
  | nil =>
      cases rest with
      | nil => rfl
      | cons c rest => simp [h c rfl]
  | cons c text ih => simp only [List.cons_append, List.takeWhile_cons, ih]

theorem Separate.takeWhile_isDigit (h : Separate rest) (text : List Char) :
    (text ++ rest).takeWhile isDigit = text.takeWhile isDigit :=
  takeWhile_append_of_head text fun _ hc => (h.head hc).2.1

theorem Separate.takeWhile_word (h : Separate rest) (text : List Char) :
    ((text ++ rest).takeWhile fun d => isLetter d || isDigit d) =
      text.takeWhile fun d => isLetter d || isDigit d :=
  takeWhile_append_of_head text fun _ hc => by rw [(h.head hc).1, (h.head hc).2.1, Bool.false_or]

theorem Separate.head?_beq_equals (h : Separate rest) (text : List Char) :
    ((text ++ rest).head? == some '=') = (text.head? == some '=') := by
  cases text with
  | cons c text => rfl
  | nil =>
      cases rest with
      | nil => rfl
      | cons c rest => simp [(h.head rfl).2.2.1]

/-! ### Numerals -/

theorem fractionLength_of_head_ne {text : List Char} (h : ∀ c ∈ text.head?, c ≠ '.') :
    fractionLength text = 0 := by
  unfold fractionLength
  split
  · exact absurd rfl (h '.' rfl)
  · rfl

theorem Separate.fractionLength_append (h : Separate rest) (text : List Char) :
    fractionLength (text ++ rest) = fractionLength text := by
  cases text with
  | nil => exact fractionLength_of_head_ne fun c hc => (h.head hc).2.2.2.1
  | cons c text =>
      by_cases hDot : c = '.'
      · subst hDot
        simp only [List.cons_append, fractionLength, h.takeWhile_isDigit]
      · rw [fractionLength_of_head_ne (by simpa using hDot), fractionLength_of_head_ne (by simpa using hDot)]

theorem fractionLength_le (text : List Char) : fractionLength text ≤ text.length := by
  unfold fractionLength
  split
  · rename_i text
    split
    · exact Nat.zero_le _
    · exact Nat.succ_le_succ (List.takeWhile_prefix _).length_le
  · exact Nat.zero_le _

/-- The length of a sign before the digits of an exponent. -/
def signLength : List Char → Nat
  | '+' :: _ | '-' :: _ => 1
  | _ => 0

theorem exponentLength_cons (c : Char) (text : List Char) :
    exponentLength (c :: text) =
      if c = 'e' ∨ c = 'E' then
        match (text.drop (signLength text)).takeWhile isDigit with
        | [] => 0
        | digits => digits.length + 1 + signLength text
      else 0 := rfl

theorem signLength_le (text : List Char) : signLength text ≤ text.length := by
  unfold signLength
  split
  · exact Nat.succ_le_succ (Nat.zero_le _)
  · exact Nat.succ_le_succ (Nat.zero_le _)
  · exact Nat.zero_le _

theorem Separate.signLength_append (h : Separate rest) (text : List Char) :
    signLength (text ++ rest) = signLength text := by
  cases text with
  | nil =>
      cases rest with
      | nil => rfl
      | cons c rest =>
          rw [List.nil_append, signLength]
          · rfl
          · exact fun _ hEq => (h.head rfl).2.2.2.2.1 (List.cons.inj hEq).1
          · exact fun _ hEq => (h.head rfl).2.2.2.2.2 (List.cons.inj hEq).1
  | cons c text =>
      unfold signLength
      split <;> split <;> simp_all

theorem Separate.exponentLength_append (h : Separate rest) (text : List Char) :
    exponentLength (text ++ rest) = exponentLength text := by
  cases text with
  | nil =>
      cases rest with
      | nil => rfl
      | cons c rest =>
          have hLetter : ¬ (c = 'e' ∨ c = 'E') := by
            rintro (rfl | rfl) <;> exact absurd (h.head rfl).1 (by decide)
          rw [List.nil_append, exponentLength_cons, if_neg hLetter]
          rfl
  | cons c text =>
      rw [List.cons_append, exponentLength_cons, exponentLength_cons, h.signLength_append,
        List.drop_append_of_le_length (signLength_le text), h.takeWhile_isDigit]

theorem exponentLength_le (text : List Char) : exponentLength text ≤ text.length := by
  cases text with
  | nil => exact Nat.zero_le _
  | cons c text =>
      have hSign := signLength_le text
      have hDigits := (List.takeWhile_prefix isDigit (l := text.drop (signLength text))).length_le
      rw [List.length_drop] at hDigits
      have hBound : ((text.drop (signLength text)).takeWhile isDigit).length + 1 + signLength text ≤
          text.length + 1 := by omega
      rw [exponentLength_cons, List.length_cons]
      split_ifs
      · split
        · exact Nat.zero_le _
        · exact hBound
      · exact Nat.zero_le _

/-- What a numeral consists of: how many characters its sign has, its digits before the point, the point
with digits after it, and the exponent with its mark. -/
structure NumeralParts where
  sign : Nat
  whole : List Char
  fraction : List Char
  exponent : List Char

namespace NumeralParts

/-- The parts of the numeral that a text begins with. -/
def ofText (text : List Char) : NumeralParts :=
  let sign := if text.head? = some '-' then 1 else 0
  let unsigned := text.drop sign
  let whole := unsigned.takeWhile isDigit
  let afterWhole := unsigned.drop whole.length
  let fraction := afterWhole.take (fractionLength afterWhole)
  let afterFraction := afterWhole.drop fraction.length
  ⟨sign, whole, fraction, afterFraction.take (exponentLength afterFraction)⟩

def length (p : NumeralParts) : Nat :=
  p.sign + p.whole.length + p.fraction.length + p.exponent.length

theorem minus_length_le (text : List Char) : (if text.head? = some '-' then 1 else 0) ≤ text.length := by
  split_ifs with hMinus
  · exact List.length_pos_iff.mpr fun hNil => by simp [hNil] at hMinus
  · exact Nat.zero_le _

/-- The length is computed on the text of the numeral only. -/
theorem length_ofText_le (text : List Char) : (ofText text).length ≤ text.length := by
  have hSign := minus_length_le text
  simp only [ofText, length]
  generalize (if text.head? = some '-' then 1 else 0) = sign at hSign ⊢
  have hWhole := (List.takeWhile_prefix isDigit (l := text.drop sign)).length_le
  generalize ((text.drop sign).takeWhile isDigit).length = whole at hWhole ⊢
  simp only [List.length_take, List.length_drop] at hWhole ⊢
  omega

theorem ofText_append (h : Separate rest) {text : List Char} (hText : text ≠ []) :
    ofText (text ++ rest) = ofText text := by
  have hHead : (text ++ rest).head? = text.head? := by
    obtain ⟨c, others, rfl⟩ := List.exists_cons_of_ne_nil hText
    rfl
  have hSign := minus_length_le text
  simp only [ofText, hHead]
  generalize (if text.head? = some '-' then 1 else 0) = sign at hSign ⊢
  rw [List.drop_append_of_le_length hSign, h.takeWhile_isDigit]
  have hWhole := (List.takeWhile_prefix isDigit (l := text.drop sign)).length_le
  generalize (text.drop sign).takeWhile isDigit = whole at hWhole ⊢
  rw [List.drop_append_of_le_length hWhole, h.fractionLength_append,
    List.take_append_of_le_length (fractionLength_le _)]
  have hFraction : ((((text.drop sign).drop whole.length)).take
      (fractionLength ((text.drop sign).drop whole.length))).length ≤
        ((text.drop sign).drop whole.length).length := List.length_take_le' _ _
  rw [List.drop_append_of_le_length hFraction, h.exponentLength_append,
    List.take_append_of_le_length (exponentLength_le _)]

end NumeralParts

theorem readNumber_eq (text : List Char) :
    readNumber text =
      let p := NumeralParts.ofText text
      if p.whole.isEmpty then .error (.minusWithoutNumber, 0)
      else
        match numberOf? (p.sign == 1) p.whole p.fraction p.exponent with
        | some value => .ok (.number value, p.length - 1)
        | none => .error (.invalidNumber (String.ofList (text.take p.length)), 0) := rfl

/-- A numeral before such a text is read as it is alone. -/
theorem Separate.readNumber_append (h : Separate rest) {text : List Char} (hText : text ≠ []) :
    readNumber (text ++ rest) = readNumber text := by
  rw [readNumber_eq, readNumber_eq, NumeralParts.ofText_append h hText]
  dsimp only
  rw [List.take_append_of_le_length (NumeralParts.length_ofText_le text)]

theorem length_le_of_readNumber {c : Char} {text : List Char} {lexeme : Lexeme} {length : Nat}
    (h : readNumber (c :: text) = .ok (lexeme, length)) : length ≤ text.length := by
  have hParts := NumeralParts.length_ofText_le (c :: text)
  rw [readNumber_eq] at h
  dsimp only at h
  split_ifs at h
  split at h
  · cases h
    rw [List.length_cons] at hParts
    omega
  · cases h

/-! ### Strings -/

theorem readString_end (quote : Char) (read : List Char) (length offset : Nat) (text : List Char) :
    readString quote read length offset (quote :: text) =
      .ok (.string (String.ofList read.reverse), length + 1) := by
  rw [readString.eq_def]
  simp

theorem readString_other {quote c : Char} (hEnd : c ≠ quote) (hBackslash : c ≠ '\\') (read : List Char)
    (length offset : Nat) (text : List Char) :
    readString quote read length offset (c :: text) =
      readString quote (c :: read) (length + 1) (offset + c.utf8Size) text := by
  rw [readString.eq_def]
  simp [hEnd, hBackslash]

/-- A closed string is read alike whatever stands behind it. -/
theorem readString_append {quote : Char} {read : List Char} {length offset : Nat} {text : List Char}
    {found : Found} (h : readString quote read length offset text = .ok found) (rest : List Char) :
    readString quote read length offset (text ++ rest) = .ok found := by
  fun_induction readString quote read length offset text with
  | case1 | case3 | case7 => cases h
  | case2 =>
      cases h
      exact readString_end ..
  | case4 read length offset e text hEscape hQuote ih => simp [readString, hQuote, hEscape, ih h]
  | case5 read length offset text hQuote _ ih => simp [readString, hQuote, ih h]
  | case6 read length offset text hQuote _ _ ih => simp [readString, hQuote, ih h]
  | case8 read length offset c text hQuote hBackslash ih =>
      rw [List.cons_append, readString_other hQuote hBackslash, ih h]

theorem length_le_of_readString {quote : Char} {read : List Char} {length offset : Nat}
    {text : List Char} {lexeme : Lexeme} {width : Nat}
    (h : readString quote read length offset text = .ok (lexeme, width)) :
    width ≤ length + text.length := by
  fun_induction readString quote read length offset text with
  | case1 | case3 | case7 => cases h
  | case2 =>
      cases h
      simp
  | case4 read length offset e text _ _ ih | case5 read length offset text _ _ ih
  | case6 read length offset text _ _ _ ih | case8 read length offset c text _ _ ih =>
      have hRest := ih h
      simp only [List.length_cons]
      omega

/-- Blanks close no string. -/
theorem readString_blank {quote : Char} (hQuote : Text.isBlank quote = false) {read : List Char}
    {length offset : Nat} {text : List Char} (hText : ∀ c ∈ text, Text.isBlank c = true) {found : Found} :
    readString quote read length offset text ≠ .ok found := by
  induction text generalizing read length offset with
  | nil => nofun
  | cons c text ih =>
      have hBlank := hText c List.mem_cons_self
      have hEnd : c ≠ quote := by
        rintro rfl
        rw [hBlank] at hQuote
        cases hQuote
      have hEscape : c ≠ '\\' := by
        rintro rfl
        cases hBlank
      rw [readString_other hEnd hEscape]
      exact ih fun d hd => hText d (List.mem_cons_of_mem _ hd)

theorem readString_of_append_blank {quote : Char} (hQuote : Text.isBlank quote = false)
    {read : List Char} {length offset : Nat} {text : List Char} {found : Found} {rest : List Char}
    (hRest : ∀ c ∈ rest, Text.isBlank c = true)
    (h : readString quote read length offset (text ++ rest) = .ok found) :
    readString quote read length offset text = .ok found := by
  fun_induction readString quote read length offset text with
  | case1 => exact absurd h (readString_blank hQuote hRest)
  | case2 =>
      rw [List.cons_append, readString_end] at h
      exact h
  | case3 read length offset hEnd =>
      cases rest with
      | nil => simp [readString, hEnd] at h
      | cons c rest =>
          have hBlank := hRest c List.mem_cons_self
          have hEscape : ¬ (c = '\\' ∨ c = '\'' ∨ c = '"') ∧ c ≠ 'n' ∧ c ≠ 't' := by
            refine ⟨?_, ?_, ?_⟩
            · rintro (rfl | rfl | rfl) <;> cases hBlank
            · rintro rfl
              cases hBlank
            · rintro rfl
              cases hBlank
          simp [readString, hEnd, hEscape] at h
  | case4 read length offset e text hEscape hEnd ih =>
      simp [readString, hEnd, hEscape] at h
      exact ih h
  | case5 read length offset text hEnd _ ih =>
      simp [readString, hEnd] at h
      exact ih h
  | case6 read length offset text hEnd _ _ ih =>
      simp [readString, hEnd] at h
      exact ih h
  | case7 read length offset e text hEscape hN hT hEnd => simp [readString, hEnd, hEscape, hN, hT] at h
  | case8 read length offset c text hEnd hBackslash ih =>
      rw [List.cons_append, readString_other hEnd hBackslash] at h
      exact ih h

/-! ### Single lexemes -/

theorem readLexeme_quote (afterDot : Bool) {c : Char} (hc : c = '\'' ∨ c = '"') (text : List Char) :
    readLexeme afterDot c text = readString c [] 0 1 text := by
  rcases hc with rfl | rfl <;> rfl

theorem readLexeme_numeral (afterDot : Bool) {c : Char} (hc : isDigit c = true ∨ c = '-')
    (text : List Char) : readLexeme afterDot c text = readNumber (c :: text) := by
  have hNe {d : Char} (hd : ¬ (isDigit d = true ∨ d = '-')) : c ≠ d := fun hEq => hd (hEq ▸ hc)
  unfold readLexeme
  rw [if_neg (hNe (by decide)), if_neg (hNe (by decide)), if_neg (hNe (by decide)),
    if_neg (hNe (by decide)), if_neg (hNe (by decide)), if_neg (hNe (by decide)),
    if_neg (hNe (by decide)), if_neg (not_or.mpr ⟨hNe (by decide), hNe (by decide)⟩), if_pos hc]

theorem not_numeral_of_isLetter {c : Char} (hc : isLetter c = true) : ¬ (isDigit c = true ∨ c = '-') := by
  rintro (hDigit | rfl)
  · simp [isLetter, isDigit, Char.le_def, UInt32.le_iff_toNat_le, Char.ext_iff, UInt32.ext_iff] at *
    omega
  · cases hc

theorem readLexeme_word (afterDot : Bool) {c : Char} (hc : isLetter c = true) (text : List Char) :
    readLexeme afterDot c text =
      .ok (lexemeOfWord afterDot (String.ofList (c :: text.takeWhile fun d => isLetter d || isDigit d)),
        (text.takeWhile fun d => isLetter d || isDigit d).length) := by
  have hNe {d : Char} (hd : isLetter d = false) : c ≠ d := by
    rintro rfl
    rw [hc] at hd
    cases hd
  unfold readLexeme
  rw [if_neg (hNe rfl), if_neg (hNe rfl), if_neg (hNe rfl), if_neg (hNe rfl), if_neg (hNe rfl),
    if_neg (hNe rfl), if_neg (hNe rfl), if_neg (not_or.mpr ⟨hNe rfl, hNe rfl⟩),
    if_neg (not_numeral_of_isLetter hc), if_pos hc]

/-- A lexeme before such a text is read as it is alone, but for strings, which must be closed. -/
theorem Separate.readLexeme_append (h : Separate rest) (afterDot : Bool) {c : Char}
    (hc : ¬ (c = '\'' ∨ c = '"')) (text : List Char) :
    readLexeme afterDot c (text ++ rest) = readLexeme afterDot c text := by
  unfold readLexeme
  rw [h.head?_beq_equals, ← List.cons_append, h.readNumber_append (List.cons_ne_nil c text),
    h.takeWhile_word]
  simp only [if_neg hc]

theorem readLexeme_append_of_ok (h : Separate rest) {afterDot : Bool} {c : Char} {text : List Char}
    {found : Found} (hRead : readLexeme afterDot c text = .ok found) :
    readLexeme afterDot c (text ++ rest) = .ok found := by
  by_cases hc : c = '\'' ∨ c = '"'
  · rw [readLexeme_quote afterDot hc] at hRead ⊢
    exact readString_append hRead rest
  · rw [h.readLexeme_append afterDot hc, hRead]

theorem readLexeme_of_append_blank (hRest : ∀ c ∈ rest, Text.isBlank c = true) {afterDot : Bool}
    {c : Char} {text : List Char} {found : Found}
    (hRead : readLexeme afterDot c (text ++ rest) = .ok found) :
    readLexeme afterDot c text = .ok found := by
  by_cases hc : c = '\'' ∨ c = '"'
  · rw [readLexeme_quote afterDot hc] at hRead ⊢
    have hQuote : Text.isBlank c = false := by rcases hc with rfl | rfl <;> rfl
    exact readString_of_append_blank hQuote hRest hRead
  · rwa [(separate_of_blank hRest).readLexeme_append afterDot hc] at hRead

/-- A lexeme lies within its text. -/
theorem length_le_of_readLexeme {afterDot : Bool} {c : Char} {text : List Char} {lexeme : Lexeme}
    {length : Nat} (h : readLexeme afterDot c text = .ok (lexeme, length)) : length ≤ text.length := by
  by_cases hc : c = '\'' ∨ c = '"'
  · rw [readLexeme_quote afterDot hc] at h
    simpa using length_le_of_readString h
  · have hNext : (text.head? == some '=') = true → 1 ≤ text.length := by
      cases text <;> simp
    unfold readLexeme at h
    dsimp only at h
    repeat' split at h
    any_goals cases h
    any_goals exact Nat.zero_le _
    any_goals exact hNext ‹_›
    · exact length_le_of_readNumber h
    · exact (List.takeWhile_prefix _).length_le

/-! ### Texts -/

/-- The text splits into these lexemes; `afterDot` tells whether a dot stands before it. -/
inductive Lexes : (afterDot : Bool) → List Char → List Lexeme → Prop where
  | nil {afterDot : Bool} : Lexes afterDot [] []
  | blank {afterDot : Bool} {c : Char} {text : List Char} {lexemes : List Lexeme}
      (hBlank : Text.isBlank c = true) (hText : Lexes afterDot text lexemes) :
      Lexes afterDot (c :: text) lexemes
  | lexeme {afterDot : Bool} {c : Char} {text : List Char} {lexeme : Lexeme} {length : Nat}
      {lexemes : List Lexeme} (hVisible : Text.isBlank c = false)
      (hRead : readLexeme afterDot c text = .ok (lexeme, length))
      (hText : Lexes (lexeme == .dot) (text.drop length) lexemes) :
      Lexes afterDot (c :: text) (lexeme :: lexemes)

theorem Lexes.exists_tokensFrom {afterDot : Bool} {text : List Char} {lexemes : List Lexeme}
    (h : Lexes afterDot text lexemes) (position : Nat) :
    ∃ tokens, tokensFrom position afterDot text = .ok tokens ∧ tokens.map Token.lexeme = lexemes := by
  induction h generalizing position with
  | nil =>
      rw [tokensFrom]
      exact ⟨[], rfl, rfl⟩
  | blank hBlank hText ih =>
      rw [tokensFrom, if_pos hBlank]
      exact ih _
  | @lexeme afterDot c text lexeme length lexemes hVisible hRead hText ih =>
      obtain ⟨tokens, hTokens, hLexemes⟩ :=
        ih (position + (c.utf8Size + Text.byteLength (text.take length)))
      refine ⟨⟨lexeme, position⟩ :: tokens, ?_, by rw [List.map_cons, hLexemes]⟩
      rw [tokensFrom, if_neg (by simp [hVisible]), hRead]
      dsimp only
      rw [hTokens]
      rfl

/-- Splitting a text into tokens reads its lexemes, wherever it starts. -/
theorem lexes_of_tokensFrom {text : List Char} : ∀ {position : Nat} {afterDot : Bool} {tokens : List Token},
    tokensFrom position afterDot text = .ok tokens → Lexes afterDot text (tokens.map Token.lexeme) := by
  induction hLength : text.length using Nat.strongRecOn generalizing text with
  | ind n ih =>
      intro position afterDot tokens h
      cases text with
      | nil =>
          rw [tokensFrom] at h
          cases h
          exact .nil
      | cons c text =>
          rw [tokensFrom] at h
          cases hBlank : Text.isBlank c with
          | true =>
              rw [if_pos hBlank] at h
              exact .blank hBlank (ih _ (by simp [← hLength]) rfl h)
          | false =>
              rw [if_neg (by simp [hBlank])] at h
              split at h
              · cases h
              · rename_i lexeme length hRead
                obtain ⟨others, hRest, h⟩ := bind_eq_ok_iff.mp h
                cases h
                refine .lexeme hBlank hRead (ih _ ?_ rfl hRest)
                rw [← hLength, List.length_drop, List.length_cons]
                omega

/-- Whether a dot stands before what follows the lexemes. -/
def endsInDot (afterDot : Bool) (lexemes : List Lexeme) : Bool :=
  lexemes.foldl (fun _ lexeme => lexeme == .dot) afterDot

/-- Two texts in a row split into the lexemes of the first and then those of the second, unless the second
continues a lexeme. -/
theorem Lexes.append {afterDot : Bool} {text rest : List Char} {lexemes more : List Lexeme}
    (h : Lexes afterDot text lexemes) (hRest : Separate rest)
    (hMore : Lexes (endsInDot afterDot lexemes) rest more) :
    Lexes afterDot (text ++ rest) (lexemes ++ more) := by
  induction h with
  | nil => exact hMore
  | blank hBlank hText ih => exact .blank hBlank (ih hMore)
  | @lexeme afterDot c text lexeme length lexemes hVisible hRead hText ih =>
      rw [List.cons_append, List.cons_append]
      refine .lexeme hVisible (readLexeme_append_of_ok hRest hRead) ?_
      rw [List.drop_append_of_le_length (length_le_of_readLexeme hRead)]
      exact ih hMore

/-! ### Blanks around a text -/

theorem lexes_of_blank {text : List Char} (h : ∀ c ∈ text, Text.isBlank c = true) (afterDot : Bool) :
    Lexes afterDot text [] := by
  induction text with
  | nil => exact .nil
  | cons c text ih =>
      exact .blank (h c List.mem_cons_self) (ih fun d hd => h d (List.mem_cons_of_mem _ hd))

theorem lexes_blank_cons_iff {afterDot : Bool} {c : Char} (hBlank : Text.isBlank c = true)
    {text : List Char} {lexemes : List Lexeme} :
    Lexes afterDot (c :: text) lexemes ↔ Lexes afterDot text lexemes := by
  refine ⟨fun h => ?_, .blank hBlank⟩
  cases h with
  | blank _ hText => exact hText
  | lexeme hVisible _ _ =>
      rw [hBlank] at hVisible
      cases hVisible

theorem lexes_blank_append_iff {afterDot : Bool} {front text : List Char} {lexemes : List Lexeme}
    (hFront : ∀ c ∈ front, Text.isBlank c = true) :
    Lexes afterDot (front ++ text) lexemes ↔ Lexes afterDot text lexemes := by
  induction front with
  | nil => rfl
  | cons c front ih =>
      rw [List.cons_append, lexes_blank_cons_iff (hFront c List.mem_cons_self)]
      exact ih fun d hd => hFront d (List.mem_cons_of_mem _ hd)

theorem lexes_append_blank_iff {afterDot : Bool} {text rest : List Char} {lexemes : List Lexeme}
    (hRest : ∀ c ∈ rest, Text.isBlank c = true) :
    Lexes afterDot (text ++ rest) lexemes ↔ Lexes afterDot text lexemes := by
  constructor
  · intro h
    generalize hWhole : text ++ rest = whole at h
    induction h generalizing text rest with
    | nil =>
        rw [(List.append_eq_nil_iff.mp hWhole).1]
        exact .nil
    | blank hBlank hText ih =>
        cases text with
        | nil =>
            obtain rfl : rest = _ := hWhole
            exact ih (fun c hc => hRest c (List.mem_cons_of_mem _ hc)) (List.nil_append _)
        | cons c text =>
            obtain ⟨rfl, hTail⟩ := List.cons.inj hWhole
            exact .blank hBlank (ih hRest hTail)
    | lexeme hVisible hRead hText ih =>
        cases text with
        | nil =>
            obtain rfl : rest = _ := hWhole
            rw [hRest _ List.mem_cons_self] at hVisible
            cases hVisible
        | cons c text =>
            obtain ⟨rfl, rfl⟩ := List.cons.inj hWhole
            have hAlone := readLexeme_of_append_blank hRest hRead
            refine .lexeme hVisible hAlone (ih hRest ?_)
            exact (List.drop_append_of_le_length (length_le_of_readLexeme hAlone)).symm
  · intro h
    have hAll := h.append (separate_of_blank hRest) (lexes_of_blank hRest _)
    rwa [List.append_nil] at hAll

/-- Trimming a text changes none of its lexemes. -/
theorem lexes_trimChars_iff {afterDot : Bool} {text : List Char} {lexemes : List Lexeme} :
    Lexes afterDot (Text.trimChars text) lexemes ↔ Lexes afterDot text lexemes := by
  have hFront : text = text.takeWhile Text.isBlank ++ text.dropWhile Text.isBlank :=
    List.takeWhile_append_dropWhile.symm
  have hBack : text.dropWhile Text.isBlank = Text.trimChars text ++
      ((text.dropWhile Text.isBlank).reverse.takeWhile Text.isBlank).reverse := by
    rw [Text.trimChars, ← List.reverse_append, List.takeWhile_append_dropWhile, List.reverse_reverse]
  conv_rhs => rw [hFront, lexes_blank_append_iff fun c hc => List.mem_takeWhile_imp hc, hBack]
  rw [lexes_append_blank_iff fun c hc => List.mem_takeWhile_imp (List.mem_reverse.mp hc)]

end Stepwise.Guard
