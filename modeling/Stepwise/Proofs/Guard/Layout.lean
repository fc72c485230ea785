import Mathlib.Data.List.Forall2
import Stepwise.Proofs.Guard.Extent

/-! How the lexemes lie in a text. A text that splits into tokens is made of gaps of blanks and of lexemes, in
turn, and a token is placed at the first byte of its lexeme. What is read as a lexeme is decided before the
next blank, so more blanks between two lexemes and other blanks in a gap leave the lexemes as they are. A
text that does not split is refused at one of its characters. -/
namespace Stepwise.Guard

/-! ### Pieces -/

/-- A lexeme as it is spelled, and the blanks before it. -/
structure Piece where
  gap : List Char
  spelled : List Char

/-- The text of the pieces with the blanks behind them. -/
def joined : List Piece → (last : List Char) → List Char
  | [], last => last
  | p :: pieces, last => p.gap ++ (p.spelled ++ joined pieces last)

/-- The byte at which each lexeme starts, where the pieces start at `position`. -/
def starts (position : Nat) : List Piece → List Nat
  | [] => []
  | p :: pieces =>
    let start := position + Text.byteLength p.gap
    start :: starts (start + Text.byteLength p.spelled) pieces

/-- Every piece is read, in its place, as its lexeme. -/
inductive Laid : (afterDot : Bool) → List Piece → (last : List Char) → List Lexeme → Prop where
  | nil {afterDot : Bool} {last : List Char} (hLast : ∀ c ∈ last, Text.isBlank c = true) :
      Laid afterDot [] last []
  | cons {afterDot : Bool} {gap : List Char} {c : Char} {rest last : List Char} {pieces : List Piece}
      {lexeme : Lexeme} {lexemes : List Lexeme} (hGap : ∀ c ∈ gap, Text.isBlank c = true)
      (hVisible : Text.isBlank c = false)
      (hRead : readLexeme afterDot c (rest ++ joined pieces last) = .ok (lexeme, rest.length))
      (hPieces : Laid (lexeme == .dot) pieces last lexemes) :
      Laid afterDot (⟨gap, c :: rest⟩ :: pieces) last (lexeme :: lexemes)

theorem Laid.blank {afterDot : Bool} {pieces : List Piece} {last : List Char} {lexemes : List Lexeme}
    {c : Char} (hBlank : Text.isBlank c = true) (h : Laid afterDot pieces last lexemes) :
    ∃ pieces' last', joined pieces' last' = c :: joined pieces last ∧
      Laid afterDot pieces' last' lexemes := by
  cases h with
  | nil hLast => exact ⟨[], c :: last, rfl, .nil (List.forall_mem_cons.mpr ⟨hBlank, hLast⟩)⟩
  | @cons _ gap d rest _ pieces lexeme lexemes hGap hVisible hRead hPieces =>
      exact ⟨⟨c :: gap, d :: rest⟩ :: pieces, last, rfl,
        .cons (List.forall_mem_cons.mpr ⟨hBlank, hGap⟩) hVisible hRead hPieces⟩

/-- A text with lexemes is laid out in pieces. -/
theorem Lexes.exists_laid {afterDot : Bool} {text : List Char} {lexemes : List Lexeme}
    (h : Lexes afterDot text lexemes) :
    ∃ pieces last, joined pieces last = text ∧ Laid afterDot pieces last lexemes := by
  induction h with
  | nil => exact ⟨[], [], rfl, .nil nofun⟩
  | blank hBlank _ ih =>
      obtain ⟨pieces, last, rfl, hLaid⟩ := ih
      exact hLaid.blank hBlank
  | @lexeme afterDot c text lexeme length lexemes hVisible hRead _ ih =>
      obtain ⟨pieces, last, hRest, hLaid⟩ := ih
      have hLength : (text.take length).length = length :=
        List.length_take_of_le (length_le_of_readLexeme hRead)
      refine ⟨⟨[], c :: text.take length⟩ :: pieces, last, ?_, .cons nofun hVisible ?_ hLaid⟩
      · simp [joined, hRest]
      · rw [hRest, List.take_append_drop, hLength, hRead]

/-! ### Tokens of pieces -/

theorem tokensFrom_blank_append {gap : List Char} (hGap : ∀ c ∈ gap, Text.isBlank c = true)
    (position : Nat) (afterDot : Bool) (text : List Char) :
    tokensFrom position afterDot (gap ++ text) =
      tokensFrom (position + Text.byteLength gap) afterDot text := by
  induction gap generalizing position with
  | nil => rfl
  | cons c gap ih =>
      rw [List.cons_append, tokensFrom, if_pos (hGap c List.mem_cons_self),
        ih (fun d hd => hGap d (List.mem_cons_of_mem _ hd)), Text.byteLength_cons, Nat.add_assoc]

theorem tokensFrom_lexeme_append {afterDot : Bool} {c : Char} (hVisible : Text.isBlank c = false)
    {rest text : List Char} {lexeme : Lexeme}
    (hRead : readLexeme afterDot c (rest ++ text) = .ok (lexeme, rest.length)) (position : Nat) :
    tokensFrom position afterDot (c :: rest ++ text) =
      (tokensFrom (position + Text.byteLength (c :: rest)) (lexeme == .dot) text).map
        (⟨lexeme, position⟩ :: ·) := by
  rw [List.cons_append, tokensFrom, if_neg (by simp [hVisible]), hRead]
  dsimp only
  rw [List.take_left, List.drop_left, Text.byteLength_cons]
  cases tokensFrom (position + (c.utf8Size + Text.byteLength rest)) (lexeme == .dot) text <;> rfl

/-- Pieces before a text that continues none of them have their tokens before those of the text. -/
theorem Laid.tokensFrom_append {afterDot : Bool} {pieces : List Piece} {last : List Char}
    {lexemes : List Lexeme} (h : Laid afterDot pieces last lexemes) {text : List Char}
    (hText : Separate text) (position : Nat) :
    tokensFrom position afterDot (joined pieces last ++ text) =
      (tokensFrom (position + Text.byteLength (joined pieces last)) (endsInDot afterDot lexemes) text).map
        (List.zipWith Token.mk lexemes (starts position pieces) ++ ·) := by
  induction h generalizing position with
  | nil hLast =>
      rw [joined, tokensFrom_blank_append hLast]
      exact (congrFun Except.map_id _).symm
  | @cons afterDot gap c rest last pieces lexeme lexemes hGap hVisible hRead hPieces ih =>
      have hMore := readLexeme_append_of_ok hText hRead
      rw [List.append_assoc] at hMore
      have hLength : position + Text.byteLength (gap ++ (c :: rest ++ joined pieces last)) =
          position + Text.byteLength gap + Text.byteLength (c :: rest) +
            Text.byteLength (joined pieces last) := by
        rw [Text.byteLength_append, Text.byteLength_append]
        omega
      rw [joined, List.append_assoc, List.append_assoc, tokensFrom_blank_append hGap,
        tokensFrom_lexeme_append hVisible hMore, ih, map_map, hLength]
      rfl

/-- The tokens of pieces that nothing follows. -/
theorem Laid.tokensFrom_eq {afterDot : Bool} {pieces : List Piece} {last : List Char}
    {lexemes : List Lexeme} (h : Laid afterDot pieces last lexemes) (position : Nat) :
    tokensFrom position afterDot (joined pieces last) =
      .ok (List.zipWith Token.mk lexemes (starts position pieces)) := by
  have hEnd : Separate [] := nofun
  have hAll := h.tokensFrom_append hEnd position
  rw [List.append_nil, tokensFrom] at hAll
  rw [hAll, Except.map, List.append_nil]

/-! ### Lexemes by themselves -/

/-- The characters are a lexeme from the first to the last; `afterDot` tells whether a dot stands before. -/
def SpelledAs (afterDot : Bool) (spelled : List Char) (lexeme : Lexeme) : Prop :=
  ∃ c rest, spelled = c :: rest ∧ Text.isBlank c = false ∧
    readLexeme afterDot c rest = .ok (lexeme, rest.length)

/-- There is something, and no blank at either end. -/
structure Solid (spelled : List Char) : Prop where
  nonempty : spelled ≠ []
  first : ∀ c ∈ spelled.head?, Text.isBlank c = false
  last : ∀ c ∈ spelled.getLast?, Text.isBlank c = false

/-- A lexeme does not end with a blank, since it would be read without the blank too. -/
theorem SpelledAs.solid {afterDot : Bool} {spelled : List Char} {lexeme : Lexeme}
    (h : SpelledAs afterDot spelled lexeme) : Solid spelled := by
  obtain ⟨c, rest, rfl, hVisible, hRead⟩ := h
  refine ⟨List.cons_ne_nil _ _, ?_, fun d hd => ?_⟩
  · rintro _ ⟨⟩
    exact hVisible
  · rcases List.eq_nil_or_concat rest with rfl | ⟨front, d', rfl⟩
    · cases hd
      exact hVisible
    · rw [List.concat_eq_append] at hd hRead
      rw [← List.cons_append, List.getLast?_concat] at hd
      cases hd
      refine Bool.eq_false_iff.mpr fun hBlank => ?_
      have hShort := readLexeme_of_append_blank (by simpa using hBlank) hRead
      have hLength := length_le_of_readLexeme hShort
      rw [List.length_append, List.length_singleton] at hLength
      omega

theorem Laid.spelledAs {afterDot : Bool} {pieces : List Piece} {last : List Char}
    {lexemes : List Lexeme} (h : Laid afterDot pieces last lexemes) :
    List.Forall₂ (fun p lexeme => ∃ afterDot, SpelledAs afterDot p.spelled lexeme) pieces lexemes := by
  induction h with
  | nil => exact .nil
  | @cons afterDot gap c rest last pieces lexeme lexemes hGap hVisible hRead hPieces ih =>
      exact .cons ⟨afterDot, c, rest, rfl, hVisible, readLexeme_of_append hRead (Nat.le_refl _)⟩ ih

theorem Laid.blanks {afterDot : Bool} {pieces : List Piece} {last : List Char}
    {lexemes : List Lexeme} (h : Laid afterDot pieces last lexemes) :
    (∀ p ∈ pieces, ∀ c ∈ p.gap, Text.isBlank c = true) ∧ ∀ c ∈ last, Text.isBlank c = true := by
  induction h with
  | nil hLast => exact ⟨nofun, hLast⟩
  | cons hGap _ _ _ ih => exact ⟨List.forall_mem_cons.mpr ⟨hGap, ih.1⟩, ih.2⟩

/-! ### Positions -/

theorem Laid.tokens_eq {afterDot : Bool} {pieces : List Piece} {last : List Char}
    {lexemes : List Lexeme} (h : Laid afterDot pieces last lexemes) (position : Nat) :
    (List.zipWith Token.mk lexemes (starts position pieces)).map Token.lexeme = lexemes ∧
      (List.zipWith Token.mk lexemes (starts position pieces)).map Token.position =
        starts position pieces := by
  induction h generalizing position with
  | nil => exact ⟨rfl, rfl⟩
  | @cons afterDot gap c rest last pieces lexeme lexemes hGap hVisible hRead hPieces ih =>
      obtain ⟨hLexemes, hPositions⟩ := ih (position + Text.byteLength gap + Text.byteLength (c :: rest))
      simp only [starts, List.zipWith_cons_cons, List.map_cons, hLexemes, hPositions, and_self]

/-- Where the lexemes start, and where the text ends. -/
def marks (position : Nat) (pieces : List Piece) (last : List Char) : List Nat :=
  starts position pieces ++ [position + Text.byteLength (joined pieces last)]

theorem marks_cons (position : Nat) (p : Piece) (pieces : List Piece) (last : List Char) :
    marks position (p :: pieces) last =
      (position + Text.byteLength p.gap) ::
        marks (position + Text.byteLength p.gap + Text.byteLength p.spelled) pieces last := by
  have hEnd : position + Text.byteLength (joined (p :: pieces) last) =
      position + Text.byteLength p.gap + Text.byteLength p.spelled +
        Text.byteLength (joined pieces last) := by
    rw [joined, Text.byteLength_append, Text.byteLength_append]
    omega
  rw [marks, marks, starts, hEnd]
  rfl

theorem le_of_mem_marks {pieces : List Piece} {last : List Char} {position mark : Nat}
    (h : mark ∈ marks position pieces last) : position ≤ mark := by
  induction pieces generalizing position with
  | nil =>
      rw [marks, starts, List.nil_append, List.mem_singleton] at h
      omega
  | cons p pieces ih =>
      rw [marks_cons, List.mem_cons] at h
      rcases h with rfl | h
      · omega
      · have hLater := ih h
        omega

theorem byteLength_pos {spelled : List Char} (h : spelled ≠ []) : 0 < Text.byteLength spelled := by
  obtain ⟨c, rest, rfl⟩ := List.exists_cons_of_ne_nil h
  have hFirst := c.utf8Size_pos
  rw [Text.byteLength_cons]
  omega

/-- Each lexeme starts behind the one before it, and the end is behind all of them. -/
theorem marks_increasing {pieces : List Piece} (h : ∀ p ∈ pieces, p.spelled ≠ []) (last : List Char)
    (position : Nat) : (marks position pieces last).Pairwise (· < ·) := by
  induction pieces generalizing position with
  | nil => exact List.pairwise_singleton _ _
  | cons p pieces ih =>
      obtain ⟨hFirst, hRest⟩ := List.forall_mem_cons.mp h
      rw [marks_cons]
      refine List.pairwise_cons.mpr ⟨fun mark hMark => ?_, ih hRest _⟩
      have hBehind := le_of_mem_marks hMark
      have hSome := byteLength_pos hFirst
      omega

/-! ### Other blanks -/

/-- The piece has the same lexeme with other blanks before it, and where there were blanks there still are. -/
structure Piece.Respaces (p p' : Piece) : Prop where
  spelled : p'.spelled = p.spelled
  blank : ∀ c ∈ p'.gap, Text.isBlank c = true
  kept : p.gap ≠ [] → p'.gap ≠ []

/-- What stands behind a lexeme is the same up to a point where there are other blanks. -/
theorem exists_shared {pieces pieces' : List Piece} (h : List.Forall₂ Piece.Respaces pieces pieces')
    (last : List Char) {last' : List Char} (hLast : ∀ c ∈ last', Text.isBlank c = true) :
    ∃ shared rest rest', joined pieces last = shared ++ rest ∧ joined pieces' last' = shared ++ rest' ∧
      Separate rest' := by
  induction h with
  | nil => exact ⟨[], last, last', rfl, rfl, separate_of_blank hLast⟩
  | @cons p p' pieces pieces' hPiece _ ih =>
      cases hGap : p'.gap with
      | cons c gap =>
          have hBlank := hPiece.blank c (hGap ▸ List.mem_cons_self)
          refine ⟨[], _, joined (p' :: pieces') last', rfl, rfl, ?_⟩
          rw [joined, hGap]
          exact separate_cons.mpr (.inl hBlank)
      | nil =>
          have hNone : p.gap = [] := by
            by_contra hSome
            exact hPiece.kept hSome hGap
          obtain ⟨shared, rest, rest', hJoined, hJoined', hSeparate⟩ := ih
          refine ⟨p.spelled ++ shared, rest, rest', ?_, ?_, hSeparate⟩
          · rw [joined, hNone, hJoined, List.nil_append, List.append_assoc]
          · rw [joined, hGap, hJoined', hPiece.spelled, List.nil_append, List.append_assoc]

/-- With other blanks every piece is read as before. -/
theorem Laid.respaced {afterDot : Bool} {pieces pieces' : List Piece} {last last' : List Char}
    {lexemes : List Lexeme} (h : Laid afterDot pieces last lexemes)
    (hPieces : List.Forall₂ Piece.Respaces pieces pieces')
    (hLast : ∀ c ∈ last', Text.isBlank c = true) : Laid afterDot pieces' last' lexemes := by
  induction h generalizing pieces' with
  | nil =>
      cases hPieces
      exact .nil hLast
  | @cons afterDot gap c rest last pieces lexeme lexemes hGap hVisible hRead _ ih =>
      cases hPieces with
      | @cons _ p' _ pieces' hPiece hMore =>
          obtain ⟨gap', spelled'⟩ := p'
          obtain rfl : spelled' = c :: rest := hPiece.spelled
          obtain ⟨shared, tail, tail', hJoined, hJoined', hSeparate⟩ := exists_shared hMore last hLast
          refine .cons hPiece.blank hVisible ?_ (ih hMore)
          rw [hJoined, ← List.append_assoc] at hRead
          rw [hJoined', ← List.append_assoc]
          have hWithin := readLexeme_of_append hRead (by rw [List.length_append]; omega)
          exact readLexeme_append_of_ok hSeparate hWithin

/-! ### Faults -/

/-- So many bytes into the text a character starts. -/
def PointsInto (offset : Nat) (text : List Char) : Prop :=
  ∃ front c back, text = front ++ c :: back ∧ Text.byteLength front = offset

theorem pointsInto_zero (c : Char) (text : List Char) : PointsInto 0 (c :: text) :=
  ⟨[], c, text, rfl, rfl⟩

theorem PointsInto.prepend {offset : Nat} {text : List Char} (h : PointsInto offset text)
    (before : List Char) : PointsInto (Text.byteLength before + offset) (before ++ text) := by
  obtain ⟨front, c, back, rfl, rfl⟩ := h
  exact ⟨before ++ front, c, back, (List.append_assoc ..).symm, Text.byteLength_append ..⟩

/-- The complaint about a string is at its opening quote, or at an escaped character. -/
theorem pointsInto_of_readString {quote : Char} {read : List Char} {length offset found : Nat}
    {complaint : Complaint} {text : List Char}
    (h : readString quote read length offset text = .error (complaint, found)) :
    found = 0 ∨ ∃ within, found = offset + within ∧ PointsInto within text := by
  have hEscaped {e : Char} {text : List Char} {offset : Nat} (hWidth : e.utf8Size = 1) :
      (found = 0 ∨ ∃ within, found = offset + 2 + within ∧ PointsInto within text) →
      found = 0 ∨ ∃ within, found = offset + within ∧ PointsInto within ('\\' :: e :: text) := by
    rintro (hStart | ⟨within, rfl, hWithin⟩)
    · exact .inl hStart
    · refine .inr ⟨2 + within, by omega, ?_⟩
      have hBoth : Text.byteLength ['\\', e] = 2 := by simp [hWidth]; rfl
      exact hBoth ▸ hWithin.prepend ['\\', e]
  fun_induction readString quote read length offset text with
  | case1 | case3 =>
      cases h
      exact .inl rfl
  | case2 => cases h
  | case4 read length offset e text hEscape hEnd ih =>
      refine hEscaped ?_ (ih h)
      rcases hEscape with rfl | rfl | rfl <;> rfl
  | case5 read length offset text hEnd _ ih => exact hEscaped rfl (ih h)
  | case6 read length offset text hEnd _ _ ih => exact hEscaped rfl (ih h)
  | case7 read length offset e text hEscape hN hT hEnd =>
      cases h
      exact .inr ⟨1, rfl, ['\\'], e, text, rfl, rfl⟩
  | case8 read length offset c text hEnd hBackslash ih =>
      rcases ih h with hStart | ⟨within, rfl, hWithin⟩
      · exact .inl hStart
      · refine .inr ⟨c.utf8Size + within, by omega, ?_⟩
        have hOne : Text.byteLength [c] = c.utf8Size := by simp
        exact hOne ▸ hWithin.prepend [c]

theorem offset_of_readNumber {text : List Char} {complaint : Complaint} {offset : Nat}
    (h : readNumber text = .error (complaint, offset)) : offset = 0 := by
  rw [readNumber_eq] at h
  dsimp only at h
  split_ifs at h
  · cases h
    rfl
  · split at h <;> cases h
    rfl

theorem pointsInto_of_readLexeme {afterDot : Bool} {c : Char} {text : List Char}
    {complaint : Complaint} {offset : Nat}
    (h : readLexeme afterDot c text = .error (complaint, offset)) : PointsInto offset (c :: text) := by
  by_cases hQuote : c = '\'' ∨ c = '"'
  · rw [readLexeme_quote afterDot hQuote] at h
    rcases pointsInto_of_readString h with rfl | ⟨within, rfl, hWithin⟩
    · exact pointsInto_zero c text
    · have hOne : Text.byteLength [c] = 1 := by rcases hQuote with rfl | rfl <;> rfl
      exact hOne ▸ hWithin.prepend [c]
  · have hStart : offset = 0 := by
      unfold readLexeme at h
      dsimp only at h
      simp only [hQuote, if_false] at h
      repeat' split at h
      any_goals cases h
      any_goals rfl
      exact offset_of_readNumber h
    rw [hStart]
    exact pointsInto_zero c text

/-- A text that does not split is refused at one of its characters. -/
theorem fault_of_tokensFrom {position : Nat} {afterDot : Bool} {text : List Char} {fault : Fault}
    (h : tokensFrom position afterDot text = .error fault) :
    ∃ offset complaint, fault = .malformed (position + offset) complaint ∧ PointsInto offset text := by
  fun_induction tokensFrom position afterDot text with
  | case1 => cases h
  | case2 position afterDot c rest hBlank ih =>
      obtain ⟨offset, complaint, rfl, hInto⟩ := ih h
      refine ⟨_, complaint, ?_, hInto.prepend [c]⟩
      rw [Text.byteLength_cons, Text.byteLength_nil, Nat.add_zero, Nat.add_assoc]
  | case3 position afterDot c rest hBlank complaint offset hRead =>
      cases h
      exact ⟨offset, complaint, rfl, pointsInto_of_readLexeme hRead⟩
  | case4 position afterDot c rest hBlank lexeme length hRead width ih =>
      rcases bind_eq_error_iff.mp h with hMore | ⟨_, -, hPure⟩
      · obtain ⟨offset, complaint, rfl, hInto⟩ := ih hMore
        have hWhole := hInto.prepend (c :: rest.take length)
        rw [List.cons_append, List.take_append_drop, Text.byteLength_cons] at hWhole
        exact ⟨_, complaint, by rw [Nat.add_assoc], hWhole⟩
      · cases hPure

/-! ### The layout of a text -/

/-- A text taken apart: its lexemes with the blanks before each of them, and the blanks behind all. -/
structure Layout where
  pieces : List Piece
  last : List Char

namespace Layout

def text (l : Layout) : List Char := joined l.pieces l.last

/-- The lexemes of the layout are those of the tokens, each solid and with nothing but blanks around it, and
each token is placed at the first byte of its lexeme. -/
structure Shows (l : Layout) (found : List Token) : Prop where
  gaps : ∀ p ∈ l.pieces, ∀ c ∈ p.gap, Text.isBlank c = true
  last : ∀ c ∈ l.last, Text.isBlank c = true
  solid : ∀ p ∈ l.pieces, Solid p.spelled
  lexemes : List.Forall₂ (fun p t => ∃ afterDot, SpelledAs afterDot p.spelled t.lexeme) l.pieces found
  positions : found.map Token.position = starts 0 l.pieces

/-- The other layout differs in its blanks only, and has blanks between two lexemes where this one has. -/
structure Respaced (l l' : Layout) : Prop where
  pieces : List.Forall₂ Piece.Respaces l.pieces l'.pieces
  last : ∀ c ∈ l'.last, Text.isBlank c = true

end Layout

theorem Laid.shows {pieces : List Piece} {last : List Char} {lexemes : List Lexeme}
    (h : Laid false pieces last lexemes) :
    Layout.Shows ⟨pieces, last⟩ (List.zipWith Token.mk lexemes (starts 0 pieces)) := by
  obtain ⟨hLexemes, hPositions⟩ := h.tokens_eq 0
  have hSpelled := h.spelledAs
  have hSolid : ∀ p ∈ pieces, Solid p.spelled :=
    ((List.forall₂_and_left _ _).mp (hSpelled.imp fun p lexeme hAs => ⟨hAs.elim fun _ h => h.solid, hAs⟩)).1
  rw [← hLexemes] at hSpelled
  exact ⟨h.blanks.1, h.blanks.2, hSolid, List.forall₂_map_right_iff.mp hSpelled, hPositions⟩

/-- Splitting a text ends for every text, and loses nothing. Either the text is made of gaps of blanks and of the
lexemes of its tokens, which are placed in increasing order before the end; then every text with the same
lexemes and other blanks, but none fewer than one where there was one, has the same lexemes. Or the text is
refused at one of its characters. -/
theorem tokens_lossless (text : List Char) :
    (∃ (found : List Token) (layout : Layout), tokens text = .ok found ∧ layout.text = text ∧
      layout.Shows found ∧
      (found.map Token.position ++ [Text.byteLength text]).Pairwise (· < ·) ∧
      ∀ layout' : Layout, layout.Respaced layout' → ∃ found', tokens layout'.text = .ok found' ∧
        found'.map Token.lexeme = found.map Token.lexeme) ∨
    ∃ position complaint, tokens text = .error (.malformed position complaint) ∧
      PointsInto position text := by
  cases hTokens : tokens text with
  | error fault =>
      obtain ⟨position, complaint, rfl, hInto⟩ := fault_of_tokensFrom hTokens
      rw [Nat.zero_add]
      exact .inr ⟨position, complaint, rfl, hInto⟩
  | ok found =>
      obtain ⟨pieces, last, rfl, hLaid⟩ := (lexes_of_tokensFrom hTokens).exists_laid
      generalize found.map Token.lexeme = lexemes at hLaid
      cases hTokens.symm.trans (hLaid.tokensFrom_eq 0)
      have hShows := hLaid.shows
      refine .inl ⟨_, ⟨pieces, last⟩, rfl, rfl, hShows, ?_, fun layout' hRespaced => ?_⟩
      · have hMarks := marks_increasing (fun p hp => (hShows.solid p hp).nonempty) last 0
        rwa [marks, Nat.zero_add, ← hShows.positions] at hMarks
      · have hLaid' := hLaid.respaced hRespaced.pieces hRespaced.last
        exact ⟨_, hLaid'.tokensFrom_eq 0, (hLaid'.tokens_eq 0).1.trans (hLaid.tokens_eq 0).1.symm⟩

end Stepwise.Guard
