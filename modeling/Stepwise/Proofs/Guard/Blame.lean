import Stepwise.Proofs.Guard.Soundness

/-! Where a text goes wrong. Whatever was read without a fault can be completed: the operand, the field name
or the `None` that is missing is put in, and every open parenthesis is closed, which opens nothing and so
never meets the bound on the depth. Hence a token is refused only when no condition goes on with it, and the
fault names that token. -/
namespace Stepwise.Guard

/-! ### Completions -/

namespace Progress

/-- Closing the parentheses that are open around a whole term leaves a whole term. -/
theorem exists_reads_closing (outer : List Level) {here : Level} {phase : Phase} {term : Expr}
    (hTerm : term? ⟨outer, here, phase⟩ = some term) :
    ∃ here' phase' term', term? ⟨[], here', phase'⟩ = some term' ∧
      Reads ⟨outer, here, phase⟩ (List.replicate outer.length .closeParen) ⟨[], here', phase'⟩ := by
  induction outer generalizing here phase term with
  | nil => exact ⟨here, phase, term, hTerm, reads_nil _⟩
  | cons around outer ih =>
      have hGroup : term? ⟨outer, around, .value (.group (here.close term))⟩ =
        some (comparisonOf (.group (here.close term)) around.compared []) := rfl
      obtain ⟨here', phase', term', hTerm', hReads⟩ := ih hGroup
      refine ⟨here', phase', term', hTerm', reads_cons (fun position => ?_) hReads⟩
      rw [take_afterTerm hTerm (.inr (.inr rfl))]
      rfl

/-- At most one lexeme is missing to a whole term. -/
theorem exists_reads_term (outer : List Level) (here : Level) (phase : Phase) :
    ∃ missing phase' term, term? ⟨outer, here, phase'⟩ = some term ∧
      Reads ⟨outer, here, phase⟩ missing ⟨outer, here, phase'⟩ := by
  have hNull : ∀ {start : Phase}, start = .term ∨ start = .operand →
      Reads ⟨outer, here, start⟩ [.none] ⟨outer, here, .value (.literal .null)⟩ := fun hStart =>
    reads_cons (fun position => by rw [take_operand hStart (by simp)]; rfl) (reads_nil _)
  cases phase with
  | term => exact ⟨_, _, _, rfl, hNull (.inl rfl)⟩
  | operand => exact ⟨_, _, _, rfl, hNull (.inr rfl)⟩
  | path root keys => exact ⟨[], .path root keys, _, rfl, reads_nil _⟩
  | value operand => exact ⟨[], .value operand, _, rfl, reads_nil _⟩
  | test operand negated => exact ⟨[], .test operand negated, _, rfl, reads_nil _⟩
  | key root keys =>
      exact ⟨[.name ""], .path root ("" :: keys), _, rfl, reads_cons (fun _ => rfl) (reads_nil _)⟩
  | is operand negated =>
      exact ⟨[.none], .test operand negated, _, rfl, reads_cons (fun _ => rfl) (reads_nil _)⟩

/-- Some lexemes lead every state to one where the text may end. -/
theorem exists_reads_finish (p : Progress) :
    ∃ missing q e, p.Reads missing q ∧ ∀ position, q.finish position = .ok e := by
  obtain ⟨outer, here, phase⟩ := p
  obtain ⟨missing, phase', term, hTerm, hMissing⟩ := exists_reads_term outer here phase
  obtain ⟨here', phase'', term', hTerm', hClosing⟩ := exists_reads_closing outer hTerm
  refine ⟨_, _, here'.close term', hMissing.append hClosing, fun position => ?_⟩
  simp only [finish, hTerm']

end Progress

/-- The tokens begin a condition: with some tokens behind them they are accepted. -/
def Viable (front : List Token) : Prop :=
  ∃ more, ∀ length, ∃ e, parse (front ++ more) length = .ok e

/-- What the parser takes can be completed, and only that can. -/
theorem viable_iff {front : List Token} :
    Viable front ↔ ∃ p, front.foldlM Progress.take .start = Except.ok p := by
  constructor
  · rintro ⟨more, hAccepted⟩
    obtain ⟨e, hParse⟩ := hAccepted 0
    obtain ⟨q, hFold, -⟩ := bind_eq_ok_iff.mp hParse
    rw [List.foldlM_append] at hFold
    obtain ⟨p, hFront, -⟩ := bind_eq_ok_iff.mp hFold
    exact ⟨p, hFront⟩
  · rintro ⟨p, hFront⟩
    obtain ⟨missing, q, e, hReads, hFinish⟩ := p.exists_reads_finish
    refine ⟨missing.map fun lexeme => ⟨lexeme, 0⟩, fun length => ⟨e, ?_⟩⟩
    have hMore := hReads (missing.map fun lexeme => ⟨lexeme, 0⟩) (by simp [Function.comp_def])
    rw [parse, List.foldlM_append, hFront]
    dsimp only [bind, Except.bind]
    rw [hMore]
    exact hFinish length

/-! ### Refusals -/

/-- An operand is expected behind the tokens: every literal may stand there. -/
def AwaitsOperand (front : List Token) : Prop :=
  ∀ (value : Grammar.Literal) (position : Nat), Viable (front ++ [⟨value.lexeme, position⟩])

/-- Whether an operand must start with the next token. -/
def Phase.wantsOperand : Phase → Prop
  | .term | .operand => True
  | .path _ _ | .key _ _ | .value _ | .is _ _ | .test _ _ => False

namespace Progress

variable {p : Progress} {t : Token} {fault : Fault}

theorem malformed_of_takeAfterTerm {term : Expr} (h : p.takeAfterTerm term t = .error fault) :
    ∃ complaint, fault = .malformed t.position complaint := by
  unfold takeAfterTerm at h
  split at h <;> cases h
  exact ⟨_, rfl⟩

theorem malformed_of_takeAfterOperand {operand : Operand}
    (h : p.takeAfterOperand operand t = .error fault) :
    ∃ complaint, fault = .malformed t.position complaint := by
  unfold takeAfterOperand at h
  split at h
  · cases h
  · cases h
  · exact malformed_of_takeAfterTerm h

theorem malformed_of_finish {length : Nat} (h : p.finish length = .error fault) :
    ∃ complaint, fault = .malformed length complaint := by
  unfold finish at h
  split at h <;> cases h
  exact ⟨_, rfl⟩

/-- Where an operand must start, a name that is no root is refused by its name and any other token by its
place. -/
theorem fault_of_takeOperand (h : p.takeOperand t = .error fault) :
    (∃ name, t.lexeme = .name name ∧ Root.ofName? name = none ∧ fault = .foreignName name) ∨
      ((∀ name, t.lexeme ≠ .name name) ∧ ∃ complaint, fault = .malformed t.position complaint) := by
  unfold takeOperand at h
  split at h
  · rename_i name hName
    split at h
    · cases h
    · rename_i hRoot
      cases h
      exact .inl ⟨name, hName, hRoot, rfl⟩
  · cases h
  · cases h
  · cases h
  · cases h
  · rename_i hParen
    split_ifs at h
    cases h
    exact .inr ⟨fun name hName => (by rw [hParen] at hName; cases hName), _, rfl⟩
  · rename_i hOther _ _ _ _ _
    cases h
    exact .inr ⟨hOther, _, rfl⟩

/-- Where no operand must start, every refused token is refused by its place. -/
theorem malformed_of_take (hPhase : ¬ p.phase.wantsOperand) (h : p.take t = .error fault) :
    ∃ complaint, fault = .malformed t.position complaint := by
  obtain ⟨outer, here, phase⟩ := p
  unfold take at h
  cases phase with
  | term => exact absurd trivial hPhase
  | operand => exact absurd trivial hPhase
  | path root keys =>
      dsimp only at h
      split at h
      · cases h
      · cases h
        exact ⟨_, rfl⟩
      · exact malformed_of_takeAfterOperand h
  | key root keys =>
      dsimp only at h
      split at h <;> cases h
      exact ⟨_, rfl⟩
  | value operand => exact malformed_of_takeAfterOperand h
  | is operand negated =>
      dsimp only at h
      split at h <;> cases h
      exact ⟨_, rfl⟩
  | test operand negated => exact malformed_of_takeAfterTerm h

theorem fault_of_take (hPhase : p.phase.wantsOperand) (h : p.take t = .error fault) :
    (∃ name, t.lexeme = .name name ∧ Root.ofName? name = none ∧ fault = .foreignName name) ∨
      ((∀ name, t.lexeme ≠ .name name) ∧ ∃ complaint, fault = .malformed t.position complaint) := by
  obtain ⟨outer, here, phase⟩ := p
  cases phase with
  | term =>
      unfold take at h
      dsimp only at h
      split_ifs at h with hNot
      · cases h
        exact .inr ⟨fun name hName => (by rw [hNot] at hName; cases hName), _, rfl⟩
      · exact fault_of_takeOperand h
  | operand => exact fault_of_takeOperand h
  | path | key | value | is | test => exact hPhase.elim

/-- A number is taken only where an operand must start. -/
theorem wantsOperand_of_take_number {n : Number} {position : Nat} {q : Progress}
    (h : p.take ⟨.number n, position⟩ = .ok q) : p.phase.wantsOperand := by
  obtain ⟨outer, here, phase⟩ := p
  cases phase with
  | term => trivial
  | operand => trivial
  | path | key | value | is | test => cases h

theorem exists_take_literal (hPhase : p.phase.wantsOperand) (value : Grammar.Literal) (position : Nat) :
    ∃ q, p.take ⟨value.lexeme, position⟩ = .ok q := by
  obtain ⟨outer, here, phase⟩ := p
  cases phase with
  | term => cases value <;> exact ⟨_, rfl⟩
  | operand => cases value <;> exact ⟨_, rfl⟩
  | path | key | value | is | test => exact hPhase.elim

end Progress

theorem foldlM_append_of_ok {front : List Token} {p : Progress}
    (hFront : front.foldlM Progress.take .start = Except.ok p) (rest : List Token) :
    (front ++ rest).foldlM Progress.take .start = rest.foldlM Progress.take p := by
  rw [List.foldlM_append, hFront]
  rfl

/-- One more token begins a condition if and only if the parser takes it. -/
theorem viable_concat_iff {front : List Token} {p : Progress}
    (hFront : front.foldlM Progress.take .start = Except.ok p) (t : Token) :
    Viable (front ++ [t]) ↔ ∃ q, p.take t = .ok q := by
  have hLast : [t].foldlM Progress.take p = p.take t := by
    rw [List.foldlM_cons]
    exact bind_pure _
  rw [viable_iff, foldlM_append_of_ok hFront, hLast]

/-- An operand is expected where the parser wants one. -/
theorem awaitsOperand_iff {front : List Token} {p : Progress}
    (hFront : front.foldlM Progress.take .start = Except.ok p) :
    AwaitsOperand front ↔ p.phase.wantsOperand := by
  constructor
  · intro h
    obtain ⟨q, hTake⟩ := (viable_concat_iff hFront _).mp (h (.number (.int 0)) 0)
    exact Progress.wantsOperand_of_take_number hTake
  · intro hPhase value position
    exact (viable_concat_iff hFront _).mpr (Progress.exists_take_literal hPhase value position)

/-- Positions play no part: what has the lexemes that accepted tokens begin with begins a condition. -/
theorem viable_of_isPrefix {front accepted : List Token} {length : Nat} {e : Expr}
    (h : parse accepted length = .ok e)
    (hPrefix : front.map Token.lexeme <+: accepted.map Token.lexeme) : Viable front := by
  obtain ⟨p, hFold, hFinish⟩ := bind_eq_ok_iff.mp h
  obtain ⟨d, hLexemes, hDepth, -⟩ := (Grammar.begins_start.foldlM hFold).finish hFinish
  obtain ⟨back, hBack⟩ := hPrefix
  refine ⟨back.map fun lexeme => ⟨lexeme, 0⟩, fun length => ⟨_, d.parse_eq hDepth ?_ length⟩⟩
  rw [hLexemes, List.nil_append, ← hBack, List.map_append, List.map_map]
  simp [Function.comp_def]

/-! ### The first impossible token -/

/-- The lexemes of the tokens and then the mark of the end. -/
def ended (tokens : List Token) : List (Option Lexeme) :=
  (tokens.map Token.lexeme).map some ++ [none]

/-- The tokens before this one begin a condition, and with it, be it the end, they begin none. -/
structure FirstImpossible (tokens : List Token) (k : Nat) : Prop where
  inside : k ≤ tokens.length
  viable : Viable (tokens.take k)
  impossible : ∀ (accepted : List Token) (length : Nat) (e : Expr),
    parse accepted length = .ok e → ¬ (ended tokens).take (k + 1) <+: ended accepted

/-- The token is a name that is no root where an operand is expected. -/
structure ForeignAt (tokens : List Token) (k : Nat) (name : String) : Prop where
  named : ∃ t, tokens[k]? = some t ∧ t.lexeme = .name name
  foreign : ∀ root : Root, root.name ≠ name
  awaited : AwaitsOperand (tokens.take k)

variable {tokens accepted : List Token} {k length : Nat} {fault : Fault}

theorem take_ended (hInside : k ≤ tokens.length) :
    (ended tokens).take k = ((tokens.take k).map Token.lexeme).map some := by
  rw [ended, List.take_append_of_le_length (by simpa using hInside), List.map_take, List.map_take]

theorem isPrefix_of_map_isPrefix_ended {front : List Token}
    (h : (front.map Token.lexeme).map some <+: ended accepted) :
    front.map Token.lexeme <+: accepted.map Token.lexeme := by
  have hLexemes := h.filterMap id
  simpa [ended, List.filterMap_append, Function.comp_def] using hLexemes

/-- Where the end is marked nothing follows. -/
theorem lexemes_eq_of_ended_isPrefix (h : ended tokens <+: ended accepted) :
    tokens.map Token.lexeme = accepted.map Token.lexeme := by
  rcases List.prefix_concat_iff.mp h with hAll | hBefore
  · exact (List.map_inj_right fun _ _ => Option.some.inj).mp (List.append_cancel_right hAll)
  · have hMark : none ∈ (accepted.map Token.lexeme).map some :=
      hBefore.subset (List.mem_append_right _ List.mem_cons_self)
    simp at hMark

/-- With a token that the parser refuses the tokens before it begin no condition. -/
theorem firstImpossible_of_take {t : Token} {p : Progress} (hToken : tokens[k]? = some t)
    (hFront : (tokens.take k).foldlM Progress.take .start = Except.ok p)
    (hTake : p.take t = .error fault) : FirstImpossible tokens k := by
  have hInside : k < tokens.length := (List.getElem?_eq_some_iff.mp hToken).1
  refine ⟨Nat.le_of_lt hInside, viable_iff.mpr ⟨p, hFront⟩, fun accepted length e hParse hPrefix => ?_⟩
  rw [take_ended hInside] at hPrefix
  have hViable := viable_of_isPrefix hParse (isPrefix_of_map_isPrefix_ended hPrefix)
  rw [List.take_add_one, hToken, Option.toList_some] at hViable
  obtain ⟨q, hTaken⟩ := (viable_concat_iff hFront t).mp hViable
  rw [hTake] at hTaken
  cases hTaken

theorem firstImpossible_of_finish {p : Progress}
    (hFold : tokens.foldlM Progress.take .start = Except.ok p)
    (hFinish : p.finish length = .error fault) : FirstImpossible tokens tokens.length := by
  refine ⟨Nat.le_refl _, viable_iff.mpr ⟨p, by rwa [List.take_length]⟩, ?_⟩
  intro accepted length' e hParse hPrefix
  have hEnd : (ended tokens).take (tokens.length + 1) = ended tokens := by
    rw [List.take_of_length_le (by simp [ended])]
  rw [hEnd] at hPrefix
  obtain ⟨q, hAccepted, hAccept⟩ := bind_eq_ok_iff.mp hParse
  obtain ⟨d, hLexemes, hDepth, -⟩ := (Grammar.begins_start.foldlM hAccepted).finish hAccept
  have hSame := d.parse_eq hDepth
    ((lexemes_eq_of_ended_isPrefix hPrefix).trans (hLexemes.trans (List.nil_append _)).symm) length
  rw [parse, hFold] at hSame
  cases hFinish.symm.trans hSame

/-- Tokens that begin a condition have the first impossible one behind them. -/
theorem FirstImpossible.le_of_viable {k' : Nat} (h : FirstImpossible tokens k)
    (hInside : k' ≤ tokens.length) (hViable : Viable (tokens.take k')) : k' ≤ k := by
  refine Nat.le_of_not_lt fun hLess => ?_
  obtain ⟨more, hAccepted⟩ := hViable
  obtain ⟨e, hParse⟩ := hAccepted 0
  have hShort : k + 1 ≤ (tokens.take k').length := by
    rw [List.length_take]
    omega
  have hSame : (tokens.take k' ++ more).take (k + 1) = tokens.take (k + 1) := by
    rw [List.take_append_of_le_length hShort, List.take_take, Nat.min_eq_left hLess]
  have hEnded : (ended (tokens.take k' ++ more)).take (k + 1) = (ended tokens).take (k + 1) := by
    rw [take_ended (Nat.le_trans hLess hInside), take_ended, hSame]
    rw [List.length_append]
    omega
  exact h.impossible _ 0 e hParse (hEnded ▸ List.take_prefix _ _)

theorem FirstImpossible.unique {k' : Nat} (h : FirstImpossible tokens k)
    (h' : FirstImpossible tokens k') : k' = k :=
  Nat.le_antisymm (h.le_of_viable h'.inside h'.viable) (h'.le_of_viable h.inside h.viable)

/-- The place of a token; behind all tokens it is the length of the text. -/
def placeOf (tokens : List Token) (length k : Nat) : Nat :=
  (tokens.map Token.position)[k]?.getD length

/-- A failure of the parser has exactly one cause: there is one token, or the end, before which the tokens
begin a condition and with which they begin none. If that token is a name other than the roots where an
operand is expected the fault names it, and otherwise the fault is at its place in the text. -/
theorem parse_blames_first_impossible (h : parse tokens length = .error fault) :
    ∃ k, FirstImpossible tokens k ∧ (∀ k', FirstImpossible tokens k' → k' = k) ∧
      (∀ name, ForeignAt tokens k name → fault = .foreignName name) ∧
      ((∀ name, ¬ ForeignAt tokens k name) →
        ∃ complaint, fault = .malformed (placeOf tokens length k) complaint) := by
  rw [parse] at h
  cases hFold : tokens.foldlM Progress.take .start with
  | error cause =>
      rw [hFold] at h
      cases h
      obtain ⟨k, t, p, hToken, hFront, hTake⟩ := exists_of_foldlM_eq_error hFold
      have hFirst := firstImpossible_of_take hToken hFront hTake
      have hPlace : placeOf tokens length k = t.position := by
        rw [placeOf, List.getElem?_map, hToken]
        rfl
      refine ⟨k, hFirst, fun k' h' => hFirst.unique h', ?_, ?_⟩
      · rintro name ⟨⟨t', hToken', hName⟩, hForeign, hAwaited⟩
        cases hToken.symm.trans hToken'
        rcases Progress.fault_of_take ((awaitsOperand_iff hFront).mp hAwaited) hTake with
          ⟨name', hName', -, rfl⟩ | ⟨hNameless, -⟩
        · cases hName.symm.trans hName'
          rfl
        · exact absurd hName (hNameless name)
      · intro hNone
        rw [hPlace]
        by_cases hWants : p.phase.wantsOperand
        · rcases Progress.fault_of_take hWants hTake with ⟨name, hName, hRoot, -⟩ | ⟨-, hMalformed⟩
          · exact absurd ⟨⟨t, hToken, hName⟩, Root.ofName?_eq_none_iff.mp hRoot,
              (awaitsOperand_iff hFront).mpr hWants⟩ (hNone name)
          · exact hMalformed
        · exact Progress.malformed_of_take hWants hTake
  | ok p =>
      rw [hFold] at h
      have hFirst := firstImpossible_of_finish hFold h
      refine ⟨tokens.length, hFirst, fun k' h' => hFirst.unique h', ?_, fun _ => ?_⟩
      · rintro name ⟨⟨t, hToken, -⟩, -, -⟩
        rw [List.getElem?_eq_none (Nat.le_refl _)] at hToken
        cases hToken
      · have hPlace : placeOf tokens length tokens.length = length := by
          rw [placeOf, List.getElem?_eq_none (by simp)]
          rfl
        rw [hPlace]
        exact Progress.malformed_of_finish h

/-- `not (context.mode == os.name)` -/
private def asksHost : List Token :=
  [⟨.not, 0⟩, ⟨.openParen, 4⟩, ⟨.name "context", 5⟩, ⟨.dot, 12⟩, ⟨.name "mode", 13⟩, ⟨.compare .eq, 18⟩,
    ⟨.name "os", 21⟩, ⟨.dot, 23⟩, ⟨.name "name", 24⟩, ⟨.closeParen, 28⟩]

theorem parse_blames_first_impossible_host :
    parse asksHost 29 = .error (.foreignName "os") ∧
      ∃ k, FirstImpossible asksHost k ∧ (∀ k', FirstImpossible asksHost k' → k' = k) ∧
        (∀ name, ForeignAt asksHost k name → Fault.foreignName "os" = .foreignName name) ∧
        ((∀ name, ¬ ForeignAt asksHost k name) →
          ∃ complaint, Fault.foreignName "os" = .malformed (placeOf asksHost 29 k) complaint) :=
  ⟨rfl, parse_blames_first_impossible rfl⟩

end Stepwise.Guard
