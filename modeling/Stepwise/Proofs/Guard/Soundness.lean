import Stepwise.Proofs.Except
import Stepwise.Proofs.Guard.Completeness

/-! The parser only reads derivations. What was read so far begins a derivation, whatever derivation of the
missing part follows; every token keeps that. At the end of the tokens nothing is missing, so together with
completeness the parser accepts exactly the grammar. -/
namespace Stepwise.Guard.Grammar

/-! ### Beginnings

Each part of a level stands for lexemes that begin a derivation of its nonterminal. `outside` counts what is
open around the derivation. -/

/-- Before any disjunction, these lexemes make a disjunction with these terms, which are in reverse, before
the terms that it has. -/
def BeginsOr (outside : Nat) (ors : List Expr) (lexemes : List Lexeme) : Prop :=
  ∀ d : Disjunction, outside + d.depth ≤ maxDepth →
    ∃ whole : Disjunction, whole.lexemes = lexemes ++ d.lexemes ∧
      whole.terms = ors.reverse ++ d.terms ∧ outside + whole.depth ≤ maxDepth

def BeginsAnd (outside : Nat) (ands : List Expr) (lexemes : List Lexeme) : Prop :=
  ∀ c : Conjunction, outside + c.depth ≤ maxDepth →
    ∃ whole : Conjunction, whole.lexemes = lexemes ++ c.lexemes ∧
      whole.terms = ands.reverse ++ c.terms ∧ outside + whole.depth ≤ maxDepth

def BeginsNot (outside : Nat) (nots : Nat) (lexemes : List Lexeme) : Prop :=
  ∀ n : Negation, outside + nots + n.depth ≤ maxDepth →
    ∃ whole : Negation, whole.lexemes = lexemes ++ n.lexemes ∧
      whole.tree = negate n.tree nots ∧ outside + whole.depth ≤ maxDepth

/-- Without operands there is nothing before a chain, so a test for `None` may stand there too. -/
def BeginsChain (outside : Nat) (compared : List (Operand × Comparison)) (lexemes : List Lexeme) :
    Prop :=
  (compared = [] → lexemes = []) ∧
    ∀ c : Chain, outside + c.depth ≤ maxDepth →
      ∃ whole : Chain, whole.lexemes = lexemes ++ c.lexemes ∧
        comparisonOf whole.first [] whole.rest = comparisonOf c.first compared c.rest ∧
        outside + whole.depth ≤ maxDepth

theorem beginsOr_nil (outside : Nat) : BeginsOr outside [] [] :=
  fun d hDepth => ⟨d, rfl, rfl, hDepth⟩

theorem beginsAnd_nil (outside : Nat) : BeginsAnd outside [] [] :=
  fun c hDepth => ⟨c, rfl, rfl, hDepth⟩

theorem beginsNot_zero (outside : Nat) : BeginsNot outside 0 [] :=
  fun n hDepth => ⟨n, rfl, rfl, hDepth⟩

theorem beginsChain_nil (outside : Nat) : BeginsChain outside [] [] :=
  ⟨fun _ => rfl, fun c hDepth => ⟨c, rfl, rfl, hDepth⟩⟩

theorem BeginsOr.add {outside : Nat} {ors : List Expr} {lexemes : List Lexeme}
    (h : BeginsOr outside ors lexemes) (c : Conjunction) (hc : outside + c.depth ≤ maxDepth) :
    BeginsOr outside (c.tree :: ors) (lexemes ++ (c.lexemes ++ [.or])) := by
  intro d hDepth
  obtain ⟨whole, hLexemes, hTerms, hWhole⟩ := h (.more c d) (by rw [Disjunction.depth]; omega)
  refine ⟨whole, ?_, ?_, hWhole⟩
  · simp [hLexemes, Disjunction.lexemes]
  · simp [hTerms, Disjunction.terms]

theorem BeginsAnd.add {outside : Nat} {ands : List Expr} {lexemes : List Lexeme}
    (h : BeginsAnd outside ands lexemes) (n : Negation) (hn : outside + n.depth ≤ maxDepth) :
    BeginsAnd outside (n.tree :: ands) (lexemes ++ (n.lexemes ++ [.and])) := by
  intro c hDepth
  obtain ⟨whole, hLexemes, hTerms, hWhole⟩ := h (.more n c) (by rw [Conjunction.depth]; omega)
  refine ⟨whole, ?_, ?_, hWhole⟩
  · simp [hLexemes, Conjunction.lexemes]
  · simp [hTerms, Conjunction.terms]

theorem BeginsNot.add {outside nots : Nat} {lexemes : List Lexeme}
    (h : BeginsNot outside nots lexemes) : BeginsNot outside (nots + 1) (lexemes ++ [.not]) := by
  intro n hDepth
  obtain ⟨whole, hLexemes, hTree, hWhole⟩ := h (.not n) (by rw [Negation.depth]; omega)
  refine ⟨whole, ?_, ?_, hWhole⟩
  · simp [hLexemes, Negation.lexemes]
  · rw [hTree, Negation.tree, negate_not]

theorem BeginsChain.add {outside : Nat} {compared : List (Operand × Comparison)}
    {lexemes : List Lexeme} (h : BeginsChain outside compared lexemes) (a : Atom)
    (ha : outside + a.depth ≤ maxDepth) (op : Comparison) :
    BeginsChain outside ((a.tree, op) :: compared) (lexemes ++ (a.lexemes ++ [.compare op])) := by
  refine ⟨fun hNil => absurd hNil (List.cons_ne_nil _ _), fun c hDepth => ?_⟩
  obtain ⟨whole, hLexemes, hCompared, hWhole⟩ := h.2 (.more a op c) (by rw [Chain.depth]; omega)
  refine ⟨whole, ?_, hCompared, hWhole⟩
  simp [hLexemes, Chain.lexemes]

/-! ### Levels and states -/

/-- The lexemes of a level up to the operand that is being read. -/
inductive BeginsLevel (outside : Nat) (l : Level) (lexemes : List Lexeme) : Prop where
  | intro (inOrs inAnds inNots inChain : List Lexeme)
      (hOrs : BeginsOr outside l.ors inOrs) (hAnds : BeginsAnd outside l.ands inAnds)
      (hNots : BeginsNot outside l.nots inNots)
      (hChain : BeginsChain (outside + l.nots) l.compared inChain)
      (hAll : lexemes = inOrs ++ (inAnds ++ (inNots ++ inChain)))

/-- The lexemes of the levels around the innermost open parentheses. -/
inductive BeginsOuter : List Level → List Lexeme → Prop where
  | nil : BeginsOuter [] []
  | cons {l : Level} {outer : List Level} {before inside : List Lexeme}
      (hOuter : BeginsOuter outer before) (hLevel : BeginsLevel (Level.openIn outer) l inside) :
      BeginsOuter (l :: outer) (before ++ (inside ++ [.openParen]))

/-- The lexemes of the operand or the test that is being read. -/
def PhaseReads (depth : Nat) (compared : List (Operand × Comparison)) :
    Phase → List Lexeme → Prop
  | .term, lexemes => compared = [] ∧ lexemes = []
  | .operand, lexemes => lexemes = []
  | .path root keys, lexemes => lexemes = pathLexemes ⟨root, keys.reverse⟩
  | .key root keys, lexemes => lexemes = pathLexemes ⟨root, keys.reverse⟩ ++ [.dot]
  | .value operand, lexemes =>
    ∃ a : Atom, a.tree = operand ∧ lexemes = a.lexemes ∧ depth + a.depth ≤ maxDepth
  | .is operand negated, lexemes =>
    compared = [] ∧ ∃ a : Atom, a.tree = operand ∧
      lexemes = a.lexemes ++ .is :: (if negated then [.not] else []) ∧ depth + a.depth ≤ maxDepth
  | .test operand negated, lexemes =>
    compared = [] ∧ ∃ a : Atom, a.tree = operand ∧
      lexemes = (Test.isNone a negated).lexemes ∧ depth + a.depth ≤ maxDepth

/-- The invariant of the parser: the state stands for the lexemes that were read. -/
inductive Begins (p : Progress) (lexemes : List Lexeme) : Prop where
  | intro (inOuter inHere inPhase : List Lexeme) (hDepth : p.depth ≤ maxDepth)
      (hOuter : BeginsOuter p.outer inOuter) (hHere : BeginsLevel (Level.openIn p.outer) p.here inHere)
      (hPhase : PhaseReads p.depth p.here.compared p.phase inPhase)
      (hAll : lexemes = inOuter ++ (inHere ++ inPhase))

theorem beginsLevel_start (outside : Nat) : BeginsLevel outside .start [] :=
  ⟨[], [], [], [], beginsOr_nil _, beginsAnd_nil _, beginsNot_zero _, beginsChain_nil _, rfl⟩

theorem begins_start : Begins .start [] :=
  ⟨[], [], [], Nat.zero_le _, .nil, beginsLevel_start _, ⟨rfl, rfl⟩, rfl⟩

/-- A level up to a whole term: its lexemes are a negation and what begins the level before it. -/
inductive EndsLevel (outside : Nat) (l : Level) (term : Expr) (lexemes : List Lexeme) : Prop where
  | intro (inOrs inAnds : List Lexeme) (n : Negation)
      (hOrs : BeginsOr outside l.ors inOrs) (hAnds : BeginsAnd outside l.ands inAnds)
      (hTree : n.tree = negate term l.nots) (hDepth : outside + n.depth ≤ maxDepth)
      (hAll : lexemes = inOrs ++ (inAnds ++ n.lexemes))

theorem BeginsLevel.endsChain {outside : Nat} {l : Level} {lexemes : List Lexeme}
    (h : BeginsLevel outside l lexemes) (a : Atom) (ha : outside + l.nots + a.depth ≤ maxDepth) :
    EndsLevel outside l (comparisonOf a.tree l.compared []) (lexemes ++ a.lexemes) := by
  obtain ⟨inOrs, inAnds, inNots, inChain, hOrs, hAnds, hNots, hChain, rfl⟩ := h
  obtain ⟨c, hLexemes, hCompared, hc⟩ := hChain.2 (.one a) ha
  obtain ⟨n, hNot, hTree, hn⟩ := hNots (.test (.chain c)) hc
  refine ⟨inOrs, inAnds, n, hOrs, hAnds, ?_, hn, ?_⟩
  · rw [hTree, Negation.tree, Test.tree_chain, hCompared]
    rfl
  · simp [hNot, Negation.lexemes, Test.lexemes, hLexemes, Chain.lexemes]

theorem BeginsLevel.endsTest {outside : Nat} {l : Level} {lexemes : List Lexeme}
    (h : BeginsLevel outside l lexemes) (hAlone : l.compared = []) (t : Test)
    (ht : outside + l.nots + t.depth ≤ maxDepth) :
    EndsLevel outside l t.tree (lexemes ++ t.lexemes) := by
  obtain ⟨inOrs, inAnds, inNots, inChain, hOrs, hAnds, hNots, hChain, rfl⟩ := h
  obtain ⟨n, hNot, hTree, hn⟩ := hNots (.test t) ht
  refine ⟨inOrs, inAnds, n, hOrs, hAnds, ?_, hn, ?_⟩
  · rw [hTree, Negation.tree]
  · simp [hNot, Negation.lexemes, hChain.1 hAlone]

theorem EndsLevel.takeAnd {outside : Nat} {l : Level} {term : Expr} {lexemes : List Lexeme}
    (h : EndsLevel outside l term lexemes) :
    BeginsLevel outside ⟨l.ors, l.closeTerm term, 0, []⟩ (lexemes ++ [.and]) := by
  obtain ⟨inOrs, inAnds, n, hOrs, hAnds, hTree, hDepth, rfl⟩ := h
  have hMore := hAnds.add n hDepth
  rw [hTree] at hMore
  exact ⟨_, _, [], [], hOrs, hMore, beginsNot_zero _, beginsChain_nil _, by simp⟩

/-- The conjunction that a whole term ends. -/
theorem EndsLevel.conjunction {outside : Nat} {l : Level} {term : Expr} {lexemes : List Lexeme}
    (h : EndsLevel outside l term lexemes) :
    ∃ (inOrs : List Lexeme) (c : Conjunction), lexemes = inOrs ++ c.lexemes ∧
      BeginsOr outside l.ors inOrs ∧ c.tree = Guard.conjunction (l.closeTerm term).reverse ∧
      outside + c.depth ≤ maxDepth := by
  obtain ⟨inOrs, inAnds, n, hOrs, hAnds, hTree, hDepth, rfl⟩ := h
  obtain ⟨c, hLexemes, hTerms, hc⟩ := hAnds (.one n) hDepth
  refine ⟨inOrs, c, ?_, hOrs, ?_, hc⟩
  · rw [hLexemes, Conjunction.lexemes]
  · rw [← c.conjunction_terms, hTerms, Level.closeTerm, List.reverse_cons, Conjunction.terms, hTree]

theorem EndsLevel.takeOr {outside : Nat} {l : Level} {term : Expr} {lexemes : List Lexeme}
    (h : EndsLevel outside l term lexemes) :
    BeginsLevel outside ⟨Guard.conjunction (l.closeTerm term).reverse :: l.ors, [], 0, []⟩
      (lexemes ++ [.or]) := by
  obtain ⟨inOrs, c, rfl, hOrs, hTree, hDepth⟩ := h.conjunction
  have hMore := hOrs.add c hDepth
  rw [hTree] at hMore
  exact ⟨_, [], [], [], hMore, beginsAnd_nil _, beginsNot_zero _, beginsChain_nil _, by simp⟩

/-- The disjunction that a whole term ends. -/
theorem EndsLevel.disjunction {outside : Nat} {l : Level} {term : Expr} {lexemes : List Lexeme}
    (h : EndsLevel outside l term lexemes) :
    ∃ d : Disjunction, d.lexemes = lexemes ∧ d.tree = l.close term ∧
      outside + d.depth ≤ maxDepth := by
  obtain ⟨inOrs, c, rfl, hOrs, hTree, hDepth⟩ := h.conjunction
  obtain ⟨d, hLexemes, hTerms, hd⟩ := hOrs (.one c) hDepth
  refine ⟨d, ?_, ?_, hd⟩
  · rw [hLexemes, Disjunction.lexemes]
  · rw [← d.disjunction_terms, hTerms, Level.close, List.reverse_cons, Disjunction.terms, hTree]

/-! ### Steps -/

variable {outer : List Level} {here : Level} {phase : Phase} {inOuter inHere : List Lexeme}

theorem begins_of_takeAfterTerm {term : Expr} {t : Token} {p : Progress}
    (hDepth : Level.openIn outer + here.nots ≤ maxDepth) (hOuter : BeginsOuter outer inOuter)
    (hHere : EndsLevel (Level.openIn outer) here term inHere)
    (h : Progress.takeAfterTerm ⟨outer, here, phase⟩ term t = .ok p) :
    Begins p (inOuter ++ (inHere ++ [t.lexeme])) := by
  obtain ⟨lexeme, position⟩ := t
  unfold Progress.takeAfterTerm at h
  dsimp only at h
  split at h
  · cases h
    refine ⟨_, _, [], ?_, hOuter, hHere.takeAnd, ⟨rfl, rfl⟩, by simp⟩
    simp only [Progress.depth]
    omega
  · cases h
    refine ⟨_, _, [], ?_, hOuter, hHere.takeOr, ⟨rfl, rfl⟩, by simp⟩
    simp only [Progress.depth]
    omega
  · cases h
    obtain ⟨d, rfl, hTree, hd⟩ := hHere.disjunction
    cases hOuter with
    | @cons around outer' before inside hOuter hLevel =>
        rw [Level.openIn] at hd
        refine ⟨_, _, _, ?_, hOuter, hLevel, ⟨.group d, by rw [Atom.tree, hTree], rfl, ?_⟩, ?_⟩
        · simp only [Progress.depth]
          omega
        · simp only [Progress.depth, Atom.depth]
          omega
        · simp [Atom.lexemes]
  · cases h

theorem begins_of_takeAfterOperand {a : Atom} {t : Token} {p : Progress}
    (hDepth : Level.openIn outer + here.nots + a.depth ≤ maxDepth) (hOuter : BeginsOuter outer inOuter)
    (hHere : BeginsLevel (Level.openIn outer) here inHere)
    (h : Progress.takeAfterOperand ⟨outer, here, phase⟩ a.tree t = .ok p) :
    Begins p (inOuter ++ (inHere ++ (a.lexemes ++ [t.lexeme]))) := by
  obtain ⟨lexeme, position⟩ := t
  unfold Progress.takeAfterOperand at h
  dsimp only at h
  split at h
  · rename_i op
    cases h
    obtain ⟨inOrs, inAnds, inNots, inChain, hOrs, hAnds, hNots, hChain, rfl⟩ := hHere
    refine ⟨_, _, [], ?_, hOuter,
      ⟨_, _, _, _, hOrs, hAnds, hNots, hChain.add a hDepth op, rfl⟩, rfl, by simp⟩
    simp only [Progress.depth]
    omega
  · rename_i hAlone
    cases h
    refine ⟨_, _, _, ?_, hOuter, hHere, ⟨hAlone, a, rfl, rfl, hDepth⟩, by simp⟩
    simp only [Progress.depth]
    omega
  · rw [← List.append_assoc inHere]
    exact begins_of_takeAfterTerm (by omega) hOuter (hHere.endsChain a hDepth) h

theorem begins_of_takeOperand {t : Token} {p : Progress}
    (hDepth : Level.openIn outer + here.nots ≤ maxDepth) (hOuter : BeginsOuter outer inOuter)
    (hHere : BeginsLevel (Level.openIn outer) here inHere)
    (h : Progress.takeOperand ⟨outer, here, phase⟩ t = .ok p) :
    Begins p (inOuter ++ (inHere ++ [t.lexeme])) := by
  obtain ⟨lexeme, position⟩ := t
  have hLiteral : ∀ value : Literal, value.lexeme = lexeme →
      Begins ⟨outer, here, .value (.literal value.value)⟩ (inOuter ++ (inHere ++ [lexeme])) := by
    rintro value rfl
    refine ⟨_, _, _, hDepth, hOuter, hHere, ⟨.literal value, by rw [Atom.tree], rfl, ?_⟩, ?_⟩
    · rw [Atom.depth]
      exact hDepth
    · rw [Atom.lexemes]
  unfold Progress.takeOperand at h
  dsimp only at h
  split at h
  · rename_i name
    split at h
    · rename_i root hRoot
      cases h
      rw [Root.ofName?_eq_some_iff.mp hRoot]
      exact ⟨_, _, _, hDepth, hOuter, hHere, rfl, rfl⟩
    · cases h
  · cases h
    exact hLiteral (.number _) rfl
  · cases h
    exact hLiteral (.string _) rfl
  · cases h
    exact hLiteral (.truth _) rfl
  · cases h
    exact hLiteral .none rfl
  · split_ifs at h with hRoom
    cases h
    simp only [Progress.depth] at hRoom
    refine ⟨_, [], [], ?_, .cons hOuter hHere, beginsLevel_start _, ⟨rfl, rfl⟩, by simp⟩
    simp only [Progress.depth, Level.openIn, Level.start]
    omega
  · cases h

/-- A token that the parser takes keeps the invariant. -/
theorem Begins.take {p q : Progress} {lexemes : List Lexeme} (h : Begins p lexemes) {t : Token}
    (hTake : p.take t = .ok q) : Begins q (lexemes ++ [t.lexeme]) := by
  obtain ⟨inOuter, inHere, inPhase, hDepth, hOuter, hHere, hPhase, rfl⟩ := h
  obtain ⟨outer, here, phase⟩ := p
  simp only [Progress.depth] at hDepth hPhase
  rw [List.append_assoc, List.append_assoc]
  cases phase with
  | term =>
      obtain ⟨hAlone, rfl⟩ := hPhase
      unfold Progress.take at hTake
      dsimp only at hTake
      split_ifs at hTake with hNot hRoom
      · cases hTake
        obtain ⟨inOrs, inAnds, inNots, inChain, hOrs, hAnds, hNots, hChain, rfl⟩ := hHere
        simp only [Progress.depth] at hRoom
        refine ⟨_, _, [], ?_, hOuter,
          ⟨_, _, _, [], hOrs, hAnds, hNots.add, hAlone ▸ beginsChain_nil _, rfl⟩, ⟨hAlone, rfl⟩, ?_⟩
        · simp only [Progress.depth]
          omega
        · simp [hNot, hChain.1 hAlone]
      · exact begins_of_takeOperand hDepth hOuter hHere hTake
  | operand =>
      cases hPhase
      exact begins_of_takeOperand hDepth hOuter hHere hTake
  | path root keys =>
      cases hPhase
      obtain ⟨lexeme, position⟩ := t
      unfold Progress.take at hTake
      dsimp only at hTake
      split at hTake
      · cases hTake
        exact ⟨_, _, _, hDepth, hOuter, hHere, rfl, rfl⟩
      · cases hTake
      · have hPath : (Atom.path ⟨root, keys.reverse⟩).tree = .path ⟨root, keys.reverse⟩ := by
          rw [Atom.tree]
        rw [← hPath] at hTake
        exact begins_of_takeAfterOperand (by rw [Atom.depth]; exact hDepth) hOuter hHere hTake
  | key root keys =>
      cases hPhase
      obtain ⟨lexeme, position⟩ := t
      unfold Progress.take at hTake
      dsimp only at hTake
      split at hTake
      · cases hTake
        refine ⟨_, _, _, hDepth, hOuter, hHere, rfl, ?_⟩
        simp [pathLexemes, keyLexemes]
      · cases hTake
  | value operand =>
      obtain ⟨a, rfl, rfl, ha⟩ := hPhase
      exact begins_of_takeAfterOperand ha hOuter hHere hTake
  | is operand negated =>
      obtain ⟨hAlone, a, rfl, rfl, ha⟩ := hPhase
      obtain ⟨lexeme, position⟩ := t
      unfold Progress.take at hTake
      dsimp only at hTake
      split at hTake
      · cases hTake
        refine ⟨_, _, _, hDepth, hOuter, hHere, ⟨hAlone, a, rfl, rfl, ha⟩, ?_⟩
        cases negated <;> simp [Test.lexemes, noneLexemes]
      · cases hTake
        refine ⟨_, _, _, hDepth, hOuter, hHere, ⟨hAlone, a, rfl, rfl, ha⟩, ?_⟩
        simp
      · cases hTake
  | test operand negated =>
      obtain ⟨hAlone, a, rfl, rfl, ha⟩ := hPhase
      have hEnds := hHere.endsTest hAlone (.isNone a negated) (by rw [Test.depth]; exact ha)
      rw [Test.tree] at hEnds
      rw [← List.append_assoc inHere]
      exact begins_of_takeAfterTerm hDepth hOuter hEnds hTake

theorem Begins.foldlM {tokens : List Token} {p q : Progress} {lexemes : List Lexeme}
    (h : Begins p lexemes) (hFold : tokens.foldlM Progress.take p = .ok q) :
    Begins q (lexemes ++ tokens.map Token.lexeme) := by
  induction tokens generalizing p lexemes with
  | nil =>
      cases hFold
      rw [List.map_nil, List.append_nil]
      exact h
  | cons t rest ih =>
      rw [List.foldlM_cons] at hFold
      obtain ⟨next, hTake, hRest⟩ := bind_eq_ok_iff.mp hFold
      rw [List.map_cons, ← List.singleton_append, ← List.append_assoc]
      exact ih (h.take hTake) hRest

/-- Where the tokens may end, all of them are a derivation. -/
theorem Begins.finish {p : Progress} {lexemes : List Lexeme} {position : Nat} {e : Expr}
    (h : Begins p lexemes) (hFinish : p.finish position = .ok e) :
    ∃ d : Disjunction, d.lexemes = lexemes ∧ d.depth ≤ maxDepth ∧ d.tree = e := by
  obtain ⟨inOuter, inHere, inPhase, hDepth, hOuter, hHere, hPhase, rfl⟩ := h
  obtain ⟨outer, here, phase⟩ := p
  unfold Progress.finish at hFinish
  split at hFinish
  · rename_i term hTerm hNil
    cases hFinish
    cases hNil
    cases hOuter
    have hEnds : EndsLevel (Level.openIn []) here term (inHere ++ inPhase) := by
      cases phase with
      | term => cases hTerm
      | operand => cases hTerm
      | key root keys => cases hTerm
      | is operand negated => cases hTerm
      | path root keys =>
          cases hPhase
          cases hTerm
          exact hHere.endsChain (.path ⟨root, keys.reverse⟩) (by rw [Atom.depth]; exact hDepth)
      | value operand =>
          obtain ⟨a, rfl, rfl, ha⟩ := hPhase
          cases hTerm
          exact hHere.endsChain a ha
      | test operand negated =>
          obtain ⟨hAlone, a, rfl, rfl, ha⟩ := hPhase
          cases hTerm
          exact hHere.endsTest hAlone (.isNone a negated) ha
    obtain ⟨d, hLexemes, hTree, hd⟩ := hEnds.disjunction
    refine ⟨d, hLexemes, ?_, hTree⟩
    rw [Level.openIn, Nat.zero_add] at hd
    exact hd
  · cases hFinish

/-- The parser accepts exactly the lexemes of the derivations that nowhere have more than `maxDepth` negations
and parentheses open, and its expression is the tree of the derivation. There is only one derivation of the
lexemes. No number of terms or operands in a row is too large, since only nesting adds to the depth. -/
theorem parse_accepts_grammar (tokens : List Token) (position : Nat) :
    (∀ e, parse tokens position = .ok e ↔
      ∃ d : Disjunction, d.lexemes = tokens.map Token.lexeme ∧ d.depth ≤ maxDepth ∧ d.tree = e) ∧
    ∀ d d' : Disjunction, d.lexemes = d'.lexemes → d = d' := by
  refine ⟨fun e => ⟨fun h => ?_, ?_⟩, fun d d' h => Disjunction.lexemes_injective h⟩
  · unfold parse at h
    obtain ⟨p, hFold, hFinish⟩ := bind_eq_ok_iff.mp h
    exact (begins_start.foldlM hFold).finish hFinish
  · rintro ⟨d, hTokens, hDepth, rfl⟩
    exact d.parse_eq hDepth hTokens.symm position

end Stepwise.Guard.Grammar
