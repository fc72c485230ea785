import Stepwise.Proofs.Guard.Unambiguity

/-! The parser reads every derivation that is not too deep. For each nonterminal there is a state that the
parser reaches after the lexemes of a derivation, whatever was read before; the state holds what the tree of
the derivation adds to the level. -/
namespace Stepwise.Guard

/-- The operand that is whole with the last token. -/
def Phase.operand? : Phase → Option Operand
  | .path root keys => some (.path ⟨root, keys.reverse⟩)
  | .value o => some o
  | .term | .operand | .key _ _ | .is _ _ | .test _ _ => none

namespace Progress

/-- Tokens with these lexemes, wherever they stand, lead the parser from one state to another. -/
def Reads (p : Progress) (lexemes : List Lexeme) (q : Progress) : Prop :=
  ∀ tokens : List Token, tokens.map Token.lexeme = lexemes →
    tokens.foldlM Progress.take p = Except.ok q

theorem reads_nil (p : Progress) : p.Reads [] p := by
  intro tokens h
  rw [List.map_eq_nil_iff.mp h]
  rfl

theorem reads_cons {p q r : Progress} {l : Lexeme} {rest : List Lexeme}
    (hTake : ∀ position, p.take ⟨l, position⟩ = .ok q) (hRest : q.Reads rest r) :
    p.Reads (l :: rest) r := by
  intro tokens h
  obtain ⟨token, others, rfl, rfl, hOthers⟩ := List.map_eq_cons_iff.mp h
  rw [List.foldlM_cons, hTake token.position]
  exact hRest others hOthers

theorem Reads.append {p q r : Progress} {first second : List Lexeme} (h : p.Reads first q)
    (h' : q.Reads second r) : p.Reads (first ++ second) r := by
  intro tokens hTokens
  obtain ⟨front, back, rfl, hFront, hBack⟩ := List.map_eq_append_iff.mp hTokens
  rw [List.foldlM_append, h front hFront]
  exact h' back hBack

/-! ### Single tokens -/

variable {outer : List Level} {here : Level} {phase : Phase}

theorem take_operand (hPhase : phase = .term ∨ phase = .operand) {t : Token} (ht : t.lexeme ≠ .not) :
    take ⟨outer, here, phase⟩ t = takeOperand ⟨outer, here, phase⟩ t := by
  rcases hPhase with rfl | rfl
  · exact if_neg ht
  · rfl

theorem term?_of_operand? {operand : Operand} (h : phase.operand? = some operand) :
    term? ⟨outer, here, phase⟩ = some (comparisonOf operand here.compared []) := by
  cases phase <;> cases h <;> rfl

theorem take_compare {operand : Operand} (h : phase.operand? = some operand) (op : Comparison)
    (position : Nat) :
    take ⟨outer, here, phase⟩ ⟨.compare op, position⟩ =
      .ok ⟨outer, { here with compared := (operand, op) :: here.compared }, .operand⟩ := by
  cases phase <;> cases h <;> rfl

theorem take_is {operand : Operand} (h : phase.operand? = some operand) (hAlone : here.compared = [])
    (position : Nat) :
    take ⟨outer, here, phase⟩ ⟨.is, position⟩ = .ok ⟨outer, here, .is operand false⟩ := by
  obtain ⟨ors, ands, nots, compared⟩ := here
  cases hAlone
  cases phase <;> cases h <;> rfl

/-- What may follow a whole term is read alike after every kind of term. -/
theorem take_afterTerm {term : Expr} (h : term? ⟨outer, here, phase⟩ = some term) {l : Lexeme}
    (hl : l = .and ∨ l = .or ∨ l = .closeParen) (position : Nat) :
    take ⟨outer, here, phase⟩ ⟨l, position⟩ =
      takeAfterTerm ⟨outer, here, phase⟩ term ⟨l, position⟩ := by
  rcases hl with rfl | rfl | rfl <;> cases phase <;> cases h <;> rfl

end Progress

/-! ### Derivations -/

theorem negate_not (term : Expr) (n : Nat) : negate (.not term) n = negate term (n + 1) := by
  induction n with
  | zero => rfl
  | succ n ih => exact congrArg Expr.not ih

namespace Grammar

theorem Disjunction.disjunction_terms (d : Disjunction) : disjunction d.terms = d.tree := by
  cases d with
  | one c => rfl
  | more c rest => cases rest <;> rfl

theorem Conjunction.conjunction_terms (c : Conjunction) : conjunction c.terms = c.tree := by
  cases c with
  | one n => rfl
  | more n rest => cases rest <;> rfl

theorem Test.tree_chain (c : Chain) : (Test.chain c).tree = comparisonOf c.first [] c.rest := by
  cases c <;> rfl

theorem reads_keys (outer : List Level) (here : Level) (root : Root) (keys read : List String) :
    Progress.Reads ⟨outer, here, .path root read⟩ (keyLexemes keys)
      ⟨outer, here, .path root (keys.reverse ++ read)⟩ := by
  induction keys generalizing read with
  | nil => exact Progress.reads_nil _
  | cons key keys ih =>
      rw [List.reverse_cons, List.append_assoc]
      exact Progress.reads_cons (fun _ => rfl) (Progress.reads_cons (fun _ => rfl) (ih (key :: read)))

mutual

/-- The theorems of this family say where the lexemes of a derivation lead the parser. Where they start, a
term or an operand must follow, and what is open there leaves room for the depth of the derivation. -/
theorem Disjunction.reads (d : Disjunction) (outer : List Level) (ors : List Expr)
    (hDepth : Level.openIn outer + d.depth ≤ maxDepth) :
    ∃ here phase term, Progress.term? ⟨outer, here, phase⟩ = some term ∧
      here.close term = disjunction (ors.reverse ++ d.terms) ∧
      Progress.Reads ⟨outer, ⟨ors, [], 0, []⟩, .term⟩ d.lexemes ⟨outer, here, phase⟩ := by
  cases d with
  | one c =>
      obtain ⟨here, phase, term, hOrs, hTerm, hTerms, hReads⟩ := c.reads outer ors [] hDepth
      refine ⟨here, phase, term, hTerm, ?_, hReads⟩
      rw [Level.close, hTerms, hOrs, List.reverse_nil, List.nil_append, c.conjunction_terms,
        List.reverse_cons, Disjunction.terms]
  | more c rest =>
      rw [Disjunction.depth] at hDepth
      obtain ⟨here, phase, term, hOrs, hTerm, hTerms, hReads⟩ :=
        c.reads outer ors [] (by omega)
      obtain ⟨here', phase', term', hTerm', hClose, hRest⟩ :=
        rest.reads outer (c.tree :: ors) (by omega)
      refine ⟨here', phase', term', hTerm', ?_, ?_⟩
      · rw [hClose, List.reverse_cons, List.append_assoc, List.singleton_append, Disjunction.terms]
      · refine hReads.append (Progress.reads_cons (fun position => ?_) hRest)
        rw [Progress.take_afterTerm hTerm (.inr (.inl rfl))]
        simp only [Progress.takeAfterTerm, hTerms, hOrs, List.reverse_nil, List.nil_append,
          c.conjunction_terms]

theorem Conjunction.reads (c : Conjunction) (outer : List Level) (ors ands : List Expr)
    (hDepth : Level.openIn outer + c.depth ≤ maxDepth) :
    ∃ here phase term, here.ors = ors ∧ Progress.term? ⟨outer, here, phase⟩ = some term ∧
      (here.closeTerm term).reverse = ands.reverse ++ c.terms ∧
      Progress.Reads ⟨outer, ⟨ors, ands, 0, []⟩, .term⟩ c.lexemes ⟨outer, here, phase⟩ := by
  cases c with
  | one n =>
      obtain ⟨nots, compared, phase, term, hTerm, hNegate, hReads⟩ :=
        n.reads outer ⟨ors, ands, 0, []⟩ rfl hDepth
      refine ⟨_, phase, term, rfl, hTerm, ?_, hReads⟩
      rw [Level.closeTerm, hNegate, negate, List.reverse_cons, Conjunction.terms]
  | more n rest =>
      rw [Conjunction.depth] at hDepth
      obtain ⟨nots, compared, phase, term, hTerm, hNegate, hReads⟩ :=
        n.reads outer ⟨ors, ands, 0, []⟩ rfl (by simp only; omega)
      obtain ⟨here', phase', term', hOrs, hTerm', hTerms, hRest⟩ :=
        rest.reads outer ors (n.tree :: ands) (by omega)
      refine ⟨here', phase', term', hOrs, hTerm', ?_, ?_⟩
      · rw [hTerms, List.reverse_cons, List.append_assoc, List.singleton_append, Conjunction.terms]
      · refine hReads.append (Progress.reads_cons (fun position => ?_) hRest)
        rw [Progress.take_afterTerm hTerm (.inl rfl)]
        simp only [Progress.takeAfterTerm, Level.closeTerm, hNegate, negate]

theorem Negation.reads (n : Negation) (outer : List Level) (here : Level) (hAlone : here.compared = [])
    (hDepth : Level.openIn outer + here.nots + n.depth ≤ maxDepth) :
    ∃ nots compared phase term,
      Progress.term? ⟨outer, { here with nots, compared }, phase⟩ = some term ∧
      negate term nots = negate n.tree here.nots ∧
      Progress.Reads ⟨outer, here, .term⟩ n.lexemes ⟨outer, { here with nots, compared }, phase⟩ := by
  cases n with
  | not inner =>
      rw [Negation.depth] at hDepth
      obtain ⟨nots, compared, phase, term, hTerm, hNegate, hReads⟩ :=
        inner.reads outer { here with nots := here.nots + 1 } hAlone (by simp only; omega)
      refine ⟨nots, compared, phase, term, hTerm, ?_, ?_⟩
      · rw [hNegate, Negation.tree, negate_not]
      · refine Progress.reads_cons (fun position => ?_) hReads
        have hRoom : Progress.depth ⟨outer, here, .term⟩ < maxDepth := by
          simp only [Progress.depth]
          omega
        simp only [Progress.take, if_pos hRoom, if_true]
  | test t =>
      obtain ⟨compared, phase, hTerm, hReads⟩ := t.reads outer here hAlone hDepth
      exact ⟨here.nots, compared, phase, _, hTerm, rfl, hReads⟩

theorem Test.reads (t : Test) (outer : List Level) (here : Level) (hAlone : here.compared = [])
    (hDepth : Level.openIn outer + here.nots + t.depth ≤ maxDepth) :
    ∃ compared phase,
      Progress.term? ⟨outer, { here with compared }, phase⟩ = some t.tree ∧
      Progress.Reads ⟨outer, here, .term⟩ t.lexemes ⟨outer, { here with compared }, phase⟩ := by
  cases t with
  | chain c =>
      obtain ⟨compared, phase, last, hLast, hCompared, hReads⟩ :=
        c.reads outer here .term (.inl rfl) hDepth
      refine ⟨compared, phase, ?_, hReads⟩
      rw [Progress.term?_of_operand? hLast, hCompared, hAlone, Test.tree_chain]
  | isNone a negated =>
      obtain ⟨phase, hPhase, hReads⟩ := a.reads outer here .term (.inl rfl) hDepth
      refine ⟨here.compared, .test a.tree negated, rfl, hReads.append ?_⟩
      refine Progress.reads_cons (Progress.take_is hPhase hAlone) ?_
      cases negated with
      | false => exact Progress.reads_cons (fun _ => rfl) (Progress.reads_nil _)
      | true =>
          exact Progress.reads_cons (fun _ => rfl)
            (Progress.reads_cons (fun _ => rfl) (Progress.reads_nil _))

theorem Chain.reads (c : Chain) (outer : List Level) (here : Level) (start : Phase)
    (hStart : start = .term ∨ start = .operand)
    (hDepth : Level.openIn outer + here.nots + c.depth ≤ maxDepth) :
    ∃ compared phase last, phase.operand? = some last ∧
      comparisonOf last compared [] = comparisonOf c.first here.compared c.rest ∧
      Progress.Reads ⟨outer, here, start⟩ c.lexemes ⟨outer, { here with compared }, phase⟩ := by
  cases c with
  | one a =>
      obtain ⟨phase, hPhase, hReads⟩ := a.reads outer here start hStart hDepth
      exact ⟨here.compared, phase, _, hPhase, rfl, hReads⟩
  | more a op rest =>
      rw [Chain.depth] at hDepth
      obtain ⟨phase, hPhase, hReads⟩ := a.reads outer here start hStart (by omega)
      obtain ⟨compared, phase', last, hLast, hCompared, hRest⟩ :=
        rest.reads outer { here with compared := (a.tree, op) :: here.compared } .operand (.inr rfl)
          (by simp only; omega)
      refine ⟨compared, phase', last, hLast, hCompared, hReads.append ?_⟩
      exact Progress.reads_cons (Progress.take_compare hPhase op) hRest

theorem Atom.reads (a : Atom) (outer : List Level) (here : Level) (start : Phase)
    (hStart : start = .term ∨ start = .operand)
    (hDepth : Level.openIn outer + here.nots + a.depth ≤ maxDepth) :
    ∃ phase, phase.operand? = some a.tree ∧
      Progress.Reads ⟨outer, here, start⟩ a.lexemes ⟨outer, here, phase⟩ := by
  cases a with
  | path path =>
      refine ⟨.path path.root path.keys.reverse, ?_, ?_⟩
      · rw [Phase.operand?, List.reverse_reverse, Atom.tree]
      · refine Progress.reads_cons (q := ⟨outer, here, .path path.root []⟩) (fun position => ?_) ?_
        · rw [Progress.take_operand hStart (by simp)]
          simp only [Progress.takeOperand, Root.ofName?_eq_some_iff.mpr rfl]
        · simpa using reads_keys outer here path.root path.keys []
  | literal value =>
      refine ⟨.value (.literal value.value), by rw [Atom.tree]; rfl, ?_⟩
      refine Progress.reads_cons (fun position => ?_) (Progress.reads_nil _)
      rw [Progress.take_operand hStart (by cases value <;> simp [Literal.lexeme])]
      cases value <;> rfl
  | group inner =>
      rw [Atom.depth] at hDepth
      obtain ⟨here', phase, term, hTerm, hClose, hReads⟩ :=
        inner.reads (here :: outer) [] (by rw [Level.openIn]; omega)
      refine ⟨.value (.group inner.tree), by rw [Atom.tree]; rfl, ?_⟩
      refine Progress.reads_cons (fun position => ?_) (hReads.append ?_)
      · have hRoom : Progress.depth ⟨outer, here, start⟩ < maxDepth := by
          simp only [Progress.depth]
          omega
        rw [Progress.take_operand hStart (by simp)]
        simp only [Progress.takeOperand, if_pos hRoom]
        rfl
      · refine Progress.reads_cons (fun position => ?_) (Progress.reads_nil _)
        rw [Progress.take_afterTerm hTerm (.inr (.inr rfl))]
        simp only [Progress.takeAfterTerm, hClose, List.reverse_nil, List.nil_append,
          inner.disjunction_terms]

end

/-- Every derivation that is not too deep is parsed, as its tree. -/
theorem Disjunction.parse_eq (d : Disjunction) (hDepth : d.depth ≤ maxDepth) {tokens : List Token}
    (hTokens : tokens.map Token.lexeme = d.lexemes) (position : Nat) :
    parse tokens position = .ok d.tree := by
  obtain ⟨here, phase, term, hTerm, hClose, hReads⟩ :=
    d.reads [] [] (by rw [Level.openIn, Nat.zero_add]; exact hDepth)
  have hFold : tokens.foldlM Progress.take .start = Except.ok ⟨[], here, phase⟩ :=
    hReads tokens hTokens
  rw [parse, hFold]
  change Progress.finish ⟨[], here, phase⟩ position = _
  rw [Progress.finish, hTerm]
  simp only [hClose, List.reverse_nil, List.nil_append, d.disjunction_terms]

end Grammar

end Stepwise.Guard
