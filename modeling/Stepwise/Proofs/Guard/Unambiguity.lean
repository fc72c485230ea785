import Stepwise.Proofs.Guard.Grammar

/-! Derivations are determined by their lexemes. What a nonterminal spells is followed by a lexeme that does
not continue it, so two derivations with the same lexemes before such followers end at the same place. -/
namespace Stepwise

theorem Root.ofName?_eq_some_iff {name : String} {root : Root} :
    ofName? name = some root ↔ name = root.name := by
  constructor
  · intro h
    unfold ofName? at h
    split at h <;> cases h <;> rfl
  · rintro rfl
    cases root <;> rfl

theorem Root.ofName?_eq_none_iff {name : String} :
    ofName? name = none ↔ ∀ root : Root, root.name ≠ name := by
  rw [Option.eq_none_iff_forall_ne_some]
  exact forall_congr' fun root => not_congr (ofName?_eq_some_iff.trans eq_comm)

theorem Root.name_injective {root root' : Root} (h : root.name = root'.name) : root = root' :=
  Option.some.inj ((ofName?_eq_some_iff.mpr rfl).symm.trans (ofName?_eq_some_iff.mpr h))

namespace Guard.Grammar

/-- How loosely a lexeme binds what is before it. Lexemes that continue nothing bind most loosely. -/
def looseness : Lexeme → Nat
  | .dot => 1
  | .compare _ => 2
  | .is => 3
  | .and => 4
  | .or => 5
  | _ => 6

/-- The lexemes do not continue what binds as tightly as this. -/
def Ends (level : Nat) (rest : List Lexeme) : Prop :=
  ∀ l ∈ rest.head?, level < looseness l

theorem ends_cons {level : Nat} {l : Lexeme} {rest : List Lexeme} :
    Ends level (l :: rest) ↔ level < looseness l := by
  simp [Ends]

theorem ends_nil (level : Nat) : Ends level [] := by
  simp [Ends]

theorem Ends.mono {tight loose : Nat} {rest : List Lexeme} (h : Ends loose rest)
    (hLe : tight ≤ loose) : Ends tight rest := by
  intro l hl
  exact Nat.lt_of_le_of_lt hLe (h l hl)

/-- A comparison operator ends an operand. -/
theorem ends_compare (op : Comparison) (rest : List Lexeme) : Ends 1 (.compare op :: rest) :=
  ends_cons.mpr (Nat.lt_succ_self 1)

/-- A comparison operator continues a chain. -/
theorem not_ends_compare (op : Comparison) (rest : List Lexeme) : ¬ Ends 2 (.compare op :: rest) :=
  fun h => Nat.lt_irrefl 2 (ends_cons.mp h)

theorem Literal.lexeme_injective {v v' : Literal} (h : v.lexeme = v'.lexeme) : v = v' := by
  cases v <;> cases v' <;> simp_all [Literal.lexeme]

theorem keyLexemes_unique (keys keys' : List String) {r r' : List Lexeme} (hr : Ends 1 r)
    (hr' : Ends 1 r') (h : keyLexemes keys ++ r = keyLexemes keys' ++ r') : keys = keys' ∧ r = r' := by
  induction keys generalizing keys' with
  | nil =>
      cases keys' with
      | nil => exact ⟨rfl, h⟩
      | cons key keys' =>
          simp only [keyLexemes, List.flatMap_nil, List.nil_append, List.flatMap_cons,
            List.cons_append] at h
          rw [h, ends_cons] at hr
          exact absurd hr (by decide)
  | cons key keys ih =>
      cases keys' with
      | nil =>
          simp only [keyLexemes, List.flatMap_nil, List.nil_append, List.flatMap_cons,
            List.cons_append] at h
          rw [← h, ends_cons] at hr'
          exact absurd hr' (by decide)
      | cons key' keys' =>
          simp only [keyLexemes, List.flatMap_cons, List.cons_append, List.nil_append,
            List.cons.injEq, true_and, Lexeme.name.injEq] at h
          obtain ⟨rfl, hRest⟩ := h
          obtain ⟨rfl, rfl⟩ := ih keys' hRest
          exact ⟨rfl, rfl⟩

theorem noneLexemes_unique {negated negated' : Bool} {r r' : List Lexeme}
    (h : noneLexemes negated ++ r = noneLexemes negated' ++ r') : negated = negated' ∧ r = r' := by
  cases negated <;> cases negated' <;> simp_all [noneLexemes]

/-- An operand does not begin with `not`. -/
theorem Atom.lexemes_cons (a : Atom) : ∃ l rest, a.lexemes = l :: rest ∧ l ≠ .not := by
  cases a with
  | path path => exact ⟨_, _, rfl, by simp⟩
  | literal value => exact ⟨_, _, rfl, by cases value <;> simp [Literal.lexeme]⟩
  | group inner => exact ⟨_, _, rfl, by simp⟩

theorem Test.lexemes_cons (t : Test) : ∃ l rest, t.lexemes = l :: rest ∧ l ≠ .not := by
  obtain ⟨a, rest, hAppend⟩ : ∃ (a : Atom) (rest : List Lexeme), t.lexemes = a.lexemes ++ rest := by
    cases t with
    | isNone a negated => exact ⟨a, _, rfl⟩
    | chain c =>
        cases c with
        | one a => exact ⟨a, [], (List.append_nil _).symm⟩
        | more a op rest => exact ⟨a, _, rfl⟩
  obtain ⟨l, front, hFront, hNot⟩ := a.lexemes_cons
  exact ⟨l, front ++ rest, by rw [hAppend, hFront, List.cons_append], hNot⟩

theorem Test.lexemes_append_ne (t : Test) (r r' : List Lexeme) : t.lexemes ++ r ≠ .not :: r' := by
  obtain ⟨l, rest, hLexemes, hNot⟩ := t.lexemes_cons
  rw [hLexemes, List.cons_append]
  exact fun h => hNot (List.cons.inj h).1

mutual

/-- Each theorem of this family is by cases on both derivations; the lexeme where two different productions
part would have to continue one of them and not the other. -/
theorem Disjunction.unique (d d' : Disjunction) {r r' : List Lexeme} (hr : Ends 5 r) (hr' : Ends 5 r')
    (h : d.lexemes ++ r = d'.lexemes ++ r') : d = d' ∧ r = r' := by
  cases d with
  | one c =>
      cases d' with
      | one c' =>
          obtain ⟨rfl, rfl⟩ := c.unique c' (hr.mono (by omega)) (hr'.mono (by omega)) h
          exact ⟨rfl, rfl⟩
      | more c' rest' =>
          simp only [Disjunction.lexemes, List.append_assoc, List.cons_append] at h
          obtain ⟨rfl, rfl⟩ := c.unique c' (hr.mono (by omega)) (ends_cons.mpr (by decide)) h
          exact absurd (ends_cons.mp hr) (by decide)
  | more c rest =>
      cases d' with
      | one c' =>
          simp only [Disjunction.lexemes, List.append_assoc, List.cons_append] at h
          obtain ⟨rfl, rfl⟩ := c.unique c' (ends_cons.mpr (by decide)) (hr'.mono (by omega)) h
          exact absurd (ends_cons.mp hr') (by decide)
      | more c' rest' =>
          simp only [Disjunction.lexemes, List.append_assoc, List.cons_append] at h
          obtain ⟨rfl, hRest⟩ :=
            c.unique c' (ends_cons.mpr (by decide)) (ends_cons.mpr (by decide)) h
          obtain ⟨rfl, rfl⟩ := rest.unique rest' hr hr' (List.cons.inj hRest).2
          exact ⟨rfl, rfl⟩

theorem Conjunction.unique (c c' : Conjunction) {r r' : List Lexeme} (hr : Ends 4 r) (hr' : Ends 4 r')
    (h : c.lexemes ++ r = c'.lexemes ++ r') : c = c' ∧ r = r' := by
  cases c with
  | one n =>
      cases c' with
      | one n' =>
          obtain ⟨rfl, rfl⟩ := n.unique n' (hr.mono (by omega)) (hr'.mono (by omega)) h
          exact ⟨rfl, rfl⟩
      | more n' rest' =>
          simp only [Conjunction.lexemes, List.append_assoc, List.cons_append] at h
          obtain ⟨rfl, rfl⟩ := n.unique n' (hr.mono (by omega)) (ends_cons.mpr (by decide)) h
          exact absurd (ends_cons.mp hr) (by decide)
  | more n rest =>
      cases c' with
      | one n' =>
          simp only [Conjunction.lexemes, List.append_assoc, List.cons_append] at h
          obtain ⟨rfl, rfl⟩ := n.unique n' (ends_cons.mpr (by decide)) (hr'.mono (by omega)) h
          exact absurd (ends_cons.mp hr') (by decide)
      | more n' rest' =>
          simp only [Conjunction.lexemes, List.append_assoc, List.cons_append] at h
          obtain ⟨rfl, hRest⟩ :=
            n.unique n' (ends_cons.mpr (by decide)) (ends_cons.mpr (by decide)) h
          obtain ⟨rfl, rfl⟩ := rest.unique rest' hr hr' (List.cons.inj hRest).2
          exact ⟨rfl, rfl⟩

theorem Negation.unique (n n' : Negation) {r r' : List Lexeme} (hr : Ends 3 r) (hr' : Ends 3 r')
    (h : n.lexemes ++ r = n'.lexemes ++ r') : n = n' ∧ r = r' := by
  cases n with
  | not inner =>
      cases n' with
      | not inner' =>
          simp only [Negation.lexemes, List.cons_append] at h
          obtain ⟨rfl, rfl⟩ := inner.unique inner' hr hr' (List.cons.inj h).2
          exact ⟨rfl, rfl⟩
      | test t' => exact absurd h.symm (t'.lexemes_append_ne _ _)
  | test t =>
      cases n' with
      | not inner' => exact absurd h (t.lexemes_append_ne _ _)
      | test t' =>
          obtain ⟨rfl, rfl⟩ := t.unique t' hr hr' h
          exact ⟨rfl, rfl⟩

theorem Test.unique (t t' : Test) {r r' : List Lexeme} (hr : Ends 3 r) (hr' : Ends 3 r')
    (h : t.lexemes ++ r = t'.lexemes ++ r') : t = t' ∧ r = r' := by
  cases t with
  | chain c =>
      cases t' with
      | chain c' =>
          obtain ⟨rfl, rfl⟩ := c.unique c' (hr.mono (by omega)) (hr'.mono (by omega)) h
          exact ⟨rfl, rfl⟩
      | isNone a' negated' =>
          simp only [Test.lexemes, List.append_assoc, List.cons_append] at h
          obtain ⟨-, rfl⟩ :=
            c.unique (.one a') (hr.mono (by omega)) (ends_cons.mpr (by decide)) h
          exact absurd (ends_cons.mp hr) (by decide)
  | isNone a negated =>
      cases t' with
      | chain c' =>
          simp only [Test.lexemes, List.append_assoc, List.cons_append] at h
          cases c' with
          | one a' =>
              obtain ⟨rfl, rfl⟩ := a.unique a' (ends_cons.mpr (by decide)) (hr'.mono (by omega)) h
              exact absurd (ends_cons.mp hr') (by decide)
          | more a' op' rest' =>
              simp only [Chain.lexemes, List.append_assoc, List.cons_append] at h
              obtain ⟨rfl, hRest⟩ := a.unique a' (ends_cons.mpr (by decide)) (ends_compare _ _) h
              cases (List.cons.inj hRest).1
      | isNone a' negated' =>
          simp only [Test.lexemes, List.append_assoc, List.cons_append] at h
          obtain ⟨rfl, hRest⟩ :=
            a.unique a' (ends_cons.mpr (by decide)) (ends_cons.mpr (by decide)) h
          obtain ⟨rfl, rfl⟩ := noneLexemes_unique (List.cons.inj hRest).2
          exact ⟨rfl, rfl⟩

theorem Chain.unique (c c' : Chain) {r r' : List Lexeme} (hr : Ends 2 r) (hr' : Ends 2 r')
    (h : c.lexemes ++ r = c'.lexemes ++ r') : c = c' ∧ r = r' := by
  cases c with
  | one a =>
      cases c' with
      | one a' =>
          obtain ⟨rfl, rfl⟩ := a.unique a' (hr.mono (by omega)) (hr'.mono (by omega)) h
          exact ⟨rfl, rfl⟩
      | more a' op' rest' =>
          simp only [Chain.lexemes, List.append_assoc, List.cons_append] at h
          obtain ⟨rfl, rfl⟩ := a.unique a' (hr.mono (by omega)) (ends_compare _ _) h
          exact absurd hr (not_ends_compare _ _)
  | more a op rest =>
      cases c' with
      | one a' =>
          simp only [Chain.lexemes, List.append_assoc, List.cons_append] at h
          obtain ⟨rfl, rfl⟩ := a.unique a' (ends_compare _ _) (hr'.mono (by omega)) h
          exact absurd hr' (not_ends_compare _ _)
      | more a' op' rest' =>
          simp only [Chain.lexemes, List.append_assoc, List.cons_append] at h
          obtain ⟨rfl, hRest⟩ := a.unique a' (ends_compare _ _) (ends_compare _ _) h
          obtain ⟨hOp, hRest⟩ := List.cons.inj hRest
          obtain ⟨rfl, rfl⟩ := rest.unique rest' hr hr' hRest
          cases hOp
          exact ⟨rfl, rfl⟩

theorem Atom.unique (a a' : Atom) {r r' : List Lexeme} (hr : Ends 1 r) (hr' : Ends 1 r')
    (h : a.lexemes ++ r = a'.lexemes ++ r') : a = a' ∧ r = r' := by
  cases a with
  | path path =>
      cases a' with
      | path path' =>
          obtain ⟨root, keys⟩ := path
          obtain ⟨root', keys'⟩ := path'
          simp only [Atom.lexemes, pathLexemes, List.cons_append, List.cons.injEq,
            Lexeme.name.injEq] at h
          obtain ⟨rfl, rfl⟩ := keyLexemes_unique keys keys' hr hr' h.2
          cases Root.name_injective h.1
          exact ⟨rfl, rfl⟩
      | literal value' => cases value' <;> cases (List.cons.inj h).1
      | group inner' => cases (List.cons.inj h).1
  | literal value =>
      cases a' with
      | path path' => cases value <;> cases (List.cons.inj h).1
      | literal value' =>
          obtain ⟨hValue, rfl⟩ := List.cons.inj h
          cases Literal.lexeme_injective hValue
          exact ⟨rfl, rfl⟩
      | group inner' => cases value <;> cases (List.cons.inj h).1
  | group inner =>
      cases a' with
      | path path' => cases (List.cons.inj h).1
      | literal value' => cases value' <;> cases (List.cons.inj h).1
      | group inner' =>
          simp only [Atom.lexemes, List.cons_append, List.append_assoc, List.cons.injEq,
            true_and] at h
          obtain ⟨rfl, hRest⟩ :=
            inner.unique inner' (ends_cons.mpr (by decide)) (ends_cons.mpr (by decide)) h
          exact ⟨rfl, (List.cons.inj hRest).2⟩

end

/-- No two derivations of a condition have the same lexemes. -/
theorem Disjunction.lexemes_injective : Function.Injective Disjunction.lexemes := by
  intro d d' h
  refine (d.unique d' (ends_nil 5) (ends_nil 5) ?_).1
  rw [h]

end Guard.Grammar

end Stepwise
