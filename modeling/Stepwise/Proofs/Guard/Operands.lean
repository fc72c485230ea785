import Stepwise.Proofs.Guard.Meaning

/-! Operands inside conditions. An operand stands at a place of a derivation, with lexemes before and behind
it and negations and parentheses around it. Parentheses around the operand give a derivation of the lexemes
with the parentheses, and its value is the same in every state, since an operand in parentheses keeps its
value and every production computes its value from those of its parts. -/
namespace Stepwise.Guard.Grammar

/-! ### Places of operands -/

variable (a : Atom)

mutual

/-- The operand stands in the condition between the lexemes `front` and `back`, and `around` counts the
negations and parentheses that are open around it. -/
inductive Disjunction.HasOperand : Disjunction → (around : Nat) → (front back : List Lexeme) → Prop
  | one {c : Conjunction} {around : Nat} {front back : List Lexeme}
      (h : Conjunction.HasOperand c around front back) :
      Disjunction.HasOperand (.one c) around front back
  | first {c : Conjunction} (rest : Disjunction) {around : Nat} {front back : List Lexeme}
      (h : Conjunction.HasOperand c around front back) :
      Disjunction.HasOperand (.more c rest) around front (back ++ .or :: rest.lexemes)
  | later (c : Conjunction) {rest : Disjunction} {around : Nat} {front back : List Lexeme}
      (h : Disjunction.HasOperand rest around front back) :
      Disjunction.HasOperand (.more c rest) around (c.lexemes ++ .or :: front) back

inductive Conjunction.HasOperand : Conjunction → (around : Nat) → (front back : List Lexeme) → Prop
  | one {n : Negation} {around : Nat} {front back : List Lexeme}
      (h : Negation.HasOperand n around front back) :
      Conjunction.HasOperand (.one n) around front back
  | first {n : Negation} (rest : Conjunction) {around : Nat} {front back : List Lexeme}
      (h : Negation.HasOperand n around front back) :
      Conjunction.HasOperand (.more n rest) around front (back ++ .and :: rest.lexemes)
  | later (n : Negation) {rest : Conjunction} {around : Nat} {front back : List Lexeme}
      (h : Conjunction.HasOperand rest around front back) :
      Conjunction.HasOperand (.more n rest) around (n.lexemes ++ .and :: front) back

inductive Negation.HasOperand : Negation → (around : Nat) → (front back : List Lexeme) → Prop
  | not {inner : Negation} {around : Nat} {front back : List Lexeme}
      (h : Negation.HasOperand inner around front back) :
      Negation.HasOperand (.not inner) (around + 1) (.not :: front) back
  | test {t : Test} {around : Nat} {front back : List Lexeme} (h : Test.HasOperand t around front back) :
      Negation.HasOperand (.test t) around front back

inductive Test.HasOperand : Test → (around : Nat) → (front back : List Lexeme) → Prop
  | chain {c : Chain} {around : Nat} {front back : List Lexeme} (h : Chain.HasOperand c around front back) :
      Test.HasOperand (.chain c) around front back
  | isNone {b : Atom} (negated : Bool) {around : Nat} {front back : List Lexeme}
      (h : Atom.HasOperand b around front back) :
      Test.HasOperand (.isNone b negated) around front (back ++ .is :: noneLexemes negated)

inductive Chain.HasOperand : Chain → (around : Nat) → (front back : List Lexeme) → Prop
  | one {b : Atom} {around : Nat} {front back : List Lexeme} (h : Atom.HasOperand b around front back) :
      Chain.HasOperand (.one b) around front back
  | first {b : Atom} (op : Comparison) (rest : Chain) {around : Nat} {front back : List Lexeme}
      (h : Atom.HasOperand b around front back) :
      Chain.HasOperand (.more b op rest) around front (back ++ .compare op :: rest.lexemes)
  | later (b : Atom) (op : Comparison) {rest : Chain} {around : Nat} {front back : List Lexeme}
      (h : Chain.HasOperand rest around front back) :
      Chain.HasOperand (.more b op rest) around (b.lexemes ++ .compare op :: front) back

inductive Atom.HasOperand : Atom → (around : Nat) → (front back : List Lexeme) → Prop
  | here : Atom.HasOperand a 0 [] []
  | group {inner : Disjunction} {around : Nat} {front back : List Lexeme}
      (h : Disjunction.HasOperand inner around front back) :
      Atom.HasOperand (.group inner) (around + 1) (.openParen :: front) (back ++ [.closeParen])

end

variable {a}

/-- The operand in parentheses. -/
def Atom.enclosed (a : Atom) : Atom :=
  .group (.one (.one (.test (.chain (.one a)))))

theorem Atom.enclosed_lexemes (a : Atom) :
    a.enclosed.lexemes = .openParen :: (a.lexemes ++ [.closeParen]) := by
  rw [Atom.enclosed, Atom.lexemes, Disjunction.lexemes, Conjunction.lexemes, Negation.lexemes,
    Test.lexemes, Chain.lexemes, List.cons_append]

theorem Atom.enclosed_depth (a : Atom) : a.enclosed.depth = a.depth + 1 := by
  rw [Atom.enclosed, Atom.depth, Disjunction.depth, Conjunction.depth, Negation.depth, Test.depth,
    Chain.depth]

theorem Atom.enclosed_value (s : State) (a : Atom) : a.enclosed.tree.value s = a.tree.value s := by
  rw [Atom.enclosed, Atom.tree, Operand.value_group, Disjunction.tree, Conjunction.tree, Negation.tree,
    Test.tree, Expr.value]

/-! ### Alike derivations -/

/-- Two conditions with the same value in every state, alone and among other terms. -/
structure Disjunction.Alike (d d' : Disjunction) : Prop where
  value (s : State) : d'.tree.value s = d.tree.value s
  terms (s : State) : anyHolds s d'.terms = anyHolds s d.terms

structure Conjunction.Alike (c c' : Conjunction) : Prop where
  value (s : State) : c'.tree.value s = c.tree.value s
  terms (s : State) : allHold s c'.terms = allHold s c.terms

/-- Two chains whose first operands and whose comparisons agree, after any operand. -/
structure Chain.Alike (c c' : Chain) : Prop where
  first (s : State) : c'.first.value s = c.first.value s
  rest (s : State) (left : Json) : chainHolds s left c'.rest = chainHolds s left c.rest
  alone : c'.rest = [] ↔ c.rest = []

theorem holds_congr {e e' : Expr} {s : State} (h : e'.value s = e.value s) : e'.holds s = e.holds s := by
  rw [e'.holds_eq_truthy, h, ← e.holds_eq_truthy]

theorem Disjunction.Alike.one {c c' : Conjunction} (h : c.Alike c') :
    Disjunction.Alike (.one c) (.one c') := by
  refine ⟨fun s => ?_, fun s => ?_⟩
  · rw [Disjunction.tree, Disjunction.tree, h.value]
  · simp only [Disjunction.terms, anyHolds, holds_congr (h.value s)]

theorem Disjunction.Alike.more {c c' : Conjunction} {rest rest' : Disjunction} (h : c.Alike c')
    (hRest : rest.Alike rest') : Disjunction.Alike (.more c rest) (.more c' rest') := by
  have hTerms (s : State) : anyHolds s (Disjunction.more c' rest').terms =
      anyHolds s (Disjunction.more c rest).terms := by
    rw [Disjunction.terms, Disjunction.terms, anyHolds, anyHolds, holds_congr (h.value s), hRest.terms]
  refine ⟨fun s => ?_, hTerms⟩
  exact congrArg Json.bool (hTerms s)

theorem Conjunction.Alike.one {n n' : Negation} (h : ∀ s, n'.tree.value s = n.tree.value s) :
    Conjunction.Alike (.one n) (.one n') := by
  refine ⟨fun s => ?_, fun s => ?_⟩
  · rw [Conjunction.tree, Conjunction.tree, h]
  · simp only [Conjunction.terms, allHold, holds_congr (h s)]

theorem Conjunction.Alike.more {n n' : Negation} {rest rest' : Conjunction}
    (h : ∀ s, n'.tree.value s = n.tree.value s) (hRest : rest.Alike rest') :
    Conjunction.Alike (.more n rest) (.more n' rest') := by
  have hTerms (s : State) : allHold s (Conjunction.more n' rest').terms =
      allHold s (Conjunction.more n rest).terms := by
    rw [Conjunction.terms, Conjunction.terms, allHold, allHold, holds_congr (h s), hRest.terms]
  refine ⟨fun s => ?_, hTerms⟩
  exact congrArg Json.bool (hTerms s)

theorem Chain.Alike.one {a a' : Atom} (h : ∀ s, a'.tree.value s = a.tree.value s) :
    Chain.Alike (.one a) (.one a') :=
  ⟨h, fun _ _ => rfl, Iff.rfl⟩

theorem Chain.Alike.more {a a' : Atom} {rest rest' : Chain} (h : ∀ s, a'.tree.value s = a.tree.value s)
    (op : Comparison) (hRest : rest.Alike rest') : Chain.Alike (.more a op rest) (.more a' op rest') := by
  refine ⟨h, fun s left => ?_, iff_of_false (by rw [Chain.rest]; nofun) (by rw [Chain.rest]; nofun)⟩
  rw [Chain.rest, Chain.rest, chainHolds, chainHolds, hRest.first, hRest.rest]

theorem Chain.Alike.test {c c' : Chain} (h : c.Alike c') (s : State) :
    (Test.chain c').tree.value s = (Test.chain c).tree.value s := by
  cases c with
  | one a =>
      cases c' with
      | one a' => exact h.first s
      | more a' op rest => cases h.alone.mpr rfl
  | more a op rest =>
      cases c' with
      | one a' => cases h.alone.mp rfl
      | more a' op' rest' =>
          have hFirst : a'.tree.value s = a.tree.value s := h.first s
          have hRest := h.rest s (a.tree.value s)
          rw [Chain.rest, Chain.rest] at hRest
          rw [Test.tree, Test.tree, Expr.value, Expr.value, Expr.holds, Expr.holds, hFirst, hRest]
          all_goals rintro _ ⟨⟩

/-! ### Parentheses around an operand -/

mutual

/-- With the operand in parentheses, the derivation is of the lexemes with the parentheses, is at most as deep
as itself and the operand there, and has the same values. -/
theorem Disjunction.HasOperand.enclose {d : Disjunction} {around : Nat} {front back : List Lexeme} :
    d.HasOperand a around front back →
    ∃ d' : Disjunction, d'.lexemes = front ++ a.enclosed.lexemes ++ back ∧
      d'.depth ≤ max d.depth (around + a.enclosed.depth) ∧ d.Alike d'
  | .one h => by
      obtain ⟨c', hLexemes, hDepth, hAlike⟩ := h.enclose
      refine ⟨.one c', ?_, ?_, .one hAlike⟩
      · rw [Disjunction.lexemes, hLexemes]
      · rw [Disjunction.depth, Disjunction.depth]
        exact hDepth
  | .first rest h => by
      obtain ⟨c', hLexemes, hDepth, hAlike⟩ := h.enclose
      refine ⟨.more c' rest, ?_, ?_, .more hAlike ⟨fun _ => rfl, fun _ => rfl⟩⟩
      · rw [Disjunction.lexemes, hLexemes]
        simp only [List.append_assoc]
      · rw [Disjunction.depth, Disjunction.depth]
        omega
  | .later c h => by
      obtain ⟨rest', hLexemes, hDepth, hAlike⟩ := h.enclose
      refine ⟨.more c rest', ?_, ?_, .more ⟨fun _ => rfl, fun _ => rfl⟩ hAlike⟩
      · rw [Disjunction.lexemes, hLexemes]
        simp only [List.append_assoc, List.cons_append]
      · rw [Disjunction.depth, Disjunction.depth]
        omega

theorem Conjunction.HasOperand.enclose {c : Conjunction} {around : Nat} {front back : List Lexeme} :
    c.HasOperand a around front back →
    ∃ c' : Conjunction, c'.lexemes = front ++ a.enclosed.lexemes ++ back ∧
      c'.depth ≤ max c.depth (around + a.enclosed.depth) ∧ c.Alike c'
  | .one h => by
      obtain ⟨n', hLexemes, hDepth, hAlike⟩ := h.enclose
      refine ⟨.one n', ?_, ?_, .one hAlike⟩
      · rw [Conjunction.lexemes, hLexemes]
      · rw [Conjunction.depth, Conjunction.depth]
        exact hDepth
  | .first rest h => by
      obtain ⟨n', hLexemes, hDepth, hAlike⟩ := h.enclose
      refine ⟨.more n' rest, ?_, ?_, .more hAlike ⟨fun _ => rfl, fun _ => rfl⟩⟩
      · rw [Conjunction.lexemes, hLexemes]
        simp only [List.append_assoc]
      · rw [Conjunction.depth, Conjunction.depth]
        omega
  | .later n h => by
      obtain ⟨rest', hLexemes, hDepth, hAlike⟩ := h.enclose
      refine ⟨.more n rest', ?_, ?_, .more (fun _ => rfl) hAlike⟩
      · rw [Conjunction.lexemes, hLexemes]
        simp only [List.append_assoc, List.cons_append]
      · rw [Conjunction.depth, Conjunction.depth]
        omega

theorem Negation.HasOperand.enclose {n : Negation} {around : Nat} {front back : List Lexeme} :
    n.HasOperand a around front back →
    ∃ n' : Negation, n'.lexemes = front ++ a.enclosed.lexemes ++ back ∧
      n'.depth ≤ max n.depth (around + a.enclosed.depth) ∧ ∀ s, n'.tree.value s = n.tree.value s
  | .not h => by
      obtain ⟨inner', hLexemes, hDepth, hAlike⟩ := h.enclose
      refine ⟨.not inner', ?_, ?_, fun s => ?_⟩
      · rw [Negation.lexemes, hLexemes]
        simp only [List.cons_append]
      · rw [Negation.depth, Negation.depth]
        omega
      · rw [Negation.tree, Negation.tree, Expr.value, Expr.value, Expr.holds, Expr.holds,
          holds_congr (hAlike s)]
        all_goals rintro _ ⟨⟩
  | .test h => by
      obtain ⟨t', hLexemes, hDepth, hAlike⟩ := h.enclose
      refine ⟨.test t', ?_, ?_, hAlike⟩
      · rw [Negation.lexemes, hLexemes]
      · rw [Negation.depth, Negation.depth]
        exact hDepth

theorem Test.HasOperand.enclose {t : Test} {around : Nat} {front back : List Lexeme} :
    t.HasOperand a around front back →
    ∃ t' : Test, t'.lexemes = front ++ a.enclosed.lexemes ++ back ∧
      t'.depth ≤ max t.depth (around + a.enclosed.depth) ∧ ∀ s, t'.tree.value s = t.tree.value s
  | .chain h => by
      obtain ⟨c', hLexemes, hDepth, hAlike⟩ := h.enclose
      refine ⟨.chain c', ?_, ?_, hAlike.test⟩
      · rw [Test.lexemes, hLexemes]
      · rw [Test.depth, Test.depth]
        exact hDepth
  | .isNone negated h => by
      obtain ⟨b', hLexemes, hDepth, hAlike⟩ := h.enclose
      refine ⟨.isNone b' negated, ?_, ?_, fun s => ?_⟩
      · rw [Test.lexemes, hLexemes]
        simp only [List.append_assoc]
      · rw [Test.depth, Test.depth]
        exact hDepth
      · rw [Test.tree, Test.tree, Expr.value, Expr.value, Expr.holds, Expr.holds, hAlike]
        all_goals rintro _ ⟨⟩

theorem Chain.HasOperand.enclose {c : Chain} {around : Nat} {front back : List Lexeme} :
    c.HasOperand a around front back →
    ∃ c' : Chain, c'.lexemes = front ++ a.enclosed.lexemes ++ back ∧
      c'.depth ≤ max c.depth (around + a.enclosed.depth) ∧ c.Alike c'
  | .one h => by
      obtain ⟨b', hLexemes, hDepth, hAlike⟩ := h.enclose
      refine ⟨.one b', ?_, ?_, .one hAlike⟩
      · rw [Chain.lexemes, hLexemes]
      · rw [Chain.depth, Chain.depth]
        exact hDepth
  | .first op rest h => by
      obtain ⟨b', hLexemes, hDepth, hAlike⟩ := h.enclose
      refine ⟨.more b' op rest, ?_, ?_, .more hAlike op ⟨fun _ => rfl, fun _ _ => rfl, Iff.rfl⟩⟩
      · rw [Chain.lexemes, hLexemes]
        simp only [List.append_assoc]
      · rw [Chain.depth, Chain.depth]
        omega
  | .later b op h => by
      obtain ⟨rest', hLexemes, hDepth, hAlike⟩ := h.enclose
      refine ⟨.more b op rest', ?_, ?_, .more (fun _ => rfl) op hAlike⟩
      · rw [Chain.lexemes, hLexemes]
        simp only [List.append_assoc, List.cons_append]
      · rw [Chain.depth, Chain.depth]
        omega

theorem Atom.HasOperand.enclose {b : Atom} {around : Nat} {front back : List Lexeme} :
    Atom.HasOperand a b around front back →
    ∃ b' : Atom, b'.lexemes = front ++ a.enclosed.lexemes ++ back ∧
      b'.depth ≤ max b.depth (around + a.enclosed.depth) ∧ ∀ s, b'.tree.value s = b.tree.value s
  | .here => by
      refine ⟨a.enclosed, ?_, ?_, fun s => a.enclosed_value s⟩
      · rw [List.nil_append, List.append_nil]
      · omega
  | .group h => by
      obtain ⟨inner', hLexemes, hDepth, hAlike⟩ := h.enclose
      refine ⟨.group inner', ?_, ?_, fun s => ?_⟩
      · rw [Atom.lexemes, hLexemes]
        simp only [List.append_assoc, List.cons_append]
      · rw [Atom.depth, Atom.depth]
        omega
      · rw [Atom.tree, Atom.tree, Operand.value_group, Operand.value_group, hAlike.value]

end

end Stepwise.Guard.Grammar
