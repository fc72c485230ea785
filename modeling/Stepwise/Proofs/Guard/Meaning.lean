import Stepwise.Guard.Condition
import Stepwise.Proofs.Guard.Lexing
import Stepwise.Proofs.Guard.Soundness

/-! What a text means as a condition. A text compiles to an expression exactly when its lexemes have a
derivation that is not too deep, and the expression is the tree of the derivation; so questions about texts
become questions about derivations. -/
namespace Stepwise.Guard

/-! ### Values of expressions -/

/-- The value of an expression as an operand: an operand keeps its own value, all else is true or false. -/
def Expr.value (s : State) : Expr → Json
  | .operand inner => inner.value s
  | e => .bool (e.holds s)

theorem Operand.value_group (s : State) (e : Expr) : (Operand.group e).value s = e.value s := by
  cases e with
  | operand inner => rw [Operand.value, Expr.value]
  | or | and | not | compare | isNone =>
      rw [Operand.value, Expr.value]
      all_goals rintro _ ⟨⟩

/-- An expression holds when its value counts as true. -/
theorem Expr.holds_eq_truthy (s : State) (e : Expr) : e.holds s = truthy (e.value s) := by
  cases e with
  | operand inner => rw [Expr.holds, Expr.value]
  | or | and | not | compare | isNone => rfl

/-- A path or a literal, perhaps in parentheses. -/
def Expr.isBare : Expr → Bool
  | .operand (.group inner) => inner.isBare
  | .operand _ => true
  | _ => false

theorem Expr.value_of_not_bare (s : State) :
    ∀ {e : Expr}, e.isBare = false → e.value s = .bool (e.holds s)
  | .operand (.group inner), h => by
      rw [Expr.isBare] at h
      rw [Expr.holds_eq_truthy, Expr.value, Operand.value_group, Expr.value_of_not_bare s h, truthy]
  | .operand (.path _), h | .operand (.literal _), h => by simp [Expr.isBare] at h
  | .or _, _ | .and _, _ | .not _, _ | .compare _ _, _ | .isNone _ _, _ => rfl

/-! ### Depth of expressions -/

mutual

/-- The greatest number of negations and parentheses that are open at any point. -/
def Expr.depth : Expr → Nat
  | .or terms => depthAmong terms
  | .and terms => depthAmong terms
  | .not inner => inner.depth + 1
  | .compare first rest => max first.depth (depthAlong rest)
  | .isNone operand _ => operand.depth
  | .operand operand => operand.depth

def depthAmong : List Expr → Nat
  | [] => 0
  | term :: rest => max term.depth (depthAmong rest)

def depthAlong : List (Comparison × Operand) → Nat
  | [] => 0
  | (_, operand) :: rest => max operand.depth (depthAlong rest)

def Operand.depth : Operand → Nat
  | .path _ => 0
  | .literal _ => 0
  | .group inner => inner.depth + 1

end

namespace Grammar

theorem Disjunction.tree_depth_eq (d : Disjunction) : d.tree.depth = depthAmong d.terms := by
  cases d <;> simp [Disjunction.tree, Disjunction.terms, Expr.depth, depthAmong]

theorem Conjunction.tree_depth_eq (c : Conjunction) : c.tree.depth = depthAmong c.terms := by
  cases c <;> simp [Conjunction.tree, Conjunction.terms, Expr.depth, depthAmong]

mutual

/-- A tree is as deep as its derivation. -/
theorem Disjunction.depthAmong_terms (d : Disjunction) : depthAmong d.terms = d.depth := by
  cases d with
  | one c =>
      rw [Disjunction.terms, depthAmong, depthAmong, Nat.max_zero, c.tree_depth_eq, c.depthAmong_terms,
        Disjunction.depth]
  | more c rest =>
      rw [Disjunction.terms, depthAmong, c.tree_depth_eq, c.depthAmong_terms, rest.depthAmong_terms,
        Disjunction.depth]

theorem Conjunction.depthAmong_terms (c : Conjunction) : depthAmong c.terms = c.depth := by
  cases c with
  | one n =>
      rw [Conjunction.terms, depthAmong, depthAmong, Nat.max_zero, n.tree_depth, Conjunction.depth]
  | more n rest =>
      rw [Conjunction.terms, depthAmong, n.tree_depth, rest.depthAmong_terms, Conjunction.depth]

theorem Negation.tree_depth (n : Negation) : n.tree.depth = n.depth := by
  cases n with
  | not inner => rw [Negation.tree, Expr.depth, inner.tree_depth, Negation.depth]
  | test t => rw [Negation.tree, t.tree_depth, Negation.depth]

theorem Test.tree_depth (t : Test) : t.tree.depth = t.depth := by
  cases t with
  | isNone a negated => rw [Test.tree, Expr.depth, a.tree_depth, Test.depth]
  | chain c =>
      have hChain := c.depth_parts
      cases c with
      | one a => rw [Test.tree, Expr.depth, a.tree_depth, Test.depth, Chain.depth]
      | more a op rest =>
          rw [Chain.first, Chain.rest] at hChain
          rw [Test.tree, Expr.depth, hChain, Test.depth]

theorem Chain.depth_parts (c : Chain) : max c.first.depth (depthAlong c.rest) = c.depth := by
  cases c with
  | one a => rw [Chain.first, Chain.rest, depthAlong, Nat.max_zero, a.tree_depth, Chain.depth]
  | more a op rest =>
      rw [Chain.first, Chain.rest, depthAlong, a.tree_depth, rest.depth_parts, Chain.depth]

theorem Atom.tree_depth (a : Atom) : a.tree.depth = a.depth := by
  cases a with
  | path path => rw [Atom.tree, Operand.depth, Atom.depth]
  | literal value => rw [Atom.tree, Operand.depth, Atom.depth]
  | group inner =>
      rw [Atom.tree, Operand.depth, inner.tree_depth_eq, inner.depthAmong_terms, Atom.depth]

end

theorem Disjunction.tree_depth (d : Disjunction) : d.tree.depth = d.depth :=
  d.tree_depth_eq.trans d.depthAmong_terms

theorem Disjunction.lexemes_ne_nil (d : Disjunction) : d.lexemes ≠ [] := by
  have hNegation (n : Negation) : n.lexemes ≠ [] := by
    cases n with
    | not inner => simp [Negation.lexemes]
    | test t =>
        obtain ⟨l, rest, hLexemes, -⟩ := t.lexemes_cons
        simp [Negation.lexemes, hLexemes]
  cases d with
  | more c rest => simp [Disjunction.lexemes]
  | one c =>
      cases c with
      | more n rest => simp [Disjunction.lexemes, Conjunction.lexemes]
      | one n => simp [Disjunction.lexemes, Conjunction.lexemes, hNegation]

end Grammar

/-! ### Texts and derivations -/

/-- The lexemes that a text spells. -/
def Spells (text : String) (lexemes : List Lexeme) : Prop :=
  (tokens text.toList).map (List.map Token.lexeme) = .ok lexemes

instance (text : String) (lexemes : List Lexeme) : Decidable (Spells text lexemes) :=
  inferInstanceAs (Decidable (_ = _))

theorem spells_iff {text : String} {lexemes : List Lexeme} :
    Spells text lexemes ↔ Lexes false text.toList lexemes := by
  constructor
  · intro h
    unfold Spells at h
    cases hTokens : tokens text.toList with
    | error fault =>
        rw [hTokens] at h
        cases h
    | ok found =>
        rw [hTokens] at h
        cases h
        exact lexes_of_tokensFrom hTokens
  · intro h
    obtain ⟨found, hTokens, rfl⟩ := h.exists_tokensFrom 0
    rw [Spells, tokens, hTokens]
    rfl

theorem Lexes.unique {afterDot : Bool} {text : List Char} {lexemes lexemes' : List Lexeme}
    (h : Lexes afterDot text lexemes) (h' : Lexes afterDot text lexemes') : lexemes = lexemes' := by
  obtain ⟨found, hTokens, rfl⟩ := h.exists_tokensFrom 0
  obtain ⟨found', hTokens', rfl⟩ := h'.exists_tokensFrom 0
  cases hTokens.symm.trans hTokens'
  rfl

end Guard

open Guard Grammar

namespace Condition

/-- A text whose lexemes have a derivation compiles to the tree of the derivation. -/
theorem compile_of_lexes {text : String} {d : Disjunction} (h : Lexes false text.toList d.lexemes)
    (hDepth : d.depth ≤ maxDepth) : compile text = .ok ⟨Text.trim text, some d.tree⟩ := by
  have hTrimmed := lexes_trimChars_iff.mpr h
  obtain ⟨found, hTokens, hLexemes⟩ := hTrimmed.exists_tokensFrom 0
  have hSource : Text.trimChars text.toList ≠ [] := by
    intro hNil
    rw [hNil] at hTrimmed
    exact d.lexemes_ne_nil (hTrimmed.unique .nil)
  unfold compile
  dsimp only
  rw [if_neg (by simpa using hSource), tokens, hTokens]
  dsimp only [bind, Except.bind]
  rw [d.parse_eq hDepth hLexemes]
  rfl

/-- An expression that a text compiles to is the tree of a derivation of its lexemes. -/
theorem exists_derivation {text : String} {c : Condition} {e : Expr} (h : compile text = .ok c)
    (he : c.expr? = some e) :
    ∃ d : Disjunction, Lexes false text.toList d.lexemes ∧ d.depth ≤ maxDepth ∧ d.tree = e := by
  unfold compile at h
  dsimp only at h
  split_ifs at h with hEmpty
  · cases h
    cases he
  · obtain ⟨found, hTokens, h⟩ := bind_eq_ok_iff.mp h
    obtain ⟨e', hParse, h⟩ := bind_eq_ok_iff.mp h
    cases h
    cases he
    unfold parse at hParse
    obtain ⟨p, hFold, hFinish⟩ := bind_eq_ok_iff.mp hParse
    obtain ⟨d, hLexemes, hDepth, hTree⟩ := (begins_start.foldlM hFold).finish hFinish
    refine ⟨d, lexes_trimChars_iff.mp ?_, hDepth, hTree⟩
    rw [hLexemes, List.nil_append]
    exact lexes_of_tokensFrom hTokens

/-- Only blank text compiles to no expression. -/
theorem trimChars_of_compile {text : String} {c : Condition} (h : compile text = .ok c)
    (he : c.expr? = none) : Text.trimChars text.toList = [] := by
  unfold compile at h
  dsimp only at h
  split_ifs at h with hEmpty
  · simpa using hEmpty
  · obtain ⟨found, hTokens, h⟩ := bind_eq_ok_iff.mp h
    obtain ⟨e, hParse, h⟩ := bind_eq_ok_iff.mp h
    cases h
    cases he

/-- The derivation of the lexemes of a text that compiles. -/
theorem expr_of_compile {text : String} {c : Condition} {d : Disjunction} (h : compile text = .ok c)
    (hLexes : Lexes false text.toList d.lexemes) : c.expr? = some d.tree ∧ d.depth ≤ maxDepth := by
  cases he : c.expr? with
  | none =>
      have hTrimmed := lexes_trimChars_iff.mpr hLexes
      rw [trimChars_of_compile h he] at hTrimmed
      exact absurd (hTrimmed.unique .nil) d.lexemes_ne_nil
  | some e =>
      obtain ⟨d', hLexes', hDepth, rfl⟩ := exists_derivation h he
      cases Disjunction.lexemes_injective (hLexes.unique hLexes')
      exact ⟨rfl, hDepth⟩

/-- The text compiles, and the condition holds in a state if and only if the value there is true. -/
def Means (text : String) (value : State → Bool) : Prop :=
  ∃ c, compile text = .ok c ∧ ∀ s, c.holds s = value s

theorem means_of_lexes {text : String} {d : Disjunction} {value : State → Bool}
    (h : Lexes false text.toList d.lexemes) (hDepth : d.depth ≤ maxDepth)
    (hValue : ∀ s, d.tree.holds s = value s) : Means text value :=
  ⟨_, compile_of_lexes h hDepth, hValue⟩

end Condition

end Stepwise
