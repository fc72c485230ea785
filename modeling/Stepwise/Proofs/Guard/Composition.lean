import Stepwise.Proofs.Guard.Operands

/-! Conditions are made of conditions. Parentheses around the text of a condition make it one operand,
whatever stands around it, so the meaning of a compound text is computed from the meanings of its parts; and
parentheses around an operand change no value. -/
namespace Stepwise

open Guard Grammar

/-! ### Text in parentheses -/

namespace Guard

variable {afterDot : Bool} {text rest : List Char} {inside more : List Lexeme}

theorem Lexes.openParen (h : Lexes false text inside) :
    Lexes afterDot ('(' :: text) (.openParen :: inside) := by
  have hRead : readLexeme afterDot '(' text = .ok (.openParen, 0) := rfl
  exact .lexeme rfl hRead h

theorem Lexes.closeParen (h : Lexes false rest more) :
    Lexes afterDot (')' :: rest) (.closeParen :: more) := by
  have hRead : readLexeme afterDot ')' rest = .ok (.closeParen, 0) := rfl
  exact .lexeme rfl hRead h

/-- Nothing in parentheses is continued by what stands behind them. -/
theorem Lexes.enclosed (h : Lexes false text inside) (hRest : Lexes false rest more) :
    Lexes afterDot ('(' :: (text ++ ')' :: rest)) (.openParen :: (inside ++ .closeParen :: more)) :=
  (h.append (separate_cons.mpr (.inr (.inr (.inl rfl)))) hRest.closeParen).openParen

/-- Words before an opening parenthesis. -/
theorem Lexes.before_openParen {words : List Char} {spelled : List Lexeme}
    (hWords : Lexes false words spelled) (hEnd : endsInDot false spelled = false)
    (h : Lexes false ('(' :: text) inside) :
    Lexes false (words ++ '(' :: text) (spelled ++ inside) :=
  hWords.append (separate_cons.mpr (.inr (.inl rfl))) (by rw [hEnd]; exact h)

theorem lexes_not : Lexes false "not ".toList [.not] :=
  spells_iff.mp (by decide +kernel)

theorem lexes_and : Lexes false " and ".toList [.and] :=
  spells_iff.mp (by decide +kernel)

theorem lexes_or : Lexes false " or ".toList [.or] :=
  spells_iff.mp (by decide +kernel)

theorem lexes_or_not : Lexes false " or not ".toList [.or, .not] :=
  spells_iff.mp (by decide +kernel)

theorem lexes_eq_true : Lexes false " == True".toList [.compare .eq, .truth true] :=
  spells_iff.mp (by decide +kernel)

end Guard

/-- The condition in parentheses, as a term. -/
def Guard.Grammar.Disjunction.enclosed (d : Disjunction) : Negation :=
  .test (.chain (.one (.group d)))

theorem Guard.Grammar.Disjunction.enclosed_holds (s : State) (d : Disjunction) :
    d.enclosed.tree.holds s = d.tree.holds s := by
  rw [Disjunction.enclosed, Negation.tree, Test.tree, Expr.holds, Atom.tree, Operand.value_group,
    ← Expr.holds_eq_truthy]

theorem Guard.Grammar.Disjunction.enclosed_depth (d : Disjunction) : d.enclosed.depth = d.depth + 1 := by
  rw [Disjunction.enclosed, Negation.depth, Test.depth, Chain.depth, Atom.depth]

theorem Guard.Grammar.Disjunction.enclosed_lexemes (d : Disjunction) :
    d.enclosed.lexemes = .openParen :: (d.lexemes ++ [.closeParen]) := by
  rw [Disjunction.enclosed, Negation.lexemes, Test.lexemes, Chain.lexemes, Atom.lexemes,
    List.cons_append]

namespace Condition

/-- The text compiles to the condition, and has room for `not` and parentheses around it. -/
structure Nests (text : String) (c : Condition) (e : Expr) : Prop where
  compiles : compile text = .ok c
  expr : c.expr? = some e
  depth : e.depth + 2 ≤ maxDepth

/-- What a text that nests is made of. -/
theorem Nests.exists_derivation {text : String} {c : Condition} {e : Expr} (h : Nests text c e) :
    ∃ d : Disjunction, Lexes false text.toList d.lexemes ∧ d.depth + 2 ≤ maxDepth ∧ d.tree = e ∧
      ∀ s, d.tree.holds s = c.holds s := by
  obtain ⟨d, hLexes, -, rfl⟩ := Condition.exists_derivation h.compiles h.expr
  refine ⟨d, hLexes, d.tree_depth ▸ h.depth, rfl, fun s => ?_⟩
  rw [Condition.holds, h.expr]

variable {A B : String} {a b : Condition} {e f : Expr}

theorem Nests.means_enclosed (h : Nests A a e) : Means ("(" ++ A ++ ")") a.holds := by
  obtain ⟨d, hLexes, hDepth, -, hHolds⟩ := h.exists_derivation
  refine means_of_lexes (d := .one (.one d.enclosed)) ?_ ?_ fun s => ?_
  · have hText : ("(" ++ A ++ ")").toList = '(' :: (A.toList ++ ')' :: []) := by simp
    rw [hText, Disjunction.lexemes, Conjunction.lexemes, d.enclosed_lexemes]
    exact hLexes.enclosed .nil
  · rw [Disjunction.depth, Conjunction.depth, d.enclosed_depth]
    omega
  · rw [Disjunction.tree, Conjunction.tree, d.enclosed_holds, hHolds]

theorem Nests.means_not (h : Nests A a e) : Means ("not (" ++ A ++ ")") fun s => !a.holds s := by
  obtain ⟨d, hLexes, hDepth, -, hHolds⟩ := h.exists_derivation
  refine means_of_lexes (d := .one (.one (.not d.enclosed))) ?_ ?_ fun s => ?_
  · have hText : ("not (" ++ A ++ ")").toList = "not ".toList ++ '(' :: (A.toList ++ ')' :: []) := by simp
    rw [hText, Disjunction.lexemes, Conjunction.lexemes, Negation.lexemes, d.enclosed_lexemes]
    exact lexes_not.before_openParen rfl (hLexes.enclosed .nil)
  · rw [Disjunction.depth, Conjunction.depth, Negation.depth, d.enclosed_depth]
    omega
  · rw [Disjunction.tree, Conjunction.tree, Negation.tree, Expr.holds, d.enclosed_holds, hHolds]

theorem Nests.means_and (h : Nests A a e) (h' : Nests B b f) :
    Means ("(" ++ A ++ ") and (" ++ B ++ ")") fun s => a.holds s && b.holds s := by
  obtain ⟨d, hLexes, hDepth, -, hHolds⟩ := h.exists_derivation
  obtain ⟨d', hLexes', hDepth', -, hHolds'⟩ := h'.exists_derivation
  refine means_of_lexes (d := .one (.more d.enclosed (.one d'.enclosed))) ?_ ?_ fun s => ?_
  · have hText : ("(" ++ A ++ ") and (" ++ B ++ ")").toList =
        '(' :: (A.toList ++ ')' :: (" and ".toList ++ '(' :: (B.toList ++ ')' :: []))) := by simp
    have hRest := lexes_and.before_openParen rfl (hLexes'.enclosed .nil)
    have hAll : Lexes false _ _ := hLexes.enclosed hRest
    rw [hText]
    simpa [Disjunction.lexemes, Conjunction.lexemes, d.enclosed_lexemes, d'.enclosed_lexemes] using hAll
  · rw [Disjunction.depth, Conjunction.depth, Conjunction.depth, d.enclosed_depth, d'.enclosed_depth]
    omega
  · simp only [Disjunction.tree, Conjunction.tree, Conjunction.terms, Expr.holds, allHold, Bool.and_true,
      d.enclosed_holds, d'.enclosed_holds, hHolds, hHolds']

theorem Nests.means_or (h : Nests A a e) (h' : Nests B b f) :
    Means ("(" ++ A ++ ") or (" ++ B ++ ")") fun s => a.holds s || b.holds s := by
  obtain ⟨d, hLexes, hDepth, -, hHolds⟩ := h.exists_derivation
  obtain ⟨d', hLexes', hDepth', -, hHolds'⟩ := h'.exists_derivation
  refine means_of_lexes (d := .more (.one d.enclosed) (.one (.one d'.enclosed))) ?_ ?_ fun s => ?_
  · have hText : ("(" ++ A ++ ") or (" ++ B ++ ")").toList =
        '(' :: (A.toList ++ ')' :: (" or ".toList ++ '(' :: (B.toList ++ ')' :: []))) := by simp
    have hRest := lexes_or.before_openParen rfl (hLexes'.enclosed .nil)
    have hAll : Lexes false _ _ := hLexes.enclosed hRest
    rw [hText]
    simpa [Disjunction.lexemes, Conjunction.lexemes, d.enclosed_lexemes, d'.enclosed_lexemes] using hAll
  · rw [Disjunction.depth, Disjunction.depth, Conjunction.depth, Conjunction.depth, d.enclosed_depth,
      d'.enclosed_depth]
    omega
  · simp only [Disjunction.tree, Conjunction.tree, Disjunction.terms, Expr.holds, anyHolds, Bool.or_false,
      d.enclosed_holds, d'.enclosed_holds, hHolds, hHolds']

theorem Nests.means_and_or_not (h : Nests A a e) (h' : Nests B b f) :
    Means ("(" ++ A ++ ") and (" ++ B ++ ") or not (" ++ A ++ ")")
      fun s => a.holds s && b.holds s || !a.holds s := by
  obtain ⟨d, hLexes, hDepth, -, hHolds⟩ := h.exists_derivation
  obtain ⟨d', hLexes', hDepth', -, hHolds'⟩ := h'.exists_derivation
  refine means_of_lexes
    (d := .more (.more d.enclosed (.one d'.enclosed)) (.one (.one (.not d.enclosed)))) ?_ ?_ fun s => ?_
  · have hText : ("(" ++ A ++ ") and (" ++ B ++ ") or not (" ++ A ++ ")").toList =
        '(' :: (A.toList ++ ')' :: (" and ".toList ++ '(' :: (B.toList ++ ')' ::
          (" or not ".toList ++ '(' :: (A.toList ++ ')' :: []))))) := by simp
    have hLast := lexes_or_not.before_openParen rfl (hLexes.enclosed .nil)
    have hRest := lexes_and.before_openParen rfl (hLexes'.enclosed hLast)
    have hAll : Lexes false _ _ := hLexes.enclosed hRest
    rw [hText]
    simpa [Disjunction.lexemes, Conjunction.lexemes, Negation.lexemes, d.enclosed_lexemes,
      d'.enclosed_lexemes] using hAll
  · simp only [Disjunction.depth, Conjunction.depth, Negation.depth, d.enclosed_depth, d'.enclosed_depth]
    omega
  · simp only [Disjunction.tree, Conjunction.tree, Negation.tree, Disjunction.terms, Conjunction.terms,
      Expr.holds, anyHolds, allHold, Bool.and_true, Bool.or_false, d.enclosed_holds, d'.enclosed_holds,
      hHolds, hHolds']

/-- Comparing with `True` asks for the value itself, so it changes nothing but for a bare operand. -/
theorem Nests.eq_true (h : Nests A a e) :
    (∃ c, compile ("(" ++ A ++ ") == True") = .ok c) ∧
      (e.isBare = false → Means ("(" ++ A ++ ") == True") a.holds) := by
  obtain ⟨d, hLexes, hDepth, rfl, hHolds⟩ := h.exists_derivation
  let whole : Disjunction :=
    .one (.one (.test (.chain (.more (.group d) .eq (.one (.literal (.truth true)))))))
  have hText : ("(" ++ A ++ ") == True").toList = '(' :: (A.toList ++ ')' :: " == True".toList) := by simp
  have hWhole : Lexes false ("(" ++ A ++ ") == True").toList whole.lexemes := by
    have hAll : Lexes false _ _ := hLexes.enclosed lexes_eq_true
    rw [hText]
    simpa [whole, Disjunction.lexemes, Conjunction.lexemes, Negation.lexemes, Test.lexemes,
      Chain.lexemes, Atom.lexemes, Literal.lexeme] using hAll
  have hFits : whole.depth ≤ maxDepth := by
    simp only [whole, Disjunction.depth, Conjunction.depth, Negation.depth, Test.depth, Chain.depth,
      Atom.depth]
    omega
  have hValue (s : State) : whole.tree.holds s = equal (d.tree.value s) (.bool true) := by
    simp only [whole, Disjunction.tree, Conjunction.tree, Negation.tree, Test.tree, Chain.first,
      Chain.rest, Atom.tree, Expr.holds, chainHolds, Operand.value_group, Bool.and_true]
    rfl
  refine ⟨⟨_, compile_of_lexes hWhole hFits⟩, fun hBare => means_of_lexes hWhole hFits fun s => ?_⟩
  rw [hValue, Expr.value_of_not_bare s hBare, hHolds, equal]
  cases a.holds s <;> rfl

/-! ### Operands in parentheses -/

/-- The text in the middle is an operand of the condition that the three texts spell together. `around` counts
the negations and parentheses that are open around it. -/
structure OperandIn (before text after : String) (a : Atom) (around : Nat) : Prop where
  place : ∃ (d : Disjunction) (front back : List Lexeme), d.HasOperand a around front back ∧
    Spells (before ++ text ++ after) d.lexemes ∧ Spells before front ∧ Spells after back
  operand : Spells text a.lexemes

theorem OperandIn.means_enclosed {before text after : String} {a : Atom} {around : Nat} {c : Condition}
    (h : OperandIn before text after a around) (hCompile : compile (before ++ text ++ after) = .ok c)
    (hDepth : around + a.depth < maxDepth) : Means (before ++ "(" ++ text ++ ")" ++ after) c.holds := by
  obtain ⟨⟨d, front, back, hPlace, hWhole, hBefore, hAfter⟩, hText⟩ := h
  rw [spells_iff] at hWhole hBefore hAfter hText
  obtain ⟨hExpr, hFits⟩ := expr_of_compile hCompile hWhole
  obtain ⟨d', hLexemes, hBound, hAlike⟩ := hPlace.enclose
  rw [a.enclosed_depth] at hBound
  refine means_of_lexes (d := d') ?_ (by omega) fun s => ?_
  · have hParens : (before ++ "(" ++ text ++ ")" ++ after).toList =
        before.toList ++ '(' :: (text.toList ++ ')' :: after.toList) := by simp
    have hAll := hBefore.append (separate_cons.mpr (.inr (.inl rfl))) (hText.enclosed hAfter)
    rw [hParens, hLexemes, a.enclosed_lexemes]
    simpa using hAll
  · rw [holds_congr (hAlike.value s), Condition.holds, hExpr]

/-- Compiling is compositional in the text. Conditions that leave room for parentheses compile in them, with
`not`, `and`, `or` and a comparison outside of them, and mean there what they mean alone; `== True` is no
change for a condition that is no bare operand. And parentheses around an operand anywhere in a condition, be
it in a test for `None` or in a comparison, change nothing as long as they may be opened there. -/
theorem compile_composes :
    (∀ {A B : String} {a b : Condition} {e f : Expr}, Nests A a e → Nests B b f →
      Means ("(" ++ A ++ ")") a.holds ∧
      Means ("not (" ++ A ++ ")") (fun s => !a.holds s) ∧
      Means ("(" ++ A ++ ") and (" ++ B ++ ")") (fun s => a.holds s && b.holds s) ∧
      Means ("(" ++ A ++ ") or (" ++ B ++ ")") (fun s => a.holds s || b.holds s) ∧
      (∃ c, compile ("(" ++ A ++ ") == True") = .ok c) ∧
      (e.isBare = false → Means ("(" ++ A ++ ") == True") a.holds) ∧
      Means ("(" ++ A ++ ") and (" ++ B ++ ") or not (" ++ A ++ ")")
        (fun s => a.holds s && b.holds s || !a.holds s)) ∧
    ∀ {before text after : String} {a : Atom} {around : Nat} {c : Condition},
      OperandIn before text after a around → compile (before ++ text ++ after) = .ok c →
      around + a.depth < maxDepth → Means (before ++ "(" ++ text ++ ")" ++ after) c.holds :=
  ⟨fun h h' => ⟨h.means_enclosed, h.means_not, h.means_and h', h.means_or h', h.eq_true.1, h.eq_true.2,
    h.means_and_or_not h'⟩, fun h hCompile hDepth => h.means_enclosed hCompile hDepth⟩

/-- Whether the text compiles and leaves room around it. -/
private def nests (text : String) : Bool :=
  match compile text with
  | .ok ⟨_, some e⟩ => e.depth + 2 ≤ maxDepth
  | _ => false

private theorem exists_nests {text : String} (h : nests text = true) : ∃ c e, Nests text c e := by
  unfold nests at h
  split at h
  · rename_i source e hCompile
    exact ⟨_, e, hCompile, rfl, of_decide_eq_true h⟩
  · cases h

theorem compile_composes_review :
    (∃ a b, compile "quality.attempts >= 3" = .ok a ∧ compile "artifacts.draft is not None" = .ok b ∧
      Means ("(" ++ "quality.attempts >= 3" ++ ") and (" ++ "artifacts.draft is not None" ++ ")")
        fun s => a.holds s && b.holds s) ∧
    ∃ c, compile ("not context.mode == " ++ "artifacts.mode" ++ " < 'x'") = .ok c ∧
      Means ("not context.mode == " ++ "(" ++ "artifacts.mode" ++ ")" ++ " < 'x'") c.holds := by
  constructor
  · have hAttempts : nests "quality.attempts >= 3" = true := by decide +kernel
    have hDraft : nests "artifacts.draft is not None" = true := by decide +kernel
    obtain ⟨a, e, hA⟩ := exists_nests hAttempts
    obtain ⟨b, f, hB⟩ := exists_nests hDraft
    exact ⟨a, b, hA.compiles, hB.compiles, (compile_composes.1 hA hB).2.2.1⟩
  · have hIn : OperandIn "not context.mode == " "artifacts.mode" " < 'x'"
        (.path ⟨.artifacts, ["mode"]⟩) 1 := by
      refine ⟨⟨.one (.one (.not (.test (.chain (.more (.path ⟨.context, ["mode"]⟩) .eq
        (.more (.path ⟨.artifacts, ["mode"]⟩) .lt (.one (.literal (.string "x"))))))))), _, _,
        .one (.one (.not (.test (.chain (.later _ _ (.first _ _ .here)))))), ?_, ?_, ?_⟩, ?_⟩
      all_goals decide +kernel
    obtain ⟨c, hCompile⟩ := exists_ok_of_isOk
      (x := compile ("not context.mode == " ++ "artifacts.mode" ++ " < 'x'")) (by decide +kernel)
    exact ⟨c, hCompile, compile_composes.2 hIn hCompile (by decide)⟩

end Condition

end Stepwise
