import Stepwise.Proofs.Guard.Spelling
import Stepwise.Proofs.Json.Paths
import Stepwise.Proofs.Step.Rendering

/-! Paths in prompts and in conditions. A placeholder and a condition spell a path alike and walk it alike, so a
guard on a path tells whether the placeholder of that path will be filled in. -/
namespace Stepwise

/-! ### Walking a path -/

namespace Json

/-- Keys lead from a value to another, each to the field of an object. -/
inductive Finds : Json → List String → Json → Prop where
  | here (v : Json) : Finds v [] v
  | under {fields : Fields} {key : String} {v w : Json} {path : List String}
      (hField : fields.lookup key = some v) (h : Finds v path w) : Finds (.object fields) (key :: path) w

/-- Somewhere on the path the next key is missing, or what was reached is no object. -/
def Breaks (v : Json) (path : List String) : Prop :=
  ∃ front key back w, path = front ++ key :: back ∧ Finds v front w ∧
    ∀ fields, w = .object fields → fields.lookup key = none

theorem walk?_eq_some_iff {path : List String} {v w : Json} : walk? path v = some w ↔ Finds v path w := by
  constructor
  · intro h
    induction path generalizing v with
    | nil =>
        cases h
        exact .here _
    | cons key path ih =>
        obtain ⟨fields, u, rfl, hField, hBelow⟩ := exists_of_walk?_cons h
        exact .under hField (ih hBelow)
  · intro h
    induction h with
    | here v => rfl
    | under hField h ih => rw [walk?_cons_of_lookup hField, ih]

theorem walk?_eq_none_iff {path : List String} {v : Json} : walk? path v = none ↔ Breaks v path := by
  constructor
  · intro h
    induction path generalizing v with
    | nil => cases h
    | cons key path ih =>
        by_cases hField : ∃ fields u, v = .object fields ∧ fields.lookup key = some u
        · obtain ⟨fields, u, rfl, hField⟩ := hField
          rw [walk?_cons_of_lookup hField] at h
          obtain ⟨front, k, back, w, rfl, hFinds, hMissing⟩ := ih h
          exact ⟨key :: front, k, back, w, rfl, .under hField hFinds, hMissing⟩
        · refine ⟨[], key, path, v, rfl, .here v, fun fields hObject => ?_⟩
          exact Option.eq_none_iff_forall_ne_some.mpr fun u hu => hField ⟨fields, u, hObject, hu⟩
  · rintro ⟨front, key, back, w, rfl, hFinds, hMissing⟩
    rw [walk?_append, walk?_eq_some_iff.mpr hFinds, Option.bind_some]
    cases w with
    | object fields => rw [walk?, hMissing fields rfl, Option.bind_none]
    | null | bool | number | string | array => rfl

end Json

namespace Prompt

open Guard

/-! ### Identifiers and words -/

theorem isWord_of_isIdentifier {key : String} (h : IsIdentifier key.toList) : isWord key = true := by
  unfold isWord
  cases hKey : key.toList with
  | nil =>
      rw [hKey] at h
      cases h
  | cons c rest =>
      rw [hKey] at h
      refine Bool.and_eq_true_iff.mpr ⟨(isKeyStart_iff c).mpr h.1, List.all_eq_true.mpr fun d hd => ?_⟩
      exact (isKeyPart_iff d).mpr (h.2 d hd)

theorem placeholderText_eq (path : Guard.Path) :
    placeholderText path.root path.keys = "\x7b" ++ path.text ++ "\x7d" := by
  rw [← String.toList_inj, toList_placeholderText, Path.text]
  simp

/-! ### A placeholder inside a template -/

/-- No placeholder stands across the beginning of another one, nor across its end. -/
theorem Occurrence.seam {text : List Char} (o o' : Occurrence text) :
    (o'.stop ≤ o.start ∨ o.start ≤ o'.start) ∧ (o'.stop ≤ o.stop ∨ o.stop ≤ o'.start) := by
  have hLength := o.start_lt_stop
  rcases o.disjoint o' with rfl | hBehind | hBefore
  · exact ⟨.inr (Nat.le_refl _), .inl (Nat.le_refl _)⟩
  · exact ⟨.inr (by omega), .inr hBehind⟩
  · exact ⟨.inl hBefore, .inl (by omega)⟩

/-- A placeholder stands in the prompt for itself alone, whatever is around it. -/
theorem render_around {root : Root} {keys : List String} (hKeys : ∀ key ∈ keys, IsIdentifier key.toList)
    (before after : String) (s : State) :
    render (before ++ placeholderText root keys ++ after) s =
      render before s ++ (Piece.placeholder root keys).render s ++ render after s := by
  have hAlone : render (placeholderText root keys) s = (Piece.placeholder root keys).render s := by
    have hCut : Cut (placeholderText root keys).toList [.placeholder root keys] := by
      rw [← List.append_nil (placeholderText root keys).toList]
      exact .placeholder hKeys .nil
    rw [render, hCut.eq_of_cuts (cut_pieces _).cuts, List.map_singleton, String.join_cons, String.join_nil,
      String.append_empty]
  let inFront : Occurrence (before ++ placeholderText root keys).toList :=
    ⟨before.toList, root, keys, [], hKeys, by rw [List.append_nil, String.toList_append]⟩
  let inside : Occurrence (before ++ placeholderText root keys ++ after).toList :=
    ⟨before.toList, root, keys, after.toList, hKeys, by
      rw [String.toList_append, String.toList_append, List.append_assoc]⟩
  have hStart : inFront.start = before.length := String.length_toList
  have hStop : inside.stop = (before ++ placeholderText root keys).length := by
    rw [Occurrence.stop, String.length_toList, String.length_append]
  rw [render_append s (fun o => hStop ▸ (inside.seam o).2),
    render_append s (fun o => hStart ▸ (inFront.seam o).1), hAlone]

end Prompt

/-! ### Guards on a path -/

namespace Guard

open Grammar

/-- The keys of the path lead from its namespace to the value. -/
def Path.LeadsTo (path : Path) (s : State) (v : Json) : Prop :=
  (s.namespaceOf path.root).toJson.Finds path.keys v

/-- The path breaks off in the state: a key is missing, or a value on the way is no object. -/
def Path.BreaksIn (path : Path) (s : State) : Prop :=
  (s.namespaceOf path.root).toJson.Breaks path.keys

variable {path : Path} {s : State}

theorem Path.lookup?_eq_some_iff {v : Json} : s.lookup? path.root path.keys = some v ↔ path.LeadsTo s v :=
  Json.walk?_eq_some_iff

theorem Path.lookup?_eq_none_iff : s.lookup? path.root path.keys = none ↔ path.BreaksIn s :=
  Json.walk?_eq_none_iff

theorem Path.breaksIn_iff : path.BreaksIn s ↔ ¬∃ v, path.LeadsTo s v := by
  simp only [← lookup?_eq_none_iff, ← lookup?_eq_some_iff, Option.eq_none_iff_forall_ne_some, not_exists, ne_eq]

theorem Path.LeadsTo.resolve_eq {v : Json} (h : path.LeadsTo s v) : path.resolve s = v := by
  rw [resolve, lookup?_eq_some_iff.mpr h, Option.getD_some]

theorem Path.BreaksIn.resolve_eq (h : path.BreaksIn s) : path.resolve s = .null := by
  rw [resolve, lookup?_eq_none_iff.mpr h, Option.getD_none]

/-- A path alone. -/
def bare (path : Path) : Disjunction :=
  .one (.one (.test (.chain (.one (.path path)))))

/-- A test of a path for `None`. -/
def noneTest (path : Path) (negated : Bool) : Disjunction :=
  .one (.one (.test (.isNone (.path path) negated)))

/-- How a test for `None` goes on behind its path. -/
def noneSuffix : (negated : Bool) → String
  | false => " is None"
  | true => " is not None"

theorem lexes_noneSuffix (negated : Bool) :
    Lexes false (noneSuffix negated).toList (.is :: noneLexemes negated) :=
  spells_iff.mp (by cases negated <;> decide +kernel)

theorem compile_path (hKeys : ∀ key ∈ path.keys, isWord key = true) :
    ∃ c, Condition.compile path.text = .ok c ∧ c.expr? = some (.operand (.path path)) := by
  have hText : Lexes false (path.text.toList ++ []) (pathLexemes path ++ []) :=
    Lexes.path hKeys (separate_of_blank (List.forall_mem_nil _)) .nil
  rw [List.append_nil, List.append_nil] at hText
  have hLexes : Lexes false path.text.toList (bare path).lexemes := by
    simpa [bare, Disjunction.lexemes, Conjunction.lexemes, Negation.lexemes, Test.lexemes, Chain.lexemes,
      Atom.lexemes] using hText
  refine ⟨_, Condition.compile_of_lexes hLexes (Nat.zero_le _), ?_⟩
  simp only [bare, Disjunction.tree, Conjunction.tree, Negation.tree, Test.tree, Atom.tree]

theorem compile_noneTest (hKeys : ∀ key ∈ path.keys, isWord key = true) (negated : Bool) :
    ∃ c, Condition.compile (path.text ++ noneSuffix negated) = .ok c ∧
      ∀ s, c.holds s = true ↔ (path.resolve s = .null ↔ negated = false) := by
  have hBlank : Separate (noneSuffix negated).toList := by
    cases negated <;> exact separate_cons.mpr (.inl rfl)
  have hLexes : Lexes false (path.text ++ noneSuffix negated).toList (noneTest path negated).lexemes := by
    rw [String.toList_append]
    simpa [noneTest, Disjunction.lexemes, Conjunction.lexemes, Negation.lexemes, Test.lexemes,
      Atom.lexemes] using Lexes.path hKeys hBlank (lexes_noneSuffix negated)
  refine ⟨_, Condition.compile_of_lexes hLexes (Nat.zero_le _), fun s => ?_⟩
  simp only [Condition.holds, noneTest, Disjunction.tree, Conjunction.tree, Negation.tree, Test.tree, Atom.tree,
    Expr.holds, Operand.value]
  cases path.resolve s <;> cases negated <;> simp

end Guard

namespace Prompt

/-- In any template, the placeholder of the path stands in the prompt for this text. -/
def Becomes (path : Guard.Path) (s : State) (text : String) : Prop :=
  ∀ before after, render (before ++ placeholderText path.root path.keys ++ after) s =
    render before s ++ text ++ render after s

theorem becomes_iff {path : Guard.Path} (hKeys : ∀ key ∈ path.keys, IsIdentifier key.toList) {s : State}
    {text : String} : Becomes path s text ↔ text = (Piece.placeholder path.root path.keys).render s := by
  constructor
  · intro h
    have hAlone := h "" ""
    rw [render_around hKeys] at hAlone
    have hEmpty : render "" s = "" := rfl
    rw [hEmpty, String.empty_append, String.append_empty, String.empty_append, String.append_empty] at hAlone
    exact hAlone.symm
  · rintro rfl before after
    exact render_around hKeys before after s

/-- What a placeholder becomes is settled by walking its path. -/
theorem becomes_iff_walks {path : Guard.Path} (hKeys : ∀ key ∈ path.keys, IsIdentifier key.toList) {s : State}
    {text : String} :
    Becomes path s text ↔ (∃ v, path.LeadsTo s v ∧ text = valueText v) ∨
      (path.BreaksIn s ∧ text = placeholderText path.root path.keys) := by
  simp only [becomes_iff hKeys, ← Guard.Path.lookup?_eq_some_iff, ← Guard.Path.lookup?_eq_none_iff, Piece.render]
  cases s.lookup? path.root path.keys <;> simp

/-- Prompts and guards read the same paths. A path is a condition, and in braces it is a placeholder. Where the
path leads to a value, the placeholder becomes the text of that value, which is also what the path means in a
condition; where it breaks off, the placeholder stays, and the test for `None` holds. So a path that is not
`None` is always filled in. -/
theorem placeholders_read_as_guards (path : Guard.Path) (hKeys : ∀ key ∈ path.keys, IsIdentifier key.toList) :
    placeholderText path.root path.keys = "\x7b" ++ path.text ++ "\x7d" ∧
    ∃ bare isNone isNotNone,
      Condition.compile path.text = .ok bare ∧ bare.expr? = some (.operand (.path path)) ∧
      Condition.compile (path.text ++ " is None") = .ok isNone ∧
      Condition.compile (path.text ++ " is not None") = .ok isNotNone ∧
      ∀ s : State,
        (∀ text, Becomes path s text ↔ (∃ v, path.LeadsTo s v ∧ text = valueText v) ∨
          (path.BreaksIn s ∧ text = placeholderText path.root path.keys)) ∧
        (path.BreaksIn s ↔ ¬∃ v, path.LeadsTo s v) ∧
        (∀ v, path.LeadsTo s v → path.resolve s = v) ∧
        (path.BreaksIn s → isNone.holds s = true) ∧
        (isNotNone.holds s = true → ∃ v, path.LeadsTo s v ∧ Becomes path s (valueText v)) := by
  have hWords : ∀ key ∈ path.keys, Guard.isWord key = true :=
    fun key hKey => isWord_of_isIdentifier (hKeys key hKey)
  obtain ⟨bare, hBare, hExpr⟩ := Guard.compile_path hWords
  obtain ⟨isNone, hIsNone, hHolds⟩ := Guard.compile_noneTest hWords false
  obtain ⟨isNotNone, hIsNotNone, hHoldsNot⟩ := Guard.compile_noneTest hWords true
  refine ⟨placeholderText_eq path, bare, isNone, isNotNone, hBare, hExpr, hIsNone, hIsNotNone, fun s => ?_⟩
  refine ⟨fun text => becomes_iff_walks hKeys, Guard.Path.breaksIn_iff, fun v h => h.resolve_eq,
    fun h => (hHolds s).mpr (iff_of_true h.resolve_eq rfl), fun h => ?_⟩
  have hFound : ∃ v, path.LeadsTo s v := by
    by_contra hNone
    have hNull := (Guard.Path.breaksIn_iff.mpr hNone).resolve_eq
    exact Bool.noConfusion (((hHoldsNot s).mp h).mp hNull)
  obtain ⟨v, hv⟩ := hFound
  exact ⟨v, hv, (becomes_iff_walks hKeys).mpr (.inl ⟨v, hv, rfl⟩)⟩

/-- Keywords are keys like any others, and a null that is there is filled in, although it is `None`. -/
theorem placeholders_read_as_guards_keywords :
    let path : Guard.Path := ⟨.context, ["not", "None"]⟩
    let s := State.ofContext (Object.empty.insert "not" (.object (Object.empty.insert "None" .null)))
    (∀ key ∈ path.keys, IsIdentifier key.toList) ∧ path.LeadsTo s .null ∧
      render "say \x7bcontext.not.None\x7d!" s = "say null!" ∧ path.resolve s = .null := by
  intro path s
  have hKeys : ∀ key ∈ path.keys, IsIdentifier key.toList := by decide +kernel
  have hNull : path.LeadsTo s .null := .under rfl (.under rfl (.here _))
  obtain ⟨-, _, _, _, -, -, -, -, hStates⟩ := placeholders_read_as_guards path hKeys
  obtain ⟨hBecomes, -, hResolve, -, -⟩ := hStates s
  refine ⟨hKeys, hNull, ?_, hResolve .null hNull⟩
  have hAround := (hBecomes "null").mpr (.inl ⟨.null, hNull, by decide +kernel⟩) "say " "!"
  have hTemplate : "say " ++ placeholderText path.root path.keys ++ "!" = "say \x7bcontext.not.None\x7d!" := by
    decide +kernel
  rw [hTemplate] at hAround
  rw [hAround]
  decide +kernel

end Prompt

end Stepwise
