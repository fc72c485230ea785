import Mathlib.Data.List.Infix
import Stepwise.Config

/-! What becomes of the text of a configuration before it is read. The text is looked through once from the
left. A reference that is closed gives way to the value of its variable, and neither the value nor the text
around it is looked at again. Every text is of this kind up to a last reference that may not be closed, so what
is known of templates tells what happens to any text. -/
namespace Stepwise.Config

/-- Somewhere in the text a reference is opened. -/
def Opens (text : List Char) : Prop := ['$', '\x7b'] <:+: text

instance (text : List Char) : Decidable (Opens text) :=
  inferInstanceAs (Decidable (['$', '\x7b'] <:+: text))

/-- Wherever a reference is opened, a brace closes it later. -/
def Closes (text : String) : Prop :=
  ∀ front behind, text = front ++ "$\x7b" ++ behind → '\x7d' ∈ behind.toList

/-- Closed references with literal text before, between and behind them, in which no reference is opened. -/
inductive Template where
  | literal (text : String) (plain : ¬ Opens text.toList)
  | reference (before : String) (plain : ¬ Opens before.toList) (name : String)
      (closed : '\x7d' ∉ name.toList) (rest : Template)

namespace Template

/-- The literal text with something in the place of each name. -/
def fill (value : String → String) : Template → String
  | literal text _ => text
  | reference before _ name _ rest => before ++ value name ++ rest.fill value

/-- The template as it is written. -/
def text (t : Template) : String := t.fill fun name => "$\x7b" ++ name ++ "\x7d"

/-- The literal text with the values of the variables, and with the references to those that are not set. -/
def expansion (env : Environment) (t : Template) : String :=
  t.fill fun name => (env name).getD ("$\x7b" ++ name ++ "\x7d")

def names : Template → List String
  | literal _ _ => []
  | reference _ _ name _ rest => name :: rest.names

def pieces : Template → List Piece
  | literal text _ => text.toList.map .char
  | reference before _ name _ rest => before.toList.map .char ++ .reference name :: rest.pieces

theorem fill_congr {value value' : String → String} (t : Template)
    (h : ∀ name ∈ t.names, value name = value' name) : t.fill value = t.fill value' := by
  induction t with
  | literal text plain => rfl
  | reference before plain name closed rest ih =>
      rw [names, List.forall_mem_cons] at h
      rw [fill, fill, h.1, ih h.2]

theorem toList_text_reference (before : String) (plain : ¬ Opens before.toList) (name : String)
    (closed : '\x7d' ∉ name.toList) (rest : Template) :
    (reference before plain name closed rest).text.toList =
      before.toList ++ '$' :: '\x7b' :: (name.toList ++ '\x7d' :: rest.text.toList) := by
  simp [text, fill]

end Template

/-! ### Looking through a text -/

theorem piecesFrom_char {c : Char} {rest : List Char} (h : c = '$' → rest.head? ≠ some '\x7b') :
    piecesFrom none (c :: rest) = .char c :: piecesFrom none rest := by
  rw [piecesFrom]
  rintro rest' rfl rfl
  exact h rfl rfl

/-- Literal text is taken character by character, unless its last one opens a reference with what follows. -/
theorem piecesFrom_literal {literal rest : List Char} (hPlain : ¬ Opens literal)
    (hSeam : ['$'] <:+ literal → rest.head? ≠ some '\x7b') :
    piecesFrom none (literal ++ rest) = literal.map .char ++ piecesFrom none rest := by
  induction literal with
  | nil => rfl
  | cons c literal ih =>
      have hRest : ¬ Opens literal := fun h => hPlain (h.trans (List.suffix_cons c literal).isInfix)
      have hHead : c = '$' → (literal ++ rest).head? ≠ some '\x7b' := by
        rintro rfl
        cases literal with
        | nil => exact hSeam (List.suffix_refl _)
        | cons d literal =>
            intro hBrace
            cases hBrace
            exact hPlain ⟨[], literal, rfl⟩
      rw [List.cons_append, piecesFrom_char hHead, List.map_cons, List.cons_append]
      rw [ih hRest fun h => hSeam (h.trans (List.suffix_cons c literal))]

/-- A name is collected up to the brace that closes it. -/
theorem piecesFrom_name {name : List Char} (hName : '\x7d' ∉ name) (before rest : List Char) :
    piecesFrom (some before) (name ++ rest) = piecesFrom (some (name.reverse ++ before)) rest := by
  induction name generalizing before with
  | nil => rfl
  | cons c name ih =>
      rw [List.mem_cons, not_or] at hName
      rw [List.cons_append, piecesFrom, ih hName.2, List.reverse_cons, List.append_assoc]
      · rfl
      · exact fun h => hName.1 h.symm

theorem piecesFrom_closed {name : List Char} (hName : '\x7d' ∉ name) (rest : List Char) :
    piecesFrom none ('$' :: '\x7b' :: (name ++ '\x7d' :: rest)) =
      .reference (String.ofList name) :: piecesFrom none rest := by
  rw [piecesFrom, piecesFrom_name hName, piecesFrom, List.append_nil, List.reverse_reverse]

theorem piecesFrom_open {name : List Char} (hName : '\x7d' ∉ name) :
    piecesFrom none ('$' :: '\x7b' :: name) = [.reference (String.ofList name)] := by
  have hEnd := piecesFrom_name hName [] []
  rw [List.append_nil, List.append_nil] at hEnd
  rw [piecesFrom, hEnd, piecesFrom, List.reverse_reverse]

/-- What follows closed references is looked through on its own, unless a dollar before it and a brace at its
start meet. -/
theorem pieces_text_append (t : Template) (more : String)
    (hSeam : ['$'] <:+ t.text.toList → more.toList.head? ≠ some '\x7b') :
    pieces (t.text ++ more) = t.pieces ++ pieces more := by
  rw [pieces, String.toList_append]
  induction t with
  | literal text plain => exact piecesFrom_literal plain hSeam
  | reference before plain name closed rest ih =>
      rw [Template.toList_text_reference] at hSeam ⊢
      have hRest : rest.text.toList <:+
          before.toList ++ '$' :: '\x7b' :: (name.toList ++ '\x7d' :: rest.text.toList) :=
        ⟨before.toList ++ '$' :: '\x7b' :: (name.toList ++ ['\x7d']), by simp⟩
      rw [List.append_assoc, List.cons_append, List.cons_append, List.append_assoc, List.cons_append]
      rw [piecesFrom_literal plain fun _ => by simp, piecesFrom_closed closed, String.ofList_toList]
      rw [ih fun h => hSeam (h.trans hRest), Template.pieces, List.append_assoc, List.cons_append]

theorem join_expand_char (env : Environment) (text : List Char) :
    String.join ((text.map Piece.char).map (·.expand env)) = String.ofList text := by
  apply String.toList_inj.mp
  rw [String.toList_join, List.map_map, List.flatMap_map, String.toList_ofList]
  simp [Piece.expand]

theorem join_expand_pieces (env : Environment) (t : Template) :
    String.join (t.pieces.map (·.expand env)) = t.expansion env := by
  induction t with
  | literal text plain =>
      rw [Template.pieces, join_expand_char, String.ofList_toList]
      rfl
  | reference before plain name closed rest ih =>
      rw [Template.pieces, List.map_append, String.join_append, join_expand_char, String.ofList_toList]
      rw [List.map_cons, String.join_cons, ih, ← String.append_assoc]
      rfl

theorem expand_text_append (env : Environment) (t : Template) (more : String)
    (hSeam : ['$'] <:+ t.text.toList → more.toList.head? ≠ some '\x7b') :
    expand env (t.text ++ more) = t.expansion env ++ expand env more := by
  rw [expand, pieces_text_append t more hSeam, List.map_append, String.join_append, join_expand_pieces]
  rfl

theorem expand_empty (env : Environment) : expand env "" = "" := by
  simp [expand, pieces, piecesFrom]

theorem expand_text (env : Environment) (t : Template) : expand env t.text = t.expansion env := by
  have hEnd := expand_text_append env t "" fun _ => by simp
  rwa [expand_empty, String.append_empty, String.append_empty] at hEnd

theorem filterMap_name?_pieces (t : Template) : t.pieces.filterMap Piece.name? = t.names := by
  induction t with
  | literal text plain => simp [Template.pieces, Template.names, Piece.name?]
  | reference before plain name closed rest ih => simp [Template.pieces, Template.names, Piece.name?, ih]

theorem references_text_append (t : Template) (more : String)
    (hSeam : ['$'] <:+ t.text.toList → more.toList.head? ≠ some '\x7b') :
    references (t.text ++ more) = t.names ++ references more := by
  rw [references, pieces_text_append t more hSeam, List.filterMap_append, filterMap_name?_pieces]
  rfl

theorem references_empty : references "" = [] := by
  simp [references, pieces, piecesFrom]

theorem references_text (t : Template) : references t.text = t.names := by
  have hEnd := references_text_append t "" fun _ => by simp
  rwa [String.append_empty, references_empty, List.append_nil] at hEnd

/-! ### A reference that is not closed -/

theorem pieces_open {name : String} (hName : '\x7d' ∉ name.toList) :
    pieces ("$\x7b" ++ name) = [.reference name] := by
  rw [pieces, String.toList_append]
  exact (piecesFrom_open hName).trans (by rw [String.ofList_toList])

theorem expand_open (env : Environment) {name : String} (hName : '\x7d' ∉ name.toList) :
    expand env ("$\x7b" ++ name) = (env name).getD (referenceText name) := by
  rw [expand, pieces_open hName, List.map_singleton, String.join_cons, String.join_nil, String.append_empty,
    Piece.expand]

theorem references_open {name : String} (hName : '\x7d' ∉ name.toList) :
    references ("$\x7b" ++ name) = [name] := by
  rw [references, pieces_open hName]
  rfl

/-! ### Every text is closed references and perhaps an open one -/

theorem opens_cons_iff {c : Char} {text : List Char} :
    Opens (c :: text) ↔ ['$', '\x7b'] <+: c :: text ∨ Opens text :=
  List.infix_cons_iff

/-- Literal text ends where the first reference is opened. -/
theorem plain_or_exists_first (text : List Char) :
    ¬ Opens text ∨ ∃ before rest, text = before ++ '$' :: '\x7b' :: rest ∧ ¬ Opens before := by
  induction text with
  | nil => exact .inl (by simp [Opens])
  | cons c text ih =>
      by_cases hHere : ['$', '\x7b'] <+: c :: text
      · obtain ⟨rest, hRest⟩ := hHere
        exact .inr ⟨[], rest, hRest.symm, by simp [Opens]⟩
      · rcases ih with hPlain | ⟨before, rest, rfl, hPlain⟩
        · exact .inl (opens_cons_iff.not.mpr (not_or.mpr ⟨hHere, hPlain⟩))
        · refine .inr ⟨c :: before, rest, rfl, opens_cons_iff.not.mpr (not_or.mpr ⟨fun h => ?_, hPlain⟩)⟩
          exact hHere (h.trans (List.prefix_append (c :: before) _))

/-- Behind the first reference that is closed, the rest of a text is looked through in the same way. -/
theorem exists_template (text : List Char) :
    ∃ t : Template, text = t.text.toList ∨
      ∃ name, '\x7d' ∉ name ∧ text = t.text.toList ++ '$' :: '\x7b' :: name := by
  rcases plain_or_exists_first text with hPlain | ⟨before, rest, hText, hPlain⟩
  · exact ⟨.literal (String.ofList text) (by rwa [String.toList_ofList]), .inl String.toList_ofList.symm⟩
  · rw [← String.toList_ofList (l := before)] at hPlain
    by_cases hBrace : '\x7d' ∈ rest
    · obtain ⟨name, behind, hRest, hName⟩ := List.eq_append_cons_of_mem hBrace
      rw [← String.toList_ofList (l := name)] at hName
      have hShorter : behind.length < text.length := by
        simp only [hText, hRest, List.length_append, List.length_cons]
        omega
      obtain ⟨t, hBehind⟩ := exists_template behind
      refine ⟨.reference (String.ofList before) hPlain (String.ofList name) hName t, ?_⟩
      rw [Template.toList_text_reference, String.toList_ofList, String.toList_ofList, hText, hRest]
      rcases hBehind with hClosed | ⟨last, hLast, hOpen⟩
      · exact .inl (by rw [hClosed])
      · exact .inr ⟨last, hLast, by simp [hOpen]⟩
    · exact ⟨.literal (String.ofList before) hPlain,
        .inr ⟨rest, hBrace, by simp [Template.text, Template.fill, hText]⟩⟩
termination_by text.length

/-- A text ends in literal text or in a reference that is not closed. -/
theorem exists_template_or_open (text : String) :
    (∃ t : Template, text = t.text) ∨
      ∃ (t : Template) (name : String), '\x7d' ∉ name.toList ∧ text = t.text ++ ("$\x7b" ++ name) := by
  obtain ⟨t, hClosed | ⟨name, hName, hOpen⟩⟩ := exists_template text.toList
  · exact .inl ⟨t, String.toList_inj.mp hClosed⟩
  · refine .inr ⟨t, String.ofList name, by rwa [String.toList_ofList], String.toList_inj.mp ?_⟩
    simp [hOpen]

/-- A reference that is opened before a brace is closed by it. -/
theorem mem_or_exists_behind {left right front behind : List Char}
    (h : left ++ '\x7d' :: right = front ++ '$' :: '\x7b' :: behind) :
    '\x7d' ∈ behind ∨ ∃ between, right = between ++ '$' :: '\x7b' :: behind := by
  rcases List.append_eq_append_iff.mp h with ⟨between, -, hRight⟩ | ⟨between, -, hBehind⟩
  · cases between with
    | nil => cases hRight
    | cons c between => exact .inr ⟨between, (List.cons.inj hRight).2⟩
  · rcases between with _ | ⟨c, _ | ⟨d, between⟩⟩
    · cases hBehind
    · cases hBehind
    · cases hBehind
      exact .inl (List.mem_append_right between List.mem_cons_self)

theorem closes_text (t : Template) : Closes t.text := by
  induction t with
  | literal text plain =>
      intro front behind hText
      have hList := congrArg String.toList hText
      rw [Template.text, Template.fill] at hList
      exact absurd ⟨front.toList, behind.toList, by simp [hList]⟩ plain
  | reference before plain name closed rest ih =>
      intro front behind hText
      have hList := congrArg String.toList hText
      rw [Template.toList_text_reference] at hList
      have hBrace : (before.toList ++ '$' :: '\x7b' :: name.toList) ++ '\x7d' :: rest.text.toList =
          front.toList ++ '$' :: '\x7b' :: behind.toList := by simpa using hList
      rcases mem_or_exists_behind hBrace with hMem | ⟨between, hRest⟩
      · exact hMem
      · exact ih (String.ofList between) behind (String.toList_inj.mp (by simp [hRest]))

theorem not_closes_open (t : Template) {name : String} (hName : '\x7d' ∉ name.toList) :
    ¬ Closes (t.text ++ ("$\x7b" ++ name)) :=
  fun h => hName (h t.text name String.append_assoc.symm)

theorem closes_iff (text : String) : Closes text ↔ ∃ t : Template, t.text = text := by
  refine ⟨fun h => ?_, ?_⟩
  · rcases exists_template_or_open text with ⟨t, rfl⟩ | ⟨t, name, hName, rfl⟩
    · exact ⟨t, rfl⟩
    · exact absurd h (not_closes_open t hName)
  · rintro ⟨t, rfl⟩
    exact closes_text t

/-! ### Expansion -/

/-- Expansion is one pass from the left. In a text with closed references each one gives way to the value of its
variable, or stays if that is not set; the values are put in as they are, whatever they hold. The texts of that
kind are those in which a brace follows wherever a reference is opened. What comes behind such a text is expanded
on its own, unless a dollar stands at the seam. -/
theorem expand_closed_references (env : Environment) :
    (∀ t : Template, expand env t.text = t.expansion env) ∧
    (∀ text, Closes text ↔ ∃ t : Template, t.text = text) ∧
    ∀ first second, Closes first → ¬ ['$'] <:+ first.toList →
      expand env (first ++ second) = expand env first ++ expand env second := by
  refine ⟨expand_text env, closes_iff, fun first second hCloses hDollar => ?_⟩
  obtain ⟨t, rfl⟩ := (closes_iff first).mp hCloses
  rw [expand_text_append env t _ fun h => absurd h hDollar, expand_text]

/-- Values that look like references, a name with an opened reference in it, and dollars and braces around. -/
theorem expand_closed_references_nested :
    let env : Environment := fun name =>
      if name = "A" then some "$\x7bB\x7d" else if name = "B" then some "\x7d$" else none
    let first := "$$\x7bA\x7d\x7d$\x7bA$\x7bB\x7d\x7d"
    Closes first ∧ ¬ ['$'] <:+ first.toList ∧
      expand env (first ++ "\x7b$\x7bB\x7d") = "$$\x7bB\x7d\x7d$\x7bA$\x7bB\x7d\x7d" ++ "\x7b\x7d$" := by
  intro env first
  let t : Template := .reference "$" (by decide) "A" (by decide) <|
    .reference "\x7d" (by decide) "A$\x7bB" (by decide) <| .literal "\x7d" (by decide)
  obtain ⟨hFill, hCloses, hAppend⟩ := expand_closed_references env
  have hText : t.text = first := by decide +kernel
  have hClosed : Closes first := (hCloses first).mpr ⟨t, hText⟩
  have hDollar : ¬ ['$'] <:+ first.toList := by decide +kernel
  refine ⟨hClosed, hDollar, ?_⟩
  rw [hAppend first _ hClosed hDollar, ← hText, hFill]
  decide +kernel

end Stepwise.Config
