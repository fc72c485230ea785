import Mathlib.Data.List.Forall2
import Stepwise.Proofs.Step.Placeholder

/-! What rendering does with a template. A template is cut in just one way into its placeholders and the
characters between them, and each piece is shown on its own, so what a value puts into a prompt is never taken
for a part of the template. -/
namespace Stepwise.Prompt

/-! ### Cutting a text at its placeholders -/

/-- What a piece of a template stands for in it. -/
def Piece.source : Piece → String
  | .text c => String.singleton c
  | .placeholder root keys => placeholderText root keys

@[simp] theorem toList_source_text (c : Char) : (Piece.text c).source.toList = [c] :=
  String.toList_singleton c

theorem Piece.source_ne_nil (p : Piece) : p.source.toList ≠ [] := by
  cases p with
  | text c =>
      rw [toList_source_text]
      exact List.cons_ne_nil c []
  | placeholder root keys =>
      rw [source, toList_placeholderText]
      exact List.cons_ne_nil _ _

/-- The text that the pieces come from. -/
def sources (ps : List Piece) : List Char :=
  (String.join (ps.map Piece.source)).toList

@[simp] theorem sources_nil : sources [] = [] := rfl

@[simp] theorem sources_cons (p : Piece) (ps : List Piece) :
    sources (p :: ps) = p.source.toList ++ sources ps := by
  rw [sources, List.map_cons, String.join_cons, String.toList_append, sources]

theorem eq_nil_of_sources {ps : List Piece} (h : sources ps = []) : ps = [] := by
  cases ps with
  | nil => rfl
  | cons p ps =>
      rw [sources_cons] at h
      exact absurd (List.append_eq_nil_iff.mp h).1 p.source_ne_nil

/-- The pieces of a text are its placeholders, each of them, and between them single characters. -/
structure Cuts (text : List Char) (ps : List Piece) : Prop where
  spells : sources ps = text
  identifiers : ∀ root keys, .placeholder root keys ∈ ps → ∀ key ∈ keys, IsIdentifier key.toList
  each : ∀ o : Occurrence text, ∃ before after, ps = before ++ .placeholder o.root o.keys :: after ∧
    sources before = o.before

/-- What follows the first piece is cut by the pieces that follow it. -/
theorem Cuts.tail {text : List Char} {p : Piece} {ps : List Piece}
    (h : Cuts (p.source.toList ++ text) (p :: ps)) : Cuts text ps := by
  refine ⟨?_, fun root keys hMem => h.identifiers root keys (List.mem_cons_of_mem p hMem), fun o => ?_⟩
  · have hSpells := h.spells
    rw [sources_cons] at hSpells
    exact List.append_cancel_left hSpells
  · obtain ⟨before, after, hSplit, hBefore⟩ := h.each (o.prepend p.source.toList)
    rcases before with _ | ⟨q, before⟩
    · exact absurd (List.append_eq_nil_iff.mp hBefore.symm).1 p.source_ne_nil
    · cases hSplit
      rw [sources_cons] at hBefore
      exact ⟨before, after, rfl, List.append_cancel_left hBefore⟩

/-- A text read from the left, with a placeholder taken as one piece wherever one begins. -/
inductive Cut : List Char → List Piece → Prop where
  | nil : Cut [] []
  | placeholder {root : Root} {keys : List String} {rest : List Char} {ps : List Piece}
      (hKeys : ∀ key ∈ keys, IsIdentifier key.toList) (h : Cut rest ps) :
      Cut ((placeholderText root keys).toList ++ rest) (.placeholder root keys :: ps)
  | text {c : Char} {rest : List Char} {ps : List Piece}
      (hNone : ∀ o : Occurrence (c :: rest), o.before ≠ []) (h : Cut rest ps) :
      Cut (c :: rest) (.text c :: ps)

/-- Each piece takes at least one character, so there are no more pieces than the text is long. -/
theorem cut_piecesIn {fuel : Nat} {text : List Char} (h : text.length ≤ fuel) :
    Cut text (piecesIn fuel text) := by
  induction fuel generalizing text with
  | zero =>
      rw [List.length_eq_zero_iff.mp (Nat.le_zero.mp h)]
      exact .nil
  | succ fuel ih =>
      rcases text with _ | ⟨c, text⟩
      · exact .nil
      · rw [piecesIn]
        split
        · next piece rest hRead =>
            split_ifs at hRead with hBrace
            obtain ⟨root, keys, rfl, hKeys, hText⟩ := placeholder?_eq_some_iff.mp hRead
            rw [hBrace, hText]
            refine .placeholder hKeys (ih ?_)
            have hLength := congrArg List.length hText
            rw [toList_placeholderText] at hLength
            simp only [List.length_cons, List.length_append] at hLength h
            omega
        · next hRead =>
            refine .text (fun o hBefore => ?_) (ih (Nat.le_of_succ_le_succ h))
            obtain ⟨hBrace, hSome⟩ := o.read_eq hBefore
            rw [if_pos hBrace, hSome] at hRead
            cases hRead

theorem cut_pieces (template : String) : Cut template.toList (pieces template) :=
  cut_piecesIn (Nat.le_of_eq String.length_toList)

namespace Cut

variable {text : List Char} {ps : List Piece}

theorem spells (h : Cut text ps) : sources ps = text := by
  induction h with
  | nil => rfl
  | placeholder hKeys h ih => rw [sources_cons, ih, Piece.source]
  | text hNone h ih => rw [sources_cons, ih, Piece.source, String.toList_singleton, List.singleton_append]

theorem identifiers (h : Cut text ps) {root : Root} {keys : List String}
    (hMem : .placeholder root keys ∈ ps) : ∀ key ∈ keys, IsIdentifier key.toList := by
  induction h with
  | nil => cases hMem
  | placeholder hKeys h ih =>
      rcases List.mem_cons.mp hMem with hEq | hMem
      · cases hEq
        exact hKeys
      · exact ih hMem
  | text hNone h ih =>
      rcases List.mem_cons.mp hMem with hEq | hMem
      · cases hEq
      · exact ih hMem

/-- Each placeholder of the text is one of the pieces, in its place. -/
theorem exists_piece (h : Cut text ps) (o : Occurrence text) :
    ∃ before after, ps = before ++ .placeholder o.root o.keys :: after ∧ sources before = o.before := by
  induction h with
  | nil =>
      have hEmpty := (List.append_eq_nil_iff.mp (List.append_eq_nil_iff.mp o.spells).2).1
      exact absurd hEmpty (Piece.placeholder o.root o.keys).source_ne_nil
  | @placeholder root keys rest ps hKeys h ih =>
      let first : Occurrence ((placeholderText root keys).toList ++ rest) := ⟨[], root, keys, rest, hKeys, rfl⟩
      rcases first.disjoint o with rfl | hAfter | hBefore
      · exact ⟨[], ps, rfl, rfl⟩
      · rw [Occurrence.stop, List.length_nil, Nat.zero_add, ← String.length_toList] at hAfter
        obtain ⟨o, rfl⟩ := o.exists_prepend _ hAfter
        obtain ⟨before, after, rfl, hBefore⟩ := ih o
        exact ⟨.placeholder root keys :: before, after, rfl, by rw [sources_cons, hBefore]; rfl⟩
      · exact absurd (Nat.lt_of_lt_of_le o.start_lt_stop hBefore) (Nat.not_lt_zero _)
  | @text c rest ps hNone h ih =>
      obtain ⟨o, rfl⟩ := o.exists_prepend [c] (List.length_pos_iff.mpr (hNone o))
      obtain ⟨before, after, rfl, hBefore⟩ := ih o
      exact ⟨.text c :: before, after, rfl, by rw [sources_cons, hBefore, toList_source_text]; rfl⟩

theorem cuts (h : Cut text ps) : Cuts text ps :=
  ⟨h.spells, fun _ _ hMem => h.identifiers hMem, h.exists_piece⟩

/-- A text is cut in one way only. -/
theorem eq_of_cuts {ps' : List Piece} (h : Cut text ps) (h' : Cuts text ps') : ps' = ps := by
  induction h generalizing ps' with
  | nil => exact eq_nil_of_sources h'.spells
  | @placeholder root keys rest ps hKeys h ih =>
      obtain ⟨before, after, rfl, hBefore⟩ := h'.each ⟨[], root, keys, rest, hKeys, rfl⟩
      cases eq_nil_of_sources hBefore
      have hTail : Cuts rest after := Cuts.tail (p := .placeholder root keys) h'
      rw [List.nil_append, ih hTail]
  | @text c rest ps hNone h ih =>
      rcases ps' with _ | ⟨p, ps'⟩
      · cases h'.spells
      · have hSpells := h'.spells
        rw [sources_cons] at hSpells
        cases p with
        | placeholder root keys =>
            -- no placeholder begins here, whatever the pieces say
            have hKeys := h'.identifiers root keys List.mem_cons_self
            exact absurd rfl (hNone ⟨[], root, keys, sources ps', hKeys, hSpells⟩)
        | text d =>
            rw [toList_source_text, List.singleton_append] at hSpells
            cases (List.cons.inj hSpells).1
            have hTail : Cuts rest ps' := by
              refine Cuts.tail (p := .text c) ?_
              rwa [toList_source_text, List.singleton_append]
            rw [ih hTail]

/-- Texts between which no placeholder stands are cut one after the other. -/
theorem append {first second : List Char} {ps' : List Piece} (h : Cut first ps) (h' : Cut second ps')
    (hText : text = first ++ second)
    (hSeam : ∀ o : Occurrence text, o.stop ≤ first.length ∨ first.length ≤ o.start) :
    Cut text (ps ++ ps') := by
  induction h generalizing text with
  | nil =>
      subst hText
      exact h'
  | @placeholder root keys rest ps hKeys h ih =>
      rw [List.append_assoc] at hText
      subst hText
      refine .placeholder hKeys (ih rfl fun o => ?_)
      have hSeam := hSeam (o.prepend (placeholderText root keys).toList)
      simp only [Occurrence.start, Occurrence.stop, Occurrence.prepend, List.length_append] at hSeam ⊢
      omega
  | @text c rest ps hNone h ih =>
      subst hText
      refine .text (fun o hBefore => ?_) (ih rfl fun o => ?_)
      · obtain ⟨_, root, keys, after, hKeys, hText⟩ := o
        cases hBefore
        -- a placeholder that begins here ends before the seam, so the first text has it too
        rcases hSeam ⟨[], root, keys, after, hKeys, hText⟩ with hWithin | hBehind
        · obtain ⟨more, hMore⟩ : (placeholderText root keys).toList <+: c :: rest := by
            refine List.prefix_of_prefix_length_le ⟨after, hText⟩ ⟨second, rfl⟩ ?_
            rwa [Occurrence.stop, List.length_nil, Nat.zero_add, ← String.length_toList] at hWithin
          exact hNone ⟨[], root, keys, more, hKeys, hMore⟩ rfl
        · exact Nat.not_succ_le_zero _ hBehind
      · have hSeam := hSeam (o.prepend [c])
        simp only [Occurrence.start, Occurrence.stop, Occurrence.prepend, List.length_append,
          List.length_cons, List.length_nil] at hSeam ⊢
        omega

end Cut

theorem pieces_append {first second : String}
    (hSeam : ∀ o : Occurrence (first ++ second).toList, o.stop ≤ first.length ∨ first.length ≤ o.start) :
    pieces (first ++ second) = pieces first ++ pieces second := by
  rw [← String.length_toList] at hSeam
  have hCut : Cut (first ++ second).toList (pieces first ++ pieces second) :=
    (cut_pieces first).append (cut_pieces second) String.toList_append hSeam
  exact hCut.eq_of_cuts (cut_pieces _).cuts

/-! ### Rendering -/

/-- What stands in a prompt for a piece of its template. -/
inductive Piece.Shows (s : State) : Piece → String → Prop where
  | text (c : Char) : Shows s (.text c) (String.singleton c)
  | string {root : Root} {keys : List String} {value : String}
      (h : s.lookup? root keys = some (.string value)) : Shows s (.placeholder root keys) value
  | json {root : Root} {keys : List String} {value : Json} (h : s.lookup? root keys = some value)
      (hOther : ∀ text, value ≠ .string text) : Shows s (.placeholder root keys) value.compact
  | absent {root : Root} {keys : List String} (h : s.lookup? root keys = none) :
      Shows s (.placeholder root keys) (placeholderText root keys)

theorem Piece.shows_render (s : State) (p : Piece) : p.Shows s (p.render s) := by
  cases p with
  | text c => exact .text c
  | placeholder root keys =>
      rw [render]
      cases hLookup : s.lookup? root keys with
      | none => exact .absent hLookup
      | some value =>
          cases value with
          | string text => exact .string hLookup
          | null | bool | number | array | object => exact .json hLookup nofun

theorem render_append {first second : String} (s : State)
    (hSeam : ∀ o : Occurrence (first ++ second).toList, o.stop ≤ first.length ∨ first.length ≤ o.start) :
    render (first ++ second) s = render first s ++ render second s := by
  rw [render, pieces_append hSeam, List.map_append, String.join_append, ← render, ← render]

/-- Rendering is one exact pass. The placeholders of a template do not overlap, so it has exactly one cut into
them and single characters. The prompt shows, piece by piece, the value of each placeholder that the state
has, and everything else as it stands; what a value puts in is not looked at. So the prompt of two texts is
made of their prompts, unless a placeholder stands across the seam. -/
theorem render_one_pass (template : String) :
    (∀ o o' : Occurrence template.toList, o = o' ∨ o.stop ≤ o'.start ∨ o'.stop ≤ o.start) ∧
    (∃ ps, Cuts template.toList ps ∧ (∀ ps', Cuts template.toList ps' → ps' = ps) ∧
      ∀ s, ∃ shown, List.Forall₂ (Piece.Shows s) ps shown ∧ render template s = String.join shown) ∧
    ∀ first second, template = first ++ second →
      (∀ o : Occurrence template.toList, o.stop ≤ first.length ∨ first.length ≤ o.start) →
      ∀ s, render template s = render first s ++ render second s := by
  refine ⟨Occurrence.disjoint, ?_, ?_⟩
  · have hCut := cut_pieces template
    refine ⟨pieces template, hCut.cuts, fun ps' h => hCut.eq_of_cuts h, fun s => ?_⟩
    refine ⟨(pieces template).map (·.render s), ?_, rfl⟩
    rw [List.forall₂_map_right_iff, List.forall₂_same]
    exact fun p _ => p.shows_render s
  · rintro first second rfl hSeam s
    exact render_append s hSeam

/-- The brace before a placeholder stays, and so does a placeholder that a value puts in. -/
theorem render_one_pass_inserted :
    let first := "\x7b\x7bcontext.who\x7d"
    let second := "\x7bquality.n\x7d, \x7bcontext.9\x7d"
    let s : State := { State.empty with
      context := Object.empty.insert "who" (.string "\x7bquality.n\x7d")
      quality := Object.empty.insert "n" (.int 3) }
    (∀ o : Occurrence (first ++ second).toList, o.stop ≤ first.length ∨ first.length ≤ o.start) ∧
      render (first ++ second) s = "\x7b\x7bquality.n\x7d3, \x7bcontext.9\x7d" := by
  intro first second s
  obtain ⟨hDisjoint, -, hAppend⟩ := render_one_pass (first ++ second)
  let known : Occurrence (first ++ second).toList :=
    ⟨['\x7b'], .context, ["who"], second.toList, by decide +kernel, by decide +kernel⟩
  have hStop : known.stop = first.length := by decide +kernel
  have hSeam (o : Occurrence (first ++ second).toList) :
      o.stop ≤ first.length ∨ first.length ≤ o.start := by
    rcases hDisjoint known o with rfl | hBehind | hBefore
    · exact .inl (Nat.le_of_eq hStop)
    · exact .inr (hStop ▸ hBehind)
    · exact .inl (Nat.le_trans hBefore (by decide +kernel))
  refine ⟨hSeam, ?_⟩
  rw [hAppend first second rfl hSeam s]
  decide +kernel

end Stepwise.Prompt
