import Mathlib.Data.List.Nodup
import Stepwise.Process.Sample
import Stepwise.Proofs.Process.Findings

/-! What becomes of every edge of a description. In a compiled graph an edge is a guard of the step that it leaves,
or the fallback of that step, or something is found about it; it is never two of these, and nothing else is in
the routes. -/
namespace Stepwise

/-! ### Places -/

namespace Element

private theorem numbered_inj {before after : List Char} {i j : Nat} :
    before ++ Nat.toDigits 10 i ++ after = before ++ Nat.toDigits 10 j ++ after ↔ i = j := by
  rw [List.append_left_inj, List.append_right_inj]
  refine ⟨fun hDigits => ?_, congrArg _⟩
  rw [← Nat.ofDigitChars_ten_toDigits (n := i), hDigits, Nat.ofDigitChars_ten_toDigits]

private theorem toList_text_edge (i : Nat) :
    (edge i).text.toList = "edges[".toList ++ Nat.toDigits 10 i ++ "]".toList := by
  have hText : (edge i).text = "edges[" ++ toString i ++ "]" := rfl
  simp [hText]

private theorem toList_text_edgeCondition (i : Nat) :
    (edgeCondition i).text.toList = "edges[".toList ++ Nat.toDigits 10 i ++ "].condition".toList := by
  have hText : (edgeCondition i).text = "edges[" ++ toString i ++ "].condition" := rfl
  simp [hText]

theorem text_edge_inj {i j : Nat} : (edge i).text = (edge j).text ↔ i = j := by
  rw [← String.toList_inj, toList_text_edge, toList_text_edge, numbered_inj]

theorem text_edgeCondition_inj {i j : Nat} : (edgeCondition i).text = (edgeCondition j).text ↔ i = j := by
  rw [← String.toList_inj, toList_text_edgeCondition, toList_text_edgeCondition, numbered_inj]

theorem text_edge_ne (i j : Nat) : (edge i).text ≠ (edgeCondition j).text := by
  intro h
  have hLast := congrArg List.getLast? (congrArg String.toList h)
  simp only [toList_text_edge, toList_text_edgeCondition, List.getLast?_append] at hLast
  simp at hLast

theorem text_step_ne (name : String) (i : Nat) :
    (step name).text ≠ (edge i).text ∧ (step name).text ≠ (edgeCondition i).text := by
  have hText : (step name).text = "steps." ++ name := rfl
  constructor <;> intro h <;> rw [hText, ← String.toList_inj] at h
  · rw [toList_text_edge] at h
    simp at h
  · rw [toList_text_edgeCondition] at h
    simp at h

end Element

namespace Finding

/-- The text of the element names the edge at a place, or its condition. -/
def names (f : Finding) (place : Nat) : Bool :=
  f.element.text == (Element.edge place).text || f.element.text == (Element.edgeCondition place).text

/-- The text names the edge that is meant, and no other. -/
theorem names_iff {f : Finding} {place : Nat} : f.names place = true ↔ f.IsAbout place := by
  unfold names IsAbout
  rw [Bool.or_eq_true, beq_iff_eq, beq_iff_eq]
  cases f with
  | blankCondition i => simp [element, Element.text_edgeCondition_inj, (Element.text_edge_ne place i).symm]
  | shadowedFallback i source first => simp [element, Element.text_edge_inj, Element.text_edge_ne]
  | unreachableStep step start => simp [element, Element.text_step_ne]

end Finding

/-! ### Edges -/

/-- Where a function has a value at one item only, that value is all that the list is mapped to. -/
theorem filterMap_eq_toList {α β : Type} {f : α → Option β} {before after : List α} {a : α}
    (hBefore : ∀ b ∈ before, f b = none) (hAfter : ∀ b ∈ after, f b = none) :
    (before ++ a :: after).filterMap f = (f a).toList := by
  rw [List.filterMap_append, List.filterMap_eq_nil_iff.mpr hBefore, List.nil_append]
  cases hValue : f a with
  | none => rw [List.filterMap_cons_none hValue, List.filterMap_eq_nil_iff.mpr hAfter, Option.toList]
  | some b => rw [List.filterMap_cons_some hValue, List.filterMap_eq_nil_iff.mpr hAfter, Option.toList]

/-- Where only the values of one item satisfy a predicate, and they all do, the list is filtered to those. -/
theorem filter_filterMap_eq_toList {α β : Type} {f : α → Option β} {p : β → Bool} {before after : List α} {a : α}
    (hBefore : ∀ other ∈ before, ∀ b, f other = some b → p b = false)
    (hAfter : ∀ other ∈ after, ∀ b, f other = some b → p b = false) (hHere : ∀ b, f a = some b → p b = true) :
    ((before ++ a :: after).filterMap f).filter p = (f a).toList := by
  have hOther {other : α} (hNot : ∀ b, f other = some b → p b = false) : (f other).filter p = none :=
    Option.filter_eq_none_iff.mpr fun b hb => Bool.eq_false_iff.mp (hNot b hb)
  have hSame : (f a).filter p = f a := by
    cases hValue : f a with
    | none => rfl
    | some b => exact if_pos (hHere b hValue)
  rw [List.filter_filterMap, filterMap_eq_toList (fun other hMem => hOther (hBefore other hMem))
    (fun other hMem => hOther (hAfter other hMem)), hSame]

theorem exists_split_of_findIdx? {α : Type} {p : α → Bool} {items : List α} {place : Nat}
    (h : items.findIdx? p = some place) : ∃ before a after, items = before ++ a :: after ∧
      before.length = place ∧ p a = true ∧ ∀ other ∈ before, p other = false := by
  obtain ⟨hPlace, hHere, hFirst⟩ := List.findIdx?_eq_some_iff_getElem.mp h
  obtain ⟨before, a, after, rfl, rfl⟩ := exists_split_of_lt hPlace
  refine ⟨before, a, after, rfl, rfl, by simpa using hHere, fun other hOther => ?_⟩
  obtain ⟨j, hj, rfl⟩ := List.mem_iff_getElem.mp hOther
  have hNot := hFirst j hj
  rw [List.getElem_append_left hj] at hNot
  exact Bool.eq_false_iff.mpr hNot

namespace CompiledEdge

theorem index_of_guardOf? {step : String} {c : CompiledEdge} {guarded : GuardedEdge}
    (h : guardOf? step c = some guarded) : guarded.index = c.index := by
  unfold guardOf? at h
  split at h
  · split_ifs at h
    cases h
    rfl
  · cases h

theorem pairwise_index {edges : List Edge} : ∀ {index : Nat} {cs : List CompiledEdge},
    compileAll index edges = .ok cs → cs.Pairwise fun c later => c.index < later.index := by
  induction edges with
  | nil =>
      intro index cs h
      rw [compileAll_nil h]
      exact .nil
  | cons e rest ih =>
      intro index cs h
      obtain ⟨c, cs', rfl, hFirst, hRest⟩ := compileAll_cons h
      refine .cons (fun later hLater => ?_) (ih hRest)
      rw [(compile_ok hFirst).1]
      exact le_index_of_mem hRest later hLater

end CompiledEdge

namespace Graph

/-! ### The account -/

/-- The guards for the edge at a place, in all routes, each with the step whose route it is in. -/
def guardsAt (g : Graph) (place : Nat) : List (String × GuardedEdge) :=
  g.nodes.entries.flatMap fun (step, node) =>
    (node.route.guards.filter (·.index == place)).map (step, ·)

/-- The findings that name the edge at a place. -/
def findingsAt (g : Graph) (place : Nat) : List Finding :=
  g.findings.filter (·.names place)

variable {d : Description} {g : Graph} {done : Condition} {edges : List CompiledEdge}

/-- Routes stand under distinct names, so the guards at a place are those of one edge in one route. -/
theorem Compiled.guardsAt_eq {before after : List Edge} {e : Edge} {earlier later : List CompiledEdge}
    {c : CompiledEdge} (h : Compiled d g done (earlier ++ c :: later)) (hEdges : d.edges = before ++ e :: after)
    (hSplit : CompiledEdge.Split before e earlier c later) :
    g.guardsAt before.length = ((CompiledEdge.guardOf? e.source c).map (e.source, ·)).toList := by
  obtain ⟨hIndex, hSource, -⟩ := CompiledEdge.compile_ok hSplit.edgeCompiles
  have hRoute (step : String) :
      (Route.ofEdges (earlier ++ c :: later) step).guards.filter (·.index == before.length) =
        (CompiledEdge.guardOf? step c).toList := by
    refine filter_filterMap_eq_toList (fun other hMem guarded hGuard => ?_)
      (fun other hMem guarded hGuard => ?_) (fun guarded hGuard => ?_) <;>
      rw [CompiledEdge.index_of_guardOf? hGuard]
    · exact beq_false_of_ne (hSplit.earlier_lt other hMem).ne
    · exact beq_false_of_ne (hSplit.lt_later other hMem).ne'
    · exact beq_iff_eq.mpr hIndex
  have hNames : g.guardsAt before.length =
      d.steps.names.filterMap fun step => (CompiledEdge.guardOf? step c).map (step, ·) := by
    rw [guardsAt, h.nodes, Declarations.map, List.flatMap_map, Declarations.names, List.filterMap_map,
      List.filterMap_eq_flatMap_toList]
    refine List.flatMap_congr fun entry _ => ?_
    dsimp only [Function.comp]
    rw [hRoute]
    cases CompiledEdge.guardOf? entry.1 c <;> rfl
  have hDeclared := (h.wellFormed.edges e (hEdges ▸ by simp)).source
  rw [Declarations.contains_iff_mem_names] at hDeclared
  obtain ⟨xs, ys, hSteps⟩ := List.append_of_mem hDeclared
  have hDistinct : e.source ∉ xs ++ ys := by
    have hNodup : (xs ++ e.source :: ys).Nodup := hSteps ▸ d.steps.distinct
    exact (List.nodup_middle.mp hNodup).notMem
  have hOther (step : String) (hNot : step ≠ e.source) :
      (CompiledEdge.guardOf? step c).map (step, ·) = none := by
    rw [Option.map_eq_none_iff, Option.eq_none_iff_forall_ne_some]
    intro guarded hGuard
    exact hNot ((CompiledEdge.guardOf?_eq_some hGuard).1.symm.trans hSource)
  rw [hNames, hSteps]
  refine filterMap_eq_toList (fun step hMem => hOther step ?_) fun step hMem => hOther step ?_
  · rintro rfl
    exact hDistinct (List.mem_append_left ys hMem)
  · rintro rfl
    exact hDistinct (List.mem_append_right xs hMem)

/-- The findings at a place are those about one edge. -/
theorem findingsAt_eq {before after : List Edge} {e : Edge} {steps : List String}
    (hFindings : g.findings = d.edgeFindings ++ steps.map (.unreachableStep · g.start))
    (hEdges : d.edges = before ++ e :: after) :
    g.findingsAt before.length = (Description.edgeFinding? before e).toList := by
  have hSteps : (steps.map (Finding.unreachableStep · g.start)).filter (·.names before.length) = [] := by
    rw [List.filter_eq_nil_iff, List.forall_mem_map]
    intro step _ hNames
    rcases Finding.names_iff.mp hNames with hAbout | hAbout <;> cases hAbout
  have hPlaces : d.edges.zipIdx = before.zipIdx ++ (e, before.length) :: after.zipIdx (before.length + 1) := by
    rw [hEdges, List.zipIdx_append, List.zipIdx_cons, Nat.zero_add]
  have hHere : d.edges.take before.length = before := by rw [hEdges, List.take_left]
  have hNames {other : Edge} {place : Nat} {f : Finding} (hPlace : place < d.edges.length)
      (hFinding : Description.edgeFinding? (d.edges.take place) other = some f) :
      f.names before.length = true ↔ place = before.length := by
    have hAbout := Description.isAbout_of_edgeFinding? hFinding
    rw [List.length_take_of_le hPlace.le] at hAbout
    rw [Finding.names_iff]
    exact ⟨hAbout.unique, fun hSame => hSame ▸ hAbout⟩
  have hLength : before.length < d.edges.length := by simp [hEdges]
  rw [findingsAt, hFindings, List.filter_append, hSteps, List.append_nil, Description.edgeFindings, hPlaces,
    filter_filterMap_eq_toList]
  · dsimp only
    rw [hHere]
  · rintro ⟨other, place⟩ hMem f hFinding
    have hLt : place < before.length := List.snd_lt_of_mem_zipIdx hMem
    exact Bool.eq_false_iff.mpr fun hTrue => hLt.ne ((hNames (hLt.trans hLength) hFinding).mp hTrue)
  · rintro ⟨other, place⟩ hMem f hFinding
    have hLt : before.length < place := List.le_snd_of_mem_zipIdx hMem
    have hPlace : place < d.edges.length := by
      have hMost : place < before.length + 1 + after.length := List.snd_lt_add_of_mem_zipIdx hMem
      rw [hEdges, List.length_append, List.length_cons]
      omega
    exact Bool.eq_false_iff.mpr fun hTrue => hLt.ne' ((hNames hPlace hFinding).mp hTrue)
  · exact fun f hFinding => (hNames hLength hFinding).mpr rfl

/-! ### Roles -/

inductive EdgeRole where
  | guard
  | fallback
  | useless
deriving DecidableEq

/-- What an edge of the description is in a graph, given the edges before it. A guard and a fallback are in the
route of the step that the edge leaves, and nothing is found about them; of a useless edge nothing is in a
route. -/
inductive Plays (g : Graph) (before : List Edge) (e : Edge) : EdgeRole → Prop
  | guard (guarded : GuardedEdge) (text : String)
      (hGuards : g.guardsAt before.length = [(e.source, guarded)])
      (hFindings : g.findingsAt before.length = [])
      (hTarget : guarded.target = .ofName e.target)
      (hText : e.condition = some text)
      (hUnblank : Text.trim text ≠ "")
      (hCompiles : Condition.compile text = .ok guarded.condition)
      (hSource : guarded.condition.source = Text.trim text) :
      Plays g before e .guard
  | fallback (route : Route)
      (hGuards : g.guardsAt before.length = [])
      (hFindings : g.findingsAt before.length = [])
      (hNone : e.condition = none)
      (hFirst : ∀ other ∈ before, other.source = e.source → other.condition ≠ none)
      (hRoute : g.route? e.source = some route)
      (hFallback : route.fallback = some (.ofName e.target)) :
      Plays g before e .fallback
  /-- A blank condition never holds. -/
  | blank (text : String)
      (hGuards : g.guardsAt before.length = [])
      (hFindings : g.findingsAt before.length = [.blankCondition before.length])
      (hText : e.condition = some text)
      (hBlank : Text.trim text = "") :
      Plays g before e .useless
  /-- The step has its fallback from an earlier edge. -/
  | shadowed (earlier : List Edge) (first : Edge) (later : List Edge)
      (hGuards : g.guardsAt before.length = [])
      (hFindings : g.findingsAt before.length = [.shadowedFallback before.length e.source earlier.length])
      (hNone : e.condition = none)
      (hBefore : before = earlier ++ first :: later)
      (hSame : first.source = e.source)
      (hFallback : first.condition = none)
      (hFirst : ∀ other ∈ earlier, other.source = e.source → other.condition ≠ none) :
      Plays g before e .useless

/-- The role that the guards and the findings at a place tell. -/
def roleAt (g : Graph) (place : Nat) : EdgeRole :=
  match g.guardsAt place, g.findingsAt place with
  | _ :: _, _ => .guard
  | [], _ :: _ => .useless
  | [], [] => .fallback

theorem Plays.role_eq {before : List Edge} {e : Edge} {role : EdgeRole} (h : g.Plays before e role) :
    role = g.roleAt before.length := by
  cases h with
  | guard guarded text hGuards hFindings => rw [roleAt, hGuards]
  | fallback route hGuards hFindings => rw [roleAt, hGuards, hFindings]
  | blank text hGuards hFindings => rw [roleAt, hGuards, hFindings]
  | shadowed earlier first later hGuards hFindings => rw [roleAt, hGuards, hFindings]

theorem Plays.of_mem_guardsAt {before : List Edge} {e : Edge} {role : EdgeRole} {step : String}
    {guarded : GuardedEdge} (h : g.Plays before e role) (hMem : (step, guarded) ∈ g.guardsAt before.length) :
    role = .guard ∧ g.guardsAt before.length = [(step, guarded)] := by
  cases h with
  | guard other text hGuards =>
      rw [hGuards, List.mem_singleton] at hMem
      exact ⟨rfl, hMem ▸ hGuards⟩
  | fallback _ hGuards | blank _ hGuards | shadowed _ _ _ hGuards =>
      rw [hGuards] at hMem
      cases hMem

/-- The first edge of a step without a condition plays the fallback. -/
theorem Plays.of_first {before : List Edge} {e : Edge} {role : EdgeRole} (h : g.Plays before e role)
    (hNone : e.condition = none)
    (hFirst : ∀ other ∈ before, other.source = e.source → other.condition ≠ none) : role = .fallback := by
  cases h with
  | guard guarded text hGuards hFindings hTarget hText => cases hText.symm.trans hNone
  | fallback => rfl
  | blank text hGuards hFindings hText => cases hText.symm.trans hNone
  | shadowed earlier first later hGuards hFindings hNone hBefore hSame hFallback =>
      exact absurd hFallback (hFirst first (hBefore ▸ by simp) hSame)

/-- An edge with a condition is a guard, or useless if the condition is blank. -/
theorem Compiled.exists_plays_of_some (h : Compiled d g done edges) {before after : List Edge} {e : Edge}
    {text : String} (hEdges : d.edges = before ++ e :: after) (hText : e.condition = some text)
    (hFound : g.findingsAt before.length = (Description.edgeFinding? before e).toList) :
    ∃ role, g.Plays before e role := by
  obtain ⟨earlier, c, later, rfl, hSplit⟩ := CompiledEdge.exists_split (hEdges ▸ h.edgesCompile)
  obtain ⟨-, hSource, hTarget⟩ := CompiledEdge.compile_ok hSplit.edgeCompiles
  obtain ⟨condition, hCompile, hSome⟩ := CompiledEdge.condition_eq_some hSplit.edgeCompiles hText
  obtain ⟨hTrim, hEmpty⟩ := Condition.compile_ok hCompile
  have hGuards := h.guardsAt_eq hEdges hSplit
  simp only [CompiledEdge.guardOf?, hSome, hEmpty, hSource] at hGuards
  simp only [Description.edgeFinding?, hText] at hFound
  by_cases hBlank : Text.trim text = ""
  · refine ⟨_, .blank text ?_ ?_ hText hBlank⟩
    · simpa [hBlank] using hGuards
    · rw [hFound, if_pos hBlank, Option.toList_some]
  · refine ⟨_, .guard ⟨condition, c.target, c.index⟩ text ?_ ?_ hTarget hText hBlank hCompile hTrim⟩
    · simpa [hBlank] using hGuards
    · rw [hFound, if_neg hBlank, Option.toList_none]

/-- An edge without a condition is the fallback, or useless if an earlier one is. -/
theorem Compiled.exists_plays_of_none (h : Compiled d g done edges) {before after : List Edge} {e : Edge}
    (hEdges : d.edges = before ++ e :: after) (hNone : e.condition = none)
    (hFound : g.findingsAt before.length = (Description.edgeFinding? before e).toList) :
    ∃ role, g.Plays before e role := by
  obtain ⟨earlier, c, later, rfl, hSplit⟩ := CompiledEdge.exists_split (hEdges ▸ h.edgesCompile)
  have hGuards : g.guardsAt before.length = [] := by
    rw [h.guardsAt_eq hEdges hSplit, CompiledEdge.guardOf?,
      CompiledEdge.condition_eq_none hSplit.edgeCompiles hNone]
    rfl
  simp only [Description.edgeFinding?, hNone] at hFound
  cases hFirst : before.findIdx? fun other => other.isFallbackOf e.source with
  | none =>
      rw [hFirst] at hFound
      have hNotBefore := List.findIdx?_eq_none_iff.mp hFirst
      have hDeclared := (h.wellFormed.edges e (hEdges ▸ by simp)).source
      have hFind : (d.edges.find? fun other => other.isFallbackOf e.source) = some e :=
        List.find?_eq_some_iff_append.mpr ⟨Edge.isFallbackOf_iff.mpr ⟨rfl, hNone⟩, before, after, hEdges,
          fun other hOther => by rw [hNotBefore other hOther, Bool.not_false]⟩
      have hFallback : (Route.ofEdges (earlier ++ c :: later) e.source).fallback = some (.ofName e.target) := by
        rw [Route.ofEdges, CompiledEdge.find?_isFallbackOf_of_compileAll h.edgesCompile, hFind]
        rfl
      exact ⟨_, .fallback _ hGuards hFound hNone
        (fun other hOther => Edge.isFallbackOf_eq_false_iff.mp (hNotBefore other hOther))
        ((h.route?_eq e.source).trans (if_pos hDeclared)) hFallback⟩
  | some place =>
      rw [hFirst] at hFound
      obtain ⟨start, first, rest, hBefore, rfl, hFallback, hNot⟩ := exists_split_of_findIdx? hFirst
      obtain ⟨hSame, hFirstNone⟩ := Edge.isFallbackOf_iff.mp hFallback
      exact ⟨_, .shadowed start first rest hGuards hFound hNone hBefore hSame hFirstNone
        fun other hOther => Edge.isFallbackOf_eq_false_iff.mp (hNot other hOther)⟩

theorem mem_guardsAt {step : String} {route : Route} {guarded : GuardedEdge} (hRoute : g.route? step = some route)
    (hGuarded : guarded ∈ route.guards) : (step, guarded) ∈ g.guardsAt guarded.index := by
  obtain ⟨node, hNode, rfl⟩ := Option.map_eq_some_iff.mp hRoute
  refine List.mem_flatMap.mpr ⟨(step, node), (Declarations.get?_eq_some_iff _ _ _).mp hNode, ?_⟩
  exact List.mem_map.mpr ⟨guarded, List.mem_filter.mpr ⟨hGuarded, beq_self_eq_true _⟩, rfl⟩

/-- Nothing is lost of a description that compiles, and nothing is counted twice. Every edge is a guard or the
fallback of its step, or the one thing that is found about it is that it is useless; it is only one of these.
Every guard and every fallback of a route comes from an edge in this way, the guards in the order of the edges,
and the routes are those of the declared steps. -/
theorem compile_accounts {strict : Bool} (h : compile d strict = .ok g) :
    (∀ before e after, d.edges = before ++ e :: after → ∃! role, g.Plays before e role) ∧
    (∀ step route, g.route? step = some route →
      (∀ guarded ∈ route.guards, ∃ before e after, d.edges = before ++ e :: after ∧
        g.Plays before e .guard ∧ g.guardsAt before.length = [(step, guarded)]) ∧
      (∀ target, route.fallback = some target → ∃ before e after, d.edges = before ++ e :: after ∧
        g.Plays before e .fallback ∧ e.source = step ∧ .ofName e.target = target) ∧
      route.guards.Pairwise fun guarded later => guarded.index < later.index) ∧
    g.nodes.names = d.steps.names := by
  obtain ⟨done, edges, hCompiled, hFindings⟩ := compile_findings h
  have hPlays {before : List Edge} {e : Edge} {after : List Edge} (hEdges : d.edges = before ++ e :: after) :
      ∃ role, g.Plays before e role := by
    have hFound := findingsAt_eq hFindings hEdges
    cases hCondition : e.condition with
    | some text => exact hCompiled.exists_plays_of_some hEdges hCondition hFound
    | none => exact hCompiled.exists_plays_of_none hEdges hCondition hFound
  refine ⟨fun before e after hEdges => ?_, fun step route hRoute => ?_, ?_⟩
  · obtain ⟨role, hRole⟩ := hPlays hEdges
    exact ⟨role, hRole, fun other hOther => hOther.role_eq.trans hRole.role_eq.symm⟩
  · have hOfEdges : route = .ofEdges edges step := by
      rw [hCompiled.route?_eq] at hRoute
      split_ifs at hRoute
      exact (Option.some.inj hRoute).symm
    refine ⟨fun guarded hGuarded => ?_, fun target hFallback => ?_, ?_⟩
    · have hMem := mem_guardsAt hRoute hGuarded
      rw [hOfEdges] at hGuarded
      obtain ⟨c, hc, hGuard⟩ := List.mem_filterMap.mp hGuarded
      have hPlace := CompiledEdge.index_lt_of_mem hCompiled.edgesCompile c hc
      rw [← CompiledEdge.index_of_guardOf? hGuard, Nat.zero_add] at hPlace
      obtain ⟨before, e, after, hEdges, hLength⟩ := exists_split_of_lt hPlace
      obtain ⟨role, hRole⟩ := hPlays hEdges
      obtain ⟨rfl, hGuards⟩ := hRole.of_mem_guardsAt (hLength ▸ hMem)
      exact ⟨before, e, after, hEdges, hRole, hGuards⟩
    · rw [hOfEdges, Route.ofEdges,
        CompiledEdge.find?_isFallbackOf_of_compileAll hCompiled.edgesCompile] at hFallback
      obtain ⟨e, hFind, hTarget⟩ := Option.map_eq_some_iff.mp hFallback
      obtain ⟨hHere, before, after, hEdges, hFirst⟩ := List.find?_eq_some_iff_append.mp hFind
      obtain ⟨hSource, hNone⟩ := Edge.isFallbackOf_iff.mp hHere
      obtain ⟨role, hRole⟩ := hPlays hEdges
      have hFirst' : ∀ other ∈ before, other.source = e.source → other.condition ≠ none := by
        intro other hOther
        have hNot := hFirst other hOther
        rw [Bool.not_eq_true', ← hSource] at hNot
        exact Edge.isFallbackOf_eq_false_iff.mp hNot
      obtain rfl := hRole.of_first hNone hFirst'
      exact ⟨before, e, after, hEdges, hRole, hSource, hTarget⟩
    · rw [hOfEdges]
      refine (CompiledEdge.pairwise_index hCompiled.edgesCompile).filterMap _ fun c later hLt => ?_
      intro guarded hGuard guarded' hGuard'
      rwa [CompiledEdge.index_of_guardOf? hGuard, CompiledEdge.index_of_guardOf? hGuard']
  · rw [hCompiled.nodes, Declarations.names_map]

/-- A second fallback, and an edge that is never taken. -/
private def tangled : Description :=
  Sample.routing
    |>.withEdge (.always "a" "b")
    |>.withEdge (.guarded "b" "c" "   ")

theorem compile_accounts_tangled :
    ∃ g, compile tangled false = .ok g ∧
      g.Plays [] (.guarded "a" "b" "quality.ok == True") .guard ∧
      g.Plays (tangled.edges.take 1) (.always "a" "c") .fallback ∧
      g.Plays (tangled.edges.take 4) (.always "a" "b") .useless ∧
      g.Plays (tangled.edges.take 5) (.guarded "b" "c" "   ") .useless ∧
      g.nodes.names = ["a", "b", "c"] := by
  have hRoles : (compile tangled false).map (fun g => [0, 1, 4, 5].map g.roleAt) =
      .ok [.guard, .fallback, .useless, .useless] := by decide +kernel
  obtain ⟨g, hGraph, hRoles⟩ := map_eq_ok_iff.mp hRoles
  obtain ⟨hEach, -, hNames⟩ := compile_accounts hGraph
  have hPlays (place : Nat) (e : Edge) (hEdge : tangled.edges[place]? = some e) :
      g.Plays (tangled.edges.take place) e (g.roleAt place) := by
    obtain ⟨hPlace, rfl⟩ := List.getElem?_eq_some_iff.mp hEdge
    have hLength : (tangled.edges.take place).length = place := List.length_take_of_le hPlace.le
    obtain ⟨role, hRole, -⟩ := hEach (tangled.edges.take place) _ (tangled.edges.drop (place + 1))
      (by rw [List.getElem_cons_drop hPlace, List.take_append_drop])
    obtain rfl := hLength ▸ hRole.role_eq
    exact hRole
  simp only [List.map_cons, List.map_nil, List.cons.injEq, and_true] at hRoles
  obtain ⟨hFirst, hSecond, hFifth, hSixth⟩ := hRoles
  exact ⟨g, hGraph, hFirst ▸ hPlays 0 _ rfl, hSecond ▸ hPlays 1 _ rfl, hFifth ▸ hPlays 4 _ rfl,
    hSixth ▸ hPlays 5 _ rfl, hNames⟩

end Graph

end Stepwise
