import Stepwise.Proofs.Process.Acceptance

/-! What findings say about the decisions of a graph. A decision that is made for a guard or a fallback goes by
one edge of the description, and that edge has an effect, so nothing is found about it. A step about which
something is found is one that no decision leads to from the start. -/
namespace Stepwise

/-- Something is found about the edge at a place, or about its condition. -/
def Finding.IsAbout (f : Finding) (place : Nat) : Prop :=
  f.element = .edge place ∨ f.element = .edgeCondition place

theorem Finding.IsAbout.unique {f : Finding} {place place' : Nat} (h : f.IsAbout place)
    (h' : f.IsAbout place') : place = place' := by
  rcases h with h | h <;> rcases h' with h' | h' <;> cases h.symm.trans h' <;> rfl

namespace Description

/-- The edge by which a step is left for a reason, with the edges before it. It is the first one that fires, as
the reason tells; or none does, and it is the first one without a condition. -/
inductive Leaves (d : Description) (step : String) (s : State) (before : List Edge) (e : Edge) :
    RouteReason → Prop
  | guard (hFires : e.fires step s = true) (hFirst : ∀ earlier ∈ before, earlier.fires step s = false) :
      Leaves d step s before e
        (.guard (before.countP fun other => other.guards step) (Text.trim (e.condition.getD "")))
  | fallback (hFallback : e.isFallbackOf step = true)
      (hFirst : ∀ earlier ∈ before, earlier.isFallbackOf step = false)
      (hNone : ∀ other ∈ d.edges, other.fires step s = false) :
      Leaves d step s before e .fallback

theorem Leaves.source_eq {d : Description} {step : String} {s : State} {before : List Edge} {e : Edge}
    {reason : RouteReason} (h : d.Leaves step s before e reason) : e.source = step := by
  cases h with
  | guard hFires hFirst =>
      rw [Edge.fires, Bool.and_eq_true, beq_iff_eq] at hFires
      exact hFires.1
  | fallback hFallback hFirst hNone => exact (Edge.isFallbackOf_iff.mp hFallback).1

theorem isAbout_of_edgeFinding? {before : List Edge} {e : Edge} {f : Finding}
    (h : edgeFinding? before e = some f) : f.IsAbout before.length := by
  unfold edgeFinding? at h
  split at h
  · split_ifs at h
    cases h
    exact .inr rfl
  · obtain ⟨first, -, rfl⟩ := Option.map_eq_some_iff.mp h
    exact .inl rfl

/-- Nothing is found about an edge by which a step is left. -/
theorem Leaves.edgeFinding?_eq_none {d : Description} {step : String} {s : State} {before : List Edge} {e : Edge}
    {reason : RouteReason} (h : d.Leaves step s before e reason) : edgeFinding? before e = none := by
  have hSource := h.source_eq
  unfold edgeFinding?
  cases h with
  | guard hFires hFirst =>
      have hGuards := Edge.guards_of_fires hFires
      rw [Edge.guards, Bool.and_eq_true, Option.any_eq_true] at hGuards
      obtain ⟨-, text, hText, hUnblank⟩ := hGuards
      have hTrim : Text.trim text ≠ "" := by simpa using hUnblank
      rw [hText]
      exact if_neg hTrim
  | fallback hFallback hFirst hNone =>
      rw [(Edge.isFallbackOf_iff.mp hFallback).2, hSource]
      exact Option.map_eq_none_iff.mpr (List.findIdx?_eq_none_iff.mpr hFirst)

theorem firing?_eq_some {place : Nat} {edges : List Edge} {step : String} {s : State} {decision : Decision}
    (h : firing? place edges step s = some decision) :
    ∃ before e after, edges = before ++ e :: after ∧ e.fires step s = true ∧
      (∀ earlier ∈ before, earlier.fires step s = false) ∧
      decision = ⟨.ofName e.target, .guard (place + before.countP fun other => other.guards step)
        (Text.trim (e.condition.getD ""))⟩ := by
  unfold firing? at h
  split at h
  · cases h
  · rename_i e after hDrop
    have hFires : e.fires step s = true := by
      have hHead := List.head?_dropWhile_not (fun e : Edge => !e.fires step s) edges
      simpa [hDrop] using hHead
    refine ⟨edges.takeWhile fun e => !e.fires step s, e, after, ?_, hFires, ?_, (Option.some.inj h).symm⟩
    · rw [← hDrop, List.takeWhile_append_dropWhile]
    · intro earlier hEarlier
      simpa using List.mem_takeWhile_imp hEarlier

theorem fires_of_firing?_eq_none {place : Nat} {edges : List Edge} {step : String} {s : State}
    (h : firing? place edges step s = none) : ∀ e ∈ edges, e.fires step s = false := by
  unfold firing? at h
  split at h
  · rename_i hDrop
    intro e he
    simpa using List.dropWhile_eq_nil_iff.mp hDrop e he
  · cases h

end Description

namespace Graph

variable {d : Description} {g : Graph} {done : Condition} {edges : List CompiledEdge}

/-- A compiled graph has the findings about its edges, and then those about its steps. -/
theorem compile_findings {strict : Bool} (h : compile d strict = .ok g) :
    ∃ done edges, Compiled d g done edges ∧
      g.findings = d.edgeFindings ++ (unreachableSteps g.nodes g.start).map (.unreachableStep · g.start) := by
  rw [compile_eq] at h
  obtain ⟨_, hStructure, h⟩ := bind_eq_ok_iff.mp h
  obtain ⟨done, hDone, h⟩ := bind_eq_ok_iff.mp h
  obtain ⟨edges, hEdges, h⟩ := bind_eq_ok_iff.mp h
  obtain ⟨_, -, h⟩ := bind_eq_ok_iff.mp h
  have hWellFormed : d.WellFormed :=
    d.structuralFlaw?_eq_none_iff.mp (failWith_eq_ok_iff.mp hStructure)
  cases h
  refine ⟨done, edges, ⟨hWellFormed, hDone, hEdges, rfl, rfl, rfl, rfl⟩, ?_⟩
  rw [← CompiledEdge.filterMap_finding? hEdges]
  rfl

/-- A step about which something is found is not reached from the start. -/
theorem not_reached_of_finding {strict : Bool} (h : compile d strict = .ok g) {f : Finding}
    (hf : f ∈ g.findings) {step : String} (hElement : f.element = .step step) :
    ¬ Reached (leads g.nodes) g.start step := by
  obtain ⟨done, edges, -, hFindings⟩ := compile_findings h
  rw [hFindings, List.mem_append, List.mem_map] at hf
  rcases hf with hEdge | ⟨name, hName, rfl⟩
  · obtain ⟨before, e, after, -, hFinding⟩ := Description.exists_of_mem_edgeFindings hEdge
    rcases Description.isAbout_of_edgeFinding? hFinding with hAbout | hAbout <;>
      exact absurd (hElement.symm.trans hAbout) (by simp)
  · cases hElement
    classical
    rw [unreachableSteps_eq_filter, List.mem_filter, decide_eq_true_eq] at hName
    exact hName.2

/-- Nothing is found about an edge by which a step is left. -/
theorem not_isAbout_of_leaves {strict : Bool} (h : compile d strict = .ok g) {step : String} {s : State}
    {before after : List Edge} {e : Edge} {reason : RouteReason} (hSplit : d.edges = before ++ e :: after)
    (hLeaves : d.Leaves step s before e reason) : ∀ f ∈ g.findings, ¬ f.IsAbout before.length := by
  obtain ⟨done, edges, -, hFindings⟩ := compile_findings h
  intro f hf hAbout
  rw [hFindings, List.mem_append, List.mem_map] at hf
  rcases hf with hEdge | ⟨name, -, rfl⟩
  · obtain ⟨before', e', after', hEdges, hFinding⟩ := Description.exists_of_mem_edgeFindings hEdge
    have hLength := (Description.isAbout_of_edgeFinding? hFinding).unique hAbout
    obtain ⟨rfl, hRest⟩ := List.append_inj (hEdges.symm.trans hSplit) hLength
    obtain ⟨rfl, -⟩ := List.cons.inj hRest
    rw [hLeaves.edgeFinding?_eq_none] at hFinding
    cases hFinding
  · rcases hAbout with hAbout | hAbout <;> cases hAbout

/-! ### Decisions -/

/-- Unless the run is to end, a decision is that of the route of the step. -/
theorem next_cases (g : Graph) (step : String) (s : State) :
    g.next step s = ⟨.terminal, .doneCondition⟩ ∨ g.next step s = ⟨.terminal, .noSuccessor⟩ ∨
      ∃ route, g.route? step = some route ∧ g.next step s = route.decide s := by
  unfold next
  split_ifs
  · exact .inl rfl
  · cases g.route? step with
    | none => exact .inr (.inl rfl)
    | some route => exact .inr (.inr ⟨route, rfl, rfl⟩)

/-- A run that goes on from a step goes where the routes lead. -/
theorem leads_of_next {step : String} {s : State} (hNext : (g.next step s).termination? = none) :
    leads g.nodes step (g.next step s).target.name = true := by
  rcases g.next_cases step s with hDone | hNone | ⟨route, hRoute, hDecide⟩
  · rw [hDone] at hNext
    cases hNext
  · rw [hNone] at hNext
    cases hNext
  · obtain ⟨node, hNode, rfl⟩ := Option.map_eq_some_iff.mp hRoute
    rw [hDecide] at hNext ⊢
    unfold leads
    rw [hNode]
    dsimp only
    rcases node.route.decide_cases s with hTarget | hEnd
    · cases hLeads : (node.route.decide s).target with
      | step name =>
          rw [hLeads] at hTarget
          exact List.contains_iff_mem.mpr hTarget
      | terminal =>
          cases hReason : (node.route.decide s).reason <;> simp [Decision.termination?, hLeads, hReason] at hNext
    · rw [hEnd] at hNext
      cases hNext

/-- A route leaves its step by an edge of the description, or there is none. -/
theorem Compiled.exists_leaves_of_decide (h : Compiled d g done edges) (step : String) (s : State) :
    (Route.ofEdges edges step).decide s = ⟨.terminal, .noSuccessor⟩ ∨
    ∃ before e after, d.edges = before ++ e :: after ∧
      d.Leaves step s before e ((Route.ofEdges edges step).decide s).reason ∧
      ((Route.ofEdges edges step).decide s).target = .ofName e.target := by
  unfold Route.decide Route.ofEdges
  rw [CompiledEdge.firstGuard?_of_compileAll h.edgesCompile,
    CompiledEdge.find?_isFallbackOf_of_compileAll h.edgesCompile]
  cases hFiring : Description.firing? 0 d.edges step s with
  | some decision =>
      obtain ⟨before, e, after, hSplit, hFires, hFirst, rfl⟩ := Description.firing?_eq_some hFiring
      rw [Nat.zero_add]
      exact .inr ⟨before, e, after, hSplit, .guard hFires hFirst, rfl⟩
  | none =>
      cases hFallback : d.edges.find? fun e => e.isFallbackOf step with
      | none => exact .inl rfl
      | some e =>
          obtain ⟨hFallback, before, after, hSplit, hFirst⟩ := List.find?_eq_some_iff_append.mp hFallback
          refine .inr ⟨before, e, after, hSplit, .fallback hFallback ?_ ?_, rfl⟩
          · intro earlier hEarlier
            simpa using hFirst earlier hEarlier
          · exact Description.fires_of_firing?_eq_none hFiring

/-- A decision for a guard or a fallback goes by an edge of the description. -/
theorem Compiled.exists_leaves (h : Compiled d g done edges) {step : String} {s : State}
    (hReason : (g.next step s).reason = .fallback ∨
      ∃ index text, (g.next step s).reason = .guard index text) :
    ∃ before e after, d.edges = before ++ e :: after ∧ d.Leaves step s before e (g.next step s).reason ∧
      (g.next step s).target = .ofName e.target := by
  rcases g.next_cases step s with hDone | hNone | ⟨route, hRoute, hDecide⟩
  · simp [hDone] at hReason
  · simp [hNone] at hReason
  · rw [h.route?_eq] at hRoute
    split_ifs at hRoute
    cases hRoute
    rw [hDecide] at hReason ⊢
    rcases h.exists_leaves_of_decide step s with hNone | hLeaves
    · simp [hNone] at hReason
    · exact hLeaves

end Graph

end Stepwise
