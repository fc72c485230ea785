import Stepwise.Proofs.Process.Compilation

/-! Where a compiled graph leads. Routes only hold targets that their description declares, so a decision
that does not end a run names a step that the graph has. -/
namespace Stepwise

/-- A target is the end, or a step with a node. -/
def Target.Declared (nodes : Declarations Node) : Target → Prop
  | .terminal => True
  | .step name => nodes.contains name = true

namespace CompiledEdge

/-- Every compiled edge is one of the described edges, compiled. -/
theorem exists_edge_of_mem {edges : List Edge} : ∀ {index : Nat} {cs : List CompiledEdge},
    compileAll index edges = .ok cs → ∀ c ∈ cs, ∃ e ∈ edges, ∃ place, compile place e = .ok c := by
  induction edges with
  | nil =>
      intro index cs h c hc
      rw [compileAll_nil h] at hc
      cases hc
  | cons e rest ih =>
      intro index cs h c hc
      obtain ⟨first, cs', rfl, hFirst, hRest⟩ := compileAll_cons h
      rcases List.mem_cons.mp hc with rfl | hc
      · exact ⟨e, List.mem_cons_self, index, hFirst⟩
      · obtain ⟨e', he', hCompile⟩ := ih hRest c hc
        exact ⟨e', List.mem_cons_of_mem _ he', hCompile⟩

/-- Every described edge is among the compiled edges. -/
theorem exists_compiled_of_mem {edges : List Edge} : ∀ {index : Nat} {cs : List CompiledEdge},
    compileAll index edges = .ok cs → ∀ e ∈ edges, ∃ c ∈ cs, ∃ place, compile place e = .ok c := by
  induction edges with
  | nil =>
      intro index cs h e he
      cases he
  | cons first rest ih =>
      intro index cs h e he
      obtain ⟨c, cs', rfl, hFirst, hRest⟩ := compileAll_cons h
      rcases List.mem_cons.mp he with rfl | he
      · exact ⟨c, List.mem_cons_self, index, hFirst⟩
      · obtain ⟨c', hc', hCompile⟩ := ih hRest e he
        exact ⟨c', List.mem_cons_of_mem _ hc', hCompile⟩

/-- A guard of a step keeps the target of its edge, which leaves that step. -/
theorem guardOf?_eq_some {step : String} {c : CompiledEdge} {guarded : GuardedEdge}
    (h : guardOf? step c = some guarded) : c.source = step ∧ guarded.target = c.target := by
  unfold guardOf? at h
  split at h
  · split_ifs at h with hGuard
    cases h
    exact ⟨hGuard.1, rfl⟩
  · cases h

end CompiledEdge

namespace Route

/-- The targets of a route are those of edges that leave its step. -/
theorem exists_edge_of_mem_targets {edges : List CompiledEdge} {step : String} {t : Target}
    (h : t ∈ (ofEdges edges step).targets) : ∃ c ∈ edges, c.source = step ∧ t = c.target := by
  rw [targets, List.mem_append, List.mem_map, Option.mem_toList] at h
  rcases h with ⟨guarded, hGuarded, rfl⟩ | hFallback
  · obtain ⟨c, hc, hSome⟩ := List.mem_filterMap.mp hGuarded
    exact ⟨c, hc, CompiledEdge.guardOf?_eq_some hSome⟩
  · obtain ⟨c, hc, rfl⟩ := Option.map_eq_some_iff.mp hFallback
    have hLeaves : (c.source == step) = true := (Bool.and_eq_true _ _ ▸ List.find?_some hc).1
    exact ⟨c, List.mem_of_find?_eq_some hc, beq_iff_eq.mp hLeaves, rfl⟩

theorem target_of_firstGuard? {s : State} {guards : List GuardedEdge} {decision : Decision} :
    ∀ {index : Nat}, firstGuard? s index guards = some decision →
      decision.target ∈ guards.map GuardedEdge.target := by
  induction guards with
  | nil =>
      intro index h
      cases h
  | cons e rest ih =>
      intro index h
      rw [firstGuard?] at h
      rw [List.map_cons, List.mem_cons]
      split_ifs at h
      · cases h
        exact .inl rfl
      · exact .inr (ih h)

/-- A route answers with one of its targets, or it has no successor. -/
theorem decide_cases (r : Route) (s : State) :
    (r.decide s).target ∈ r.targets ∨ r.decide s = ⟨.terminal, .noSuccessor⟩ := by
  unfold decide targets
  cases hGuard : firstGuard? s 0 r.guards with
  | some decision => exact .inl (List.mem_append_left _ (target_of_firstGuard? hGuard))
  | none =>
      cases r.fallback with
      | some target => exact .inl (List.mem_append_right _ (List.mem_singleton_self target))
      | none => exact .inr rfl

theorem reason_of_firstGuard? {s : State} {guards : List GuardedEdge} {decision : Decision} :
    ∀ {index : Nat}, firstGuard? s index guards = some decision →
      ∃ place text, decision.reason = .guard place text := by
  induction guards with
  | nil =>
      intro index h
      cases h
  | cons e rest ih =>
      intro index h
      rw [firstGuard?] at h
      split_ifs at h
      · cases h
        exact ⟨_, _, rfl⟩
      · exact ih h

/-- A route that leads to a step does so by a guard or by its fallback. -/
theorem termination?_decide {r : Route} {s : State} {name : String}
    (h : (r.decide s).target = .step name) : (r.decide s).termination? = none := by
  unfold decide at h ⊢
  cases hGuard : firstGuard? s 0 r.guards with
  | some decision =>
      rw [hGuard] at h
      obtain ⟨place, text, hReason⟩ := reason_of_firstGuard? hGuard
      simp only [Decision.termination?, hReason, h]
  | none =>
      rw [hGuard] at h
      cases hFallback : r.fallback with
      | some target =>
          rw [hFallback] at h
          dsimp only at h
          rw [h]
          rfl
      | none =>
          rw [hFallback] at h
          cases h

end Route

namespace Graph

/-- A decision for a step does not end the run, in any graph. -/
theorem termination?_next {g : Graph} {step name : String} {s : State}
    (h : (g.next step s).target = .step name) : (g.next step s).termination? = none := by
  unfold next at h ⊢
  split_ifs at h ⊢ with hDone
  cases hRoute : g.route? step with
  | some route =>
      rw [hRoute] at h
      exact Route.termination?_decide h
  | none =>
      rw [hRoute] at h
      cases h

variable {d : Description} {g : Graph} {done : Condition} {edges : List CompiledEdge}

theorem Compiled.start_declared (h : Compiled d g done edges) : g.nodes.contains g.start = true := by
  rw [h.contains_eq, h.start]
  exact h.wellFormed.start

theorem Compiled.edge_declared (h : Compiled d g done edges) {c : CompiledEdge} (hc : c ∈ edges) :
    c.target.Declared g.nodes := by
  obtain ⟨e, he, place, hCompile⟩ := CompiledEdge.exists_edge_of_mem h.edgesCompile c hc
  rw [(CompiledEdge.compile_ok hCompile).2.2, Target.ofName]
  split_ifs with hEnd
  · trivial
  · exact (h.contains_eq _).trans ((h.wellFormed.edges e he).target.resolve_left hEnd)

/-- Every target in the routes of a compiled graph is declared. -/
theorem Compiled.route_declared (h : Compiled d g done edges) {step : String} {r : Route}
    (hRoute : g.route? step = some r) {t : Target} (ht : t ∈ r.targets) : t.Declared g.nodes := by
  rw [h.route?_eq] at hRoute
  split_ifs at hRoute
  cases hRoute
  obtain ⟨c, hc, -, rfl⟩ := Route.exists_edge_of_mem_targets ht
  exact h.edge_declared hc

theorem Compiled.next_declared (h : Compiled d g done edges) (step : String) (s : State) :
    (g.next step s).target.Declared g.nodes := by
  unfold next
  split_ifs
  · trivial
  · split
    · rename_i route hRoute
      rcases route.decide_cases s with hTarget | hEnd
      · exact h.route_declared hRoute hTarget
      · rw [hEnd]
        trivial
    · trivial

/-- A run that goes on comes to a declared step. -/
theorem Compiled.continues (h : Compiled d g done edges) {step : String} {s : State}
    (hNext : (g.next step s).termination? = none) :
    g.nodes.contains (g.next step s).target.name = true := by
  have hDeclared := h.next_declared step s
  generalize g.next step s = decision at hNext hDeclared
  obtain ⟨target, reason⟩ := decision
  cases target with
  | step name => exact hDeclared
  | terminal => cases reason <;> cases hNext

/-- A run goes on after a decision exactly when the decision is for a declared step. -/
theorem Compiled.termination?_eq_none_iff (h : Compiled d g done edges) (step : String) (s : State) :
    (g.next step s).termination? = none ↔
      ∃ name, (g.next step s).target = .step name ∧ g.nodes.contains name = true := by
  constructor
  · intro hNext
    have hDeclared := h.continues hNext
    cases hTarget : (g.next step s).target with
    | step name =>
        rw [hTarget] at hDeclared
        exact ⟨name, rfl, hDeclared⟩
    | terminal => cases hReason : (g.next step s).reason <;> simp [Decision.termination?, *] at hNext
  · rintro ⟨name, hTarget, -⟩
    exact termination?_next hTarget

end Graph

end Stepwise
