import Stepwise.Proofs.Process.Acceptance

/-! What the order of a description decides. Steps may be declared in any order, and edges of different steps
may change places: whether a description compiles, and what its graph decides, depends on the edges of each
step in their order and on nothing else of the arrangement. -/
namespace Stepwise

namespace Description

/-- Two descriptions with the same header, the same steps in whatever order, and for every step the same edges
in the same order. -/
structure Rearranged (a b : Description) : Prop where
  header : a.header = b.header
  steps : ∀ entry, entry ∈ a.steps.entries ↔ entry ∈ b.steps.entries
  edges : ∀ source, (a.edges.filter fun e => e.source == source) =
    b.edges.filter fun e => e.source == source

namespace Rearranged

variable {a b : Description}

theorem symm (h : a.Rearranged b) : b.Rearranged a :=
  ⟨h.header.symm, fun entry => (h.steps entry).symm, fun source => (h.edges source).symm⟩

/-- The edges of two arrangements are permutations of each other: an edge stands among the edges of its own
source as often as among all. -/
theorem edges_perm (h : a.Rearranged b) : a.edges.Perm b.edges := by
  classical
  rw [List.perm_iff_count]
  intro e
  have hCount : ∀ edges : List Edge,
      (edges.filter fun other => other.source == e.source).count e = edges.count e :=
    fun edges => List.count_filter (by simp)
  rw [← hCount, h.edges e.source, hCount]

theorem mem_edges (h : a.Rearranged b) (e : Edge) : e ∈ a.edges ↔ e ∈ b.edges :=
  h.edges_perm.mem_iff

theorem mem_names (h : a.Rearranged b) (name : String) : name ∈ a.steps.names ↔ name ∈ b.steps.names := by
  simp only [Declarations.names, List.mem_map, h.steps]

theorem contains_eq (h : a.Rearranged b) (name : String) :
    a.steps.contains name = b.steps.contains name := by
  rw [Bool.eq_iff_iff, Declarations.contains_iff_mem_names, Declarations.contains_iff_mem_names,
    h.mem_names]

theorem get?_eq (h : a.Rearranged b) (name : String) : a.steps.get? name = b.steps.get? name := by
  ext spec
  rw [Declarations.get?_eq_some_iff, Declarations.get?_eq_some_iff, h.steps]

theorem startStep_eq (h : a.Rearranged b) : a.startStep = b.startStep := by
  rw [startStep, startStep, h.header]

/-! ### Acceptance -/

theorem wellFormed (h : a.Rearranged b) (ha : a.WellFormed) : b.WellFormed := by
  refine ⟨h.startStep_eq ▸ ha.start_ne, ?_, ?_, ?_, ?_, h.header ▸ ha.budget, ?_⟩
  · obtain ⟨entry, hEntry⟩ := List.exists_mem_of_ne_nil _ ha.steps_ne
    exact List.ne_nil_of_mem ((h.steps entry).mp hEntry)
  · obtain ⟨e, he⟩ := List.exists_mem_of_ne_nil _ ha.edges_ne
    exact List.ne_nil_of_mem ((h.mem_edges e).mp he)
  · intro name hName
    exact ha.names name ((h.mem_names name).mpr hName)
  · rw [← h.contains_eq, ← h.startStep_eq]
    exact ha.start
  · intro e he
    obtain ⟨hSource, hTarget⟩ := ha.edges e ((h.mem_edges e).mpr he)
    rw [h.contains_eq] at hSource hTarget
    exact ⟨hSource, hTarget⟩

theorem conditioned (h : a.Rearranged b) (ha : a.Conditioned) : b.Conditioned :=
  ⟨h.header ▸ ha.done, fun e he => ha.edges e ((h.mem_edges e).mpr he)⟩

theorem leads (h : a.Rearranged b) {source target : String} (hLeads : a.Leads source target) :
    b.Leads source target := by
  obtain ⟨e, he, hEnds⟩ := hLeads
  exact ⟨e, (h.mem_edges e).mp he, hEnds⟩

/-- That a step has one fallback is said of pairs of edges, whichever stands first. -/
theorem oneFallback (h : a.Rearranged b) (ha : a.OneFallback) : b.OneFallback := by
  have hEither : ∀ {e later : Edge},
      (e.source = later.source → e.condition = none → later.condition ≠ none) →
        later.source = e.source → later.condition = none → e.condition ≠ none :=
    fun hPair hSource hLater hNone => hPair hSource.symm hNone hLater
  exact (h.edges_perm.pairwise_iff hEither).mp ha

theorem tidy (h : a.Rearranged b) (ha : a.Tidy) : b.Tidy := by
  refine ⟨fun e he => ha.unblank e ((h.mem_edges e).mpr he), h.oneFallback ha.oneFallback, ?_⟩
  intro name hName
  have hReachable := ha.reachable name ((h.mem_names name).mpr hName)
  rw [Reachable, ← h.startStep_eq]
  exact Relation.ReflTransGen.mono (fun _ _ => h.leads) _ _ hReachable

theorem compiles (h : a.Rearranged b) (strict : Bool) (ha : ∃ g, Graph.compile a strict = .ok g) :
    ∃ g, Graph.compile b strict = .ok g := by
  rw [(a.judged_compile strict).exists_ok_iff] at ha
  rw [(b.judged_compile strict).exists_ok_iff]
  cases strict with
  | false =>
      rw [checks_pass_iff] at ha ⊢
      exact ⟨h.wellFormed ha.1, h.conditioned ha.2⟩
  | true =>
      rw [strictChecks_pass_iff] at ha ⊢
      exact ⟨h.wellFormed ha.1, h.conditioned ha.2.1, h.tidy ha.2.2⟩

end Rearranged

/-! ### Routing -/

theorem firing?_cons (before : Nat) (e : Edge) (rest : List Edge) (step : String) (s : State) :
    firing? before (e :: rest) step s =
      if e.fires step s then some ⟨.ofName e.target, .guard before (Text.trim (e.condition.getD ""))⟩
      else firing? (before + if e.guards step then 1 else 0) rest step s := by
  cases hFires : e.fires step s with
  | true => simp [firing?, hFires]
  | false =>
      have hDrop : (e :: rest).dropWhile (fun other => !other.fires step s) =
          rest.dropWhile fun other => !other.fires step s := by simp [hFires]
      have hTake : (e :: rest).takeWhile (fun other => !other.fires step s) =
          e :: rest.takeWhile fun other => !other.fires step s := by simp [hFires]
      have hCount : ∀ k own : Nat, before + (k + own) = before + own + k := fun k own => by omega
      rw [firing?, firing?, hDrop, hTake, if_neg Bool.false_ne_true]
      cases rest.dropWhile fun other => !other.fires step s with
      | nil => rfl
      | cons first later =>
          dsimp only
          rw [List.countP_cons, hCount]

/-- Which edge of a step fires is decided among the edges of that step. -/
theorem firing?_filter (before : Nat) (edges : List Edge) (step : String) (s : State) :
    firing? before (edges.filter fun e => e.source == step) step s = firing? before edges step s := by
  induction edges generalizing before with
  | nil => rfl
  | cons e rest ih =>
      rw [firing?_cons, ← ih, List.filter_cons]
      cases hLeaves : e.source == step with
      | true => rw [if_pos rfl, firing?_cons]
      | false =>
          have hFires : e.fires step s = false := by rw [Edge.fires, hLeaves, Bool.false_and]
          have hGuards : e.guards step = false := by rw [Edge.guards, hLeaves, Bool.false_and]
          rw [hFires, hGuards]
          rfl

theorem find?_isFallbackOf_filter (edges : List Edge) (step : String) :
    ((edges.filter fun e => e.source == step).find? fun e => e.isFallbackOf step) =
      edges.find? fun e => e.isFallbackOf step := by
  have hSame : (fun e : Edge => decide ((e.source == step) = true ∧ e.isFallbackOf step = true)) =
      fun e => e.isFallbackOf step := by
    funext e
    rw [Edge.isFallbackOf, Bool.eq_iff_iff, decide_eq_true_eq, Bool.and_eq_true]
    exact and_self_left
  rw [List.find?_filter, hSame]

end Description

namespace Graph

/-- Graphs of rearranged descriptions decide alike: the done condition is the same one, and the route of a step
comes from the edges of that step. -/
theorem Compiled.next_eq_of_rearranged {a b : Description} {g g' : Graph} {done done' : Condition}
    {edges edges' : List CompiledEdge} (ha : Compiled a g done edges) (hb : Compiled b g' done' edges')
    (h : a.Rearranged b) (step : String) (s : State) : g.next step s = g'.next step s := by
  have hDone : a.isDone s = b.isDone s := by rw [Description.isDone, Description.isDone, h.header]
  have hFiring : Description.firing? 0 a.edges step s = Description.firing? 0 b.edges step s := by
    rw [← Description.firing?_filter, h.edges step, Description.firing?_filter]
  have hFallback : (edges.find? (CompiledEdge.isFallbackOf step)).map CompiledEdge.target =
      (edges'.find? (CompiledEdge.isFallbackOf step)).map CompiledEdge.target := by
    rw [CompiledEdge.find?_isFallbackOf_of_compileAll ha.edgesCompile,
      CompiledEdge.find?_isFallbackOf_of_compileAll hb.edgesCompile,
      ← Description.find?_isFallbackOf_filter, h.edges step, Description.find?_isFallbackOf_filter]
  have hDecide : (Route.ofEdges edges step).decide s = (Route.ofEdges edges' step).decide s := by
    unfold Route.decide Route.ofEdges
    rw [CompiledEdge.firstGuard?_of_compileAll ha.edgesCompile,
      CompiledEdge.firstGuard?_of_compileAll hb.edgesCompile, hFiring, hFallback]
  rw [next, next, ha.holds_done, hb.holds_done, hDone, ha.route?_eq, hb.route?_eq, h.contains_eq]
  cases b.isDone s with
  | true => rfl
  | false => cases b.steps.contains step <;> simp [hDecide]

end Graph

end Stepwise
