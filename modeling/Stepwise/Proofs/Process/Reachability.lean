import Mathlib.Data.List.Pairwise
import Mathlib.Logic.Relation
import Stepwise.Proofs.Process.Routing
import Stepwise.Proofs.Process.Targets

/-! Which steps a path from the start reaches. The search moves steps out of the unseen ones round by round;
what it never moves is exactly what no path reaches. If no condition is blank and no step has two fallbacks,
the routes of a graph lead wherever the edges of its description do. -/
namespace Stepwise

open Relation

/-! ### The search -/

/-- Steps that a relation leads to from a start, in any number of moves. -/
abbrev Reached (leads : String → String → Bool) (start : String) : String → Prop :=
  ReflTransGen (fun source target => leads source target = true) start

/-- What a search keeps between its rounds: the frontier is reached, and a reached step that is seen is in
the frontier or leads only to seen steps. -/
structure Searching (leads : String → String → Bool) (start : String) (unseen frontier : List String) :
    Prop where
  start_seen : start ∉ unseen
  frontier_reached : ∀ u ∈ frontier, Reached leads start u
  closed : ∀ u v, Reached leads start u → leads u v = true → u ∉ unseen → u ∈ frontier ∨ v ∉ unseen

/-- The unseen steps to which the frontier leads. -/
def foundIn (leads : String → String → Bool) (unseen frontier : List String) : List String :=
  unseen.filter fun step => frontier.any (leads · step)

namespace Searching

variable {leads : String → String → Bool} {start : String} {unseen frontier : List String}

theorem mem_foundIn {v : String} :
    v ∈ foundIn leads unseen frontier ↔ v ∈ unseen ∧ ∃ u ∈ frontier, leads u v = true := by
  rw [foundIn, List.mem_filter, List.any_eq_true]

theorem reached_of_mem_foundIn (h : Searching leads start unseen frontier) {v : String}
    (hv : v ∈ foundIn leads unseen frontier) : Reached leads start v := by
  obtain ⟨-, u, hu, hLeads⟩ := mem_foundIn.mp hv
  exact (h.frontier_reached u hu).tail hLeads

/-- A round keeps the search going, with what it found as the new frontier. -/
theorem round (h : Searching leads start unseen frontier) :
    Searching leads start
      (unseen.filter fun step => !(foundIn leads unseen frontier).contains step)
      (foundIn leads unseen frontier) := by
  have hLater : ∀ v, v ∈ unseen.filter (fun step => !(foundIn leads unseen frontier).contains step) ↔
      v ∈ unseen ∧ v ∉ foundIn leads unseen frontier := by simp
  refine ⟨fun hMem => h.start_seen ((hLater start).mp hMem).1, fun v => h.reached_of_mem_foundIn, ?_⟩
  intro u v hu hLeads hSeen
  by_cases hNew : u ∈ foundIn leads unseen frontier
  · exact .inl hNew
  · refine .inr fun hv => ?_
    obtain ⟨hUnseen, hNotFound⟩ := (hLater v).mp hv
    rcases h.closed u v hu hLeads fun hMem => hSeen ((hLater u).mpr ⟨hMem, hNew⟩) with hFrontier | hNot
    · exact hNotFound (mem_foundIn.mpr ⟨hUnseen, u, hFrontier, hLeads⟩)
    · exact hNot hUnseen

/-- A search that finds nothing more has seen all that is reached. -/
theorem not_mem_of_reached (h : Searching leads start unseen frontier)
    (hNone : foundIn leads unseen frontier = []) {step : String} (hStep : Reached leads start step) :
    step ∉ unseen := by
  induction hStep with
  | refl => exact h.start_seen
  | tail hPrior hLast ih =>
      intro hMem
      rcases h.closed _ _ hPrior hLast ih with hFrontier | hSeen
      · have hFound := mem_foundIn.mpr ⟨hMem, _, hFrontier, hLast⟩
        rw [hNone] at hFound
        cases hFound
      · exact hSeen hMem

open Classical in
/-- With a round for each unseen step, a search leaves exactly what is not reached. -/
theorem unreachedIn_eq (h : Searching leads start unseen frontier) {rounds : Nat}
    (hRounds : unseen.length ≤ rounds) :
    unreachedIn leads rounds unseen frontier =
      unseen.filter fun step => ¬ Reached leads start step := by
  induction rounds generalizing unseen frontier with
  | zero =>
      rw [List.length_eq_zero_iff.mp (Nat.le_zero.mp hRounds)]
      rfl
  | succ rounds ih =>
      rw [unreachedIn, ← foundIn]
      split_ifs with hNone
      · rw [List.isEmpty_iff] at hNone
        refine (List.filter_eq_self.mpr fun step hStep => ?_).symm
        rw [decide_eq_true_eq]
        exact fun hReached => h.not_mem_of_reached hNone hReached hStep
      · rw [ih h.round ?_, List.filter_filter]
        · refine List.filter_congr fun step _ => ?_
          rw [Bool.eq_iff_iff, Bool.and_eq_true, decide_eq_true_eq, Bool.not_eq_true', ← Bool.not_eq_true,
            List.contains_iff_mem]
          exact ⟨And.left, fun hNot => ⟨hNot, fun hMem => hNot (h.reached_of_mem_foundIn hMem)⟩⟩
        · obtain ⟨v, hv⟩ := List.exists_mem_of_ne_nil _ (mt List.isEmpty_iff.mpr hNone)
          have hFewer : (unseen.filter fun step => !(foundIn leads unseen frontier).contains step).length <
              unseen.length := by
            rw [List.length_filter_lt_length_iff_exists]
            exact ⟨v, (mem_foundIn.mp hv).1, by simpa using hv⟩
          omega

end Searching

/-! ### Paths in a process -/

namespace Description

/-- An edge leads from one name to another. -/
def Leads (d : Description) (source target : String) : Prop :=
  ∃ e ∈ d.edges, e.source = source ∧ e.target = target

/-- Edges lead from the start to a step. -/
def Reachable (d : Description) : String → Prop :=
  ReflTransGen d.Leads d.startStep

/-- No condition is blank. -/
def Unblank (d : Description) : Prop :=
  ∀ e ∈ d.edges, ∀ text, e.condition = some text → Text.trim text ≠ ""

/-- No two edges without a condition leave one step. -/
def OneFallback (d : Description) : Prop :=
  d.edges.Pairwise fun e later => e.source = later.source → e.condition = none → later.condition ≠ none

theorem OneFallback.find?_eq {d : Description} (h : d.OneFallback) {e : Edge} (he : e ∈ d.edges)
    (hNone : e.condition = none) : (d.edges.find? fun other => other.isFallbackOf e.source) = some e := by
  have hSymmetric : Std.Symm fun e later : Edge =>
      e.source = later.source → e.condition = none → later.condition ≠ none :=
    ⟨fun _ _ hPair hSource hLater hNone => hPair hSource.symm hNone hLater⟩
  cases hFind : d.edges.find? fun other => other.isFallbackOf e.source with
  | none =>
      exact absurd (Edge.isFallbackOf_iff.mpr ⟨rfl, hNone⟩) (List.find?_eq_none.mp hFind e he)
  | some first =>
      have hFallback := List.find?_some hFind
      obtain ⟨hSource, hFirst⟩ := Edge.isFallbackOf_iff.mp hFallback
      by_contra hOther
      have hDistinct : first ≠ e := fun hSame => hOther (congrArg some hSame)
      exact List.Pairwise.forall h (List.mem_of_find?_eq_some hFind) he hDistinct hSource hFirst hNone

end Description

namespace Graph

theorem contains_of_leads {nodes : Declarations Node} {source target : String}
    (h : leads nodes source target = true) : nodes.contains source = true := by
  unfold leads at h
  rw [Declarations.contains]
  cases hGet : nodes.get? source with
  | some node => rfl
  | none =>
      rw [hGet] at h
      cases h

/-- The search of a graph begins with the start as its frontier. -/
theorem searching_start (nodes : Declarations Node) (start : String) :
    Searching (leads nodes) start (nodes.names.filter (· ≠ start)) [start] := by
  refine ⟨by simp, fun u hu => by rw [List.mem_singleton.mp hu], fun u v hu hLeads hSeen => ?_⟩
  refine .inl (List.mem_singleton.mpr ?_)
  by_contra hOther
  have hDeclared := (Declarations.contains_iff_mem_names _ _).mp (contains_of_leads hLeads)
  exact hSeen (List.mem_filter.mpr ⟨hDeclared, by simpa using hOther⟩)

open Classical in
/-- The search of a graph leaves the steps that no path from the start reaches, in declaration order. -/
theorem unreachableSteps_eq_filter (nodes : Declarations Node) (start : String) :
    unreachableSteps nodes start =
      nodes.names.filter fun step => ¬ Reached (leads nodes) start step := by
  unfold unreachableSteps unreached
  rw [(searching_start nodes start).unreachedIn_eq (Nat.le_refl _), List.filter_filter]
  refine List.filter_congr fun step _ => ?_
  rw [Bool.eq_iff_iff, Bool.and_eq_true, decide_eq_true_eq, decide_eq_true_eq]
  refine ⟨And.left, fun h => ⟨h, ?_⟩⟩
  rintro rfl
  exact h .refl

variable {d : Description} {g : Graph} {done : Condition} {edges : List CompiledEdge}

theorem Compiled.leads_iff (h : Compiled d g done edges) (source target : String) :
    leads g.nodes source target = true ↔
      d.steps.contains source = true ∧ .step target ∈ (Route.ofEdges edges source).targets := by
  unfold leads
  rw [h.nodes, Declarations.get?_map, Declarations.contains]
  cases d.steps.get? source <;> simp

/-- A route leads only along edges. -/
theorem Compiled.leads_edge (h : Compiled d g done edges) {source target : String}
    (hLeads : leads g.nodes source target = true) : d.Leads source target := by
  obtain ⟨c, hc, hSource, hTarget⟩ := Route.exists_edge_of_mem_targets ((h.leads_iff _ _).mp hLeads).2
  obtain ⟨e, he, place, hCompile⟩ := CompiledEdge.exists_edge_of_mem h.edgesCompile c hc
  obtain ⟨-, hSame, hName⟩ := CompiledEdge.compile_ok hCompile
  refine ⟨e, he, hSame.symm.trans hSource, ?_⟩
  rw [hName, Target.ofName] at hTarget
  split_ifs at hTarget
  exact (Target.step.inj hTarget).symm

/-- Where every edge has an effect, routes lead along all edges between steps. -/
theorem Compiled.leads_of_edge (h : Compiled d g done edges) (hUnblank : d.Unblank)
    (hOne : d.OneFallback) {source target : String} (hEdge : d.Leads source target)
    (hTarget : target ≠ terminalName) : leads g.nodes source target = true := by
  obtain ⟨e, he, rfl, rfl⟩ := hEdge
  refine (h.leads_iff _ _).mpr ⟨(h.wellFormed.edges e he).source, ?_⟩
  have hName : Target.ofName e.target = .step e.target := if_neg hTarget
  rw [Route.targets, List.mem_append, List.mem_map, Option.mem_toList]
  cases hCondition : e.condition with
  | some text =>
      obtain ⟨c, hc, place, hCompile⟩ := CompiledEdge.exists_compiled_of_mem h.edgesCompile e he
      rcases CompiledEdge.guardOf?_of_compile hCompile e.source with ⟨hNot, -⟩ | ⟨-, guarded, hSome, hParts⟩
      · simp [Edge.guards, hCondition, hUnblank e he text hCondition] at hNot
      · exact .inl ⟨guarded, List.mem_filterMap.mpr ⟨c, hc, hSome⟩, hParts.2.1.trans hName⟩
  | none =>
      right
      rw [Route.ofEdges, CompiledEdge.find?_isFallbackOf_of_compileAll h.edgesCompile,
        hOne.find?_eq he hCondition, Option.map_some, hName]

/-- Where every edge has an effect, a declared step is reached by the routes exactly when the edges lead
there. -/
theorem Compiled.reached_iff (h : Compiled d g done edges) (hUnblank : d.Unblank) (hOne : d.OneFallback)
    {step : String} (hStep : step ∈ d.steps.names) :
    Reached (leads g.nodes) g.start step ↔ d.Reachable step := by
  rw [h.start]
  constructor
  · exact ReflTransGen.mono (fun source target => h.leads_edge) d.startStep step
  · intro hReachable
    induction hReachable with
    | refl => exact .refl
    | @tail source target hPrior hLast ih =>
        obtain ⟨e, he, hSource, -⟩ := id hLast
        have hDeclared := (h.wellFormed.edges e he).source
        rw [hSource, Declarations.contains_iff_mem_names] at hDeclared
        exact (ih hDeclared).tail (h.leads_of_edge hUnblank hOne hLast (h.wellFormed.names _ hStep).2)

end Graph

end Stepwise
