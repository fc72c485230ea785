import Stepwise.Process.Sample
import Stepwise.Proofs.Run.Walk

/-! What the budget does to a run. If steps are functions of the state and nobody cancels, there is one walk
over a graph, whatever the surroundings and however many steps an engine may execute. A run follows that walk
until it ends or the budget is spent, so runs with two budgets differ only in where they leave it. -/
namespace Stepwise

/-- What steps compute from the state that they receive. -/
abbrev Computation := String → State → Except Error Delta

theorem Surroundings.observe_eq {W : Type} (around : Surroundings W)
    (hUncancelled : ∀ w, (around.observe w).1 = false) (w : W) :
    around.observe w = (false, (around.observe w).2) := by
  rw [← hUncancelled w]

namespace Step

theorem ended_eq_finished_iff {x : Except Error Delta} {delta : Delta} :
    ended x = .finished delta ↔ x = .ok delta := by
  cases x <;> simp [ended]

/-- Where nobody cancels, a step that is begun is executed. -/
theorem attempt_eq_execute {W : Type} {around : Surroundings W}
    (hUncancelled : ∀ w, (around.observe w).1 = false) (step : Step W) (s : State) (w : W) :
    step.attempt around s w = step.execute around s (around.observe w).2 := by
  rw [attempt, around.observe_eq hUncancelled]

end Step

namespace Engine

variable {V W : Type}

/-- The steps of an engine compute these deltas and errors, whatever they find around them, and nobody
cancels its runs. -/
structure Computes (around : Surroundings W) (engine : Engine W) (f : Computation) : Prop where
  uncancelled : ∀ w, (around.observe w).1 = false
  executes : ∀ name step, engine.steps.get? name = some step →
    ∀ s w, (step.execute around s w).1 = Step.ended (f name s)

/-- The walk over a graph with steps that compute: after these visits, it comes to this step. It knows no
budget. -/
inductive Walks (g : Graph) (f : Computation) (context : Object) : Visits → String → Prop where
  | start : Walks g f context [] g.start
  | next {visits : Visits} {current : String} {delta : Delta} (prior : Walks g f context visits current)
      (hStep : f current (Visits.state context visits) = .ok delta)
      (hNext : (g.next current (Visits.state context (visits ++ [(current, delta)]))).termination? = none) :
      Walks g f context (visits ++ [(current, delta)])
        (g.next current (Visits.state context (visits ++ [(current, delta)]))).target.name

section

variable {around : Surroundings W} {engine : Engine W} {f : Computation} {context : Object} {start : W}
variable {visits : Visits} {current : String} {w w' : W}

/-- An execution ends as the step computes. -/
theorem Computes.result_eq (hf : Computes around engine f) {result : Execution}
    (h : Executes around engine context visits current w result w') :
    Step.ended (f current (Visits.state context visits)) = result := by
  obtain ⟨-, before, step, -, hStep, hAttempt⟩ := h
  rw [Step.attempt_eq_execute hf.uncancelled] at hAttempt
  rw [← hf.executes current step hStep (Visits.state context visits) (around.observe before).2, hAttempt]

/-- While the budget lasts, the step that a run has come to is executed. -/
theorem Computes.exists_executes (hf : Computes around engine f) {d : Description} {strict : Bool}
    (hGraph : Graph.compile d strict = .ok engine.graph)
    (h : Reaches around engine context start visits current w) (hLeft : visits.length < engine.maxSteps) :
    ∃ w', Executes around engine context visits current w
      (Step.ended (f current (Visits.state context visits))) w' := by
  obtain ⟨step, hStep⟩ := h.registered hGraph
  refine ⟨(step.attempt around (Visits.state context visits) (around.observe w).2).2, hLeft, _, step,
    around.observe_eq hf.uncancelled w, hStep, ?_⟩
  rw [Step.attempt_eq_execute hf.uncancelled, ← hf.executes current step hStep]

/-! ### Runs follow the walk -/

theorem Reaches.walks (hf : Computes around engine f)
    (h : Reaches around engine context start visits current w) :
    Walks engine.graph f context visits current := by
  induction h with
  | start => exact .start
  | next prior last hNext ih => exact ih.next (Step.ended_eq_finished_iff.mp (hf.result_eq last)) hNext

/-- A run comes as far on the walk as its budget lets it. -/
theorem Walks.exists_reaches (hf : Computes around engine f) {d : Description} {strict : Bool}
    (hGraph : Graph.compile d strict = .ok engine.graph) (start : W)
    (h : Walks engine.graph f context visits current) (hBudget : visits.length ≤ engine.maxSteps) :
    ∃ w, Reaches around engine context start visits current w := by
  induction h with
  | start => exact ⟨start, .start⟩
  | @next visits current delta prior hStep hNext ih =>
      have hLeft : visits.length < engine.maxSteps := by
        rw [List.length_append, List.length_singleton] at hBudget
        omega
      obtain ⟨w, hReaches⟩ := ih (Nat.le_of_lt hLeft)
      obtain ⟨w', hExecutes⟩ := hf.exists_executes hGraph hReaches hLeft
      rw [hStep] at hExecutes
      exact ⟨w', .next hReaches hExecutes hNext⟩

/-- A run is aborted where it is still on the walk and its budget is spent. -/
theorem Stops.walks_of_aborted (hf : Computes around engine f) {o : Outcome}
    (h : Stops around engine context start visits (.ok o)) (hAborted : o.isAborted = true) :
    visits.length = engine.maxSteps ∧ o = Visits.outcome context (.aborted engine.maxSteps) visits ∧
      ∃ current, Walks engine.graph f context visits current := by
  cases h with
  | completed prior last hEnd => cases hAborted
  | cancelledBefore prior hSeen => cases hAborted
  | cancelledDuring prior last => cases hAborted
  | aborted prior hUnseen hSpent => exact ⟨hSpent, rfl, _, prior.walks hf⟩

theorem Walks.stops_of_spent (hf : Computes around engine f) {d : Description} {strict : Bool}
    (hGraph : Graph.compile d strict = .ok engine.graph) (start : W)
    (h : Walks engine.graph f context visits current) (hSpent : visits.length = engine.maxSteps) :
    Stops around engine context start visits
      (.ok (Visits.outcome context (.aborted engine.maxSteps) visits)) := by
  obtain ⟨w, hReaches⟩ := h.exists_reaches hf hGraph start (Nat.le_of_eq hSpent)
  exact .aborted hReaches (around.observe_eq hf.uncancelled w) hSpent

end

/-! ### Two budgets -/

section

variable {aroundSmall : Surroundings V} {small : Engine V} {aroundLarge : Surroundings W} {large : Engine W}
variable {f : Computation} {d : Description} {strict : Bool} {context : Object} {visits : Visits}

/-- What happens within the smaller budget happens within the larger one. -/
theorem Executes.transfer (hSmall : Computes aroundSmall small f) (hLarge : Computes aroundLarge large f)
    (hGraph : Graph.compile d strict = .ok small.graph) (hSame : large.graph = small.graph)
    (hBudgets : small.maxSteps ≤ large.maxSteps) {start v v' : V} {current : String} {result : Execution}
    (prior : Reaches aroundSmall small context start visits current v)
    (last : Executes aroundSmall small context visits current v result v') (start' : W) :
    ∃ w w', Reaches aroundLarge large context start' visits current w ∧
      Executes aroundLarge large context visits current w result w' := by
  have hWalks := prior.walks hSmall
  have hLeft : visits.length < large.maxSteps := Nat.lt_of_lt_of_le last.1 hBudgets
  rw [← hSame] at hWalks hGraph
  obtain ⟨w, hReaches⟩ := hWalks.exists_reaches hLarge hGraph start' (Nat.le_of_lt hLeft)
  obtain ⟨w', hExecutes⟩ := hLarge.exists_executes hGraph hReaches hLeft
  rw [hSmall.result_eq last] at hExecutes
  exact ⟨w, w', hReaches, hExecutes⟩

/-- A run that the budget does not stop is the same with a larger one. -/
theorem Stops.transfer (hSmall : Computes aroundSmall small f) (hLarge : Computes aroundLarge large f)
    (hGraph : Graph.compile d strict = .ok small.graph) (hSame : large.graph = small.graph)
    (hBudgets : small.maxSteps ≤ large.maxSteps) {start : V} {r : Except Error Outcome}
    (h : Stops aroundSmall small context start visits r)
    (hOwn : ∀ o, r = .ok o → o.isCompleted = true) (start' : W) :
    Stops aroundLarge large context start' visits r := by
  cases h with
  | completed prior last hEnd =>
      obtain ⟨w, w', hReaches, hExecutes⟩ :=
        last.transfer hSmall hLarge hGraph hSame hBudgets prior start'
      unfold decisionAfter at hEnd
      rw [← hSame] at hEnd
      exact .completed hReaches hExecutes hEnd
  | failed prior last =>
      obtain ⟨w, w', hReaches, hExecutes⟩ :=
        last.transfer hSmall hLarge hGraph hSame hBudgets prior start'
      exact .failed hReaches hExecutes
  | cancelledBefore prior hSeen => cases hOwn _ rfl
  | cancelledDuring prior last => cases hOwn _ rfl
  | aborted prior hUnseen hSpent => cases hOwn _ rfl

end

/-- A smaller budget only cuts a run short. Over one graph and with steps that compute the same, a run that
completes or fails within the smaller budget is the same within the larger one. A run that is aborted has
executed as many steps as its budget allows; the run with the larger budget executes them first, all of them
with a delta, and its state after them is the one in which the other run was aborted. So a run is aborted
exactly when the walk goes on for as many visits as its budget. -/
theorem budget_truncates {d : Description} {strict : Bool} {small : Engine V} {large : Engine W}
    {aroundSmall : Surroundings V} {aroundLarge : Surroundings W} {f : Computation}
    (hGraph : Graph.compile d strict = .ok small.graph) (hSame : large.graph = small.graph)
    (hSmall : Computes aroundSmall small f) (hLarge : Computes aroundLarge large f)
    (hBudgets : small.maxSteps ≤ large.maxSteps) (context : Object) (start : V) (start' : W) :
    let short := (small.run aroundSmall context start).result
    let long := (large.run aroundLarge context start').result
    (∀ o, short = .ok o → o.isCompleted = true → long = short) ∧
    (∀ e, short = .error e → long = short) ∧
    (∀ o, short = .ok o → o.isAborted = true →
      o.status = .aborted small.maxSteps ∧ o.stepsExecuted = small.maxSteps ∧
      ∃ visits current w, Reaches aroundLarge large context start' visits current w ∧
        visits.length = small.maxSteps ∧ o.path = visits.names ∧
        o.state = Visits.state context visits ∧
        ∃ all, visits <+: all ∧ Stops aroundLarge large context start' all long) ∧
    ((∃ o, short = .ok o ∧ o.isAborted = true) ↔
      ∃ visits current, Walks small.graph f context visits current ∧ visits.length = small.maxSteps) := by
  dsimp only
  obtain ⟨visits, hStops⟩ := run_stops hGraph aroundSmall context start
  have hGraph' : Graph.compile d strict = .ok large.graph := by rw [hSame, hGraph]
  refine ⟨?_, ?_, ?_, ?_⟩
  · intro o hResult hCompleted
    refine (hStops.transfer hSmall hLarge hGraph hSame hBudgets ?_ start').run_eq
    intro o' hResult'
    rw [hResult] at hResult'
    cases hResult'
    exact hCompleted
  · intro e hResult
    refine (hStops.transfer hSmall hLarge hGraph hSame hBudgets ?_ start').run_eq
    intro o' hResult'
    rw [hResult] at hResult'
    cases hResult'
  · intro o hResult hAborted
    rw [hResult] at hStops
    obtain ⟨hSpent, rfl, current, hWalks⟩ := hStops.walks_of_aborted hSmall hAborted
    rw [← hSame] at hWalks
    obtain ⟨w, hReaches⟩ := hWalks.exists_reaches hLarge hGraph' start' (hSpent ▸ hBudgets)
    have hLeft : visits.length + (large.maxSteps - visits.length) = large.maxSteps := by omega
    obtain ⟨all, r, hPrefix, hAll⟩ := hReaches.stops hGraph' _ hLeft
    obtain rfl := hAll.run_eq
    have hCount : (Visits.outcome context (.aborted small.maxSteps) visits).stepsExecuted =
        small.maxSteps := by
      rw [Outcome.stepsExecuted, Visits.outcome, Visits.names, List.length_map, hSpent]
    exact ⟨rfl, hCount, visits, current, w, hReaches, hSpent, rfl, rfl, all, hPrefix, hAll⟩
  · constructor
    · rintro ⟨o, hResult, hAborted⟩
      rw [hResult] at hStops
      obtain ⟨hSpent, -, current, hWalks⟩ := hStops.walks_of_aborted hSmall hAborted
      exact ⟨visits, current, hWalks, hSpent⟩
    · rintro ⟨visits', current, hWalks, hSpent⟩
      exact ⟨_, (hWalks.stops_of_spent hSmall hGraph start hSpent).run_eq, rfl⟩

private def twoAssignments : Steps Unit where
  entries := [("s1", .assign (Delta.empty.withArtifact "x" (.string "first"))),
    ("s2", .assign (Delta.empty.withQuality "status" (.string "done")))]
  distinct := by decide

private def assigned : Computation := fun name _ =>
  match twoAssignments.get? name with
  | some (.assign delta) => .ok delta
  | _ => .ok .empty

private theorem twoAssignments_compute {engine : Engine Unit} (h : engine.steps = twoAssignments) :
    Computes .still engine assigned := by
  refine ⟨fun _ => rfl, fun name step hStep s w => ?_⟩
  rw [h] at hStep
  have hAssign : ∃ delta, step = .assign delta := by
    obtain ⟨before, after, hSplit, -⟩ := List.lookup_eq_some_iff.mp hStep
    have hMem : (name, step) ∈ twoAssignments.entries := by simp [hSplit]
    simp only [twoAssignments, List.mem_cons, Prod.mk.injEq, List.not_mem_nil, or_false] at hMem
    rcases hMem with ⟨-, rfl⟩ | ⟨-, rfl⟩ <;> exact ⟨_, rfl⟩
  obtain ⟨delta, rfl⟩ := hAssign
  simp only [assigned, hStep]
  rfl

private def limitedTo (maxSteps : Nat) : EngineOptions := { EngineOptions.standard with maxSteps }

private def endOf (t : Trace Unit) : Option (RunStatus × List String) :=
  match t.result with
  | .ok o => some (o.status, o.path)
  | .error _ => none

private theorem exists_engine_limitedTo {maxSteps : Nat} {status : RunStatus} {path : List String}
    (h : (traceOf? Sample.twoStep twoAssignments (limitedTo maxSteps) .still .empty ()).bind endOf =
      some (status, path)) :
    ∃ (engine : Engine Unit) (o : Outcome), Graph.compile Sample.twoStep false = .ok engine.graph ∧
      engine.steps = twoAssignments ∧ engine.maxSteps = max 1 maxSteps ∧
      (engine.run .still .empty ()).result = .ok o ∧ o.status = status ∧ o.path = path := by
  obtain ⟨t, hTrace, hEnd⟩ := Option.bind_eq_some_iff.mp h
  obtain ⟨engine, hGraph, hCreate, rfl⟩ := exists_engine_of_traceOf? hTrace
  unfold endOf at hEnd
  split at hEnd
  · rename_i o hResult
    cases hEnd
    obtain ⟨-, hSteps, hBudget⟩ := create_ok hCreate
    exact ⟨engine, o, hGraph, hSteps, hBudget, hResult, rfl, rfl⟩
  · cases hEnd

/-- With one step the two-step process is aborted on its way; with three it completes. -/
theorem budget_truncates_twoStep :
    ∃ small large : Engine Unit, Graph.compile Sample.twoStep false = .ok small.graph ∧
      large.graph = small.graph ∧ small.maxSteps = 1 ∧ large.maxSteps = 3 ∧
      ∃ o all, (small.run .still .empty ()).result = .ok o ∧ o.isAborted = true ∧ o.path = ["s1"] ∧
        Stops .still large .empty () all (large.run .still .empty ()).result ∧
        ∃ visits : Visits, visits <+: all ∧ visits.names = ["s1"] ∧ o.state = Visits.state .empty visits := by
  have hShort : (traceOf? Sample.twoStep twoAssignments (limitedTo 1) .still .empty ()).bind endOf =
      some (.aborted 1, ["s1"]) := by decide +kernel
  have hLong : (traceOf? Sample.twoStep twoAssignments (limitedTo 3) .still .empty ()).bind endOf =
      some (.completed .doneCondition, ["s1", "s2"]) := by decide +kernel
  obtain ⟨small, o, hGraph, hSteps, hSmall, hResult, hStatus, hPath⟩ := exists_engine_limitedTo hShort
  obtain ⟨large, -, hGraph', hSteps', hLarge, -⟩ := exists_engine_limitedTo hLong
  have hSame : large.graph = small.graph := by
    rw [hGraph] at hGraph'
    exact (Except.ok.inj hGraph').symm
  have hAborted : o.isAborted = true := by rw [Outcome.isAborted, hStatus]
  obtain ⟨-, -, hCut, -⟩ := budget_truncates hGraph hSame (twoAssignments_compute hSteps)
    (twoAssignments_compute hSteps') (by omega) .empty () ()
  obtain ⟨-, -, visits, -, -, -, -, hNames, hState, all, hPrefix, hAll⟩ := hCut o hResult hAborted
  exact ⟨small, large, hGraph, hSame, hSmall, hLarge, o, all, hResult, hAborted, hPath, hAll, visits,
    hPrefix, hNames ▸ hPath, hState⟩

end Engine

end Stepwise
