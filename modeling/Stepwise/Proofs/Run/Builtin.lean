import Stepwise.Proofs.Run.Failure
import Stepwise.Proofs.Run.Retention
import Stepwise.Proofs.Step.Builtin

/-! Runs of processes that use nothing but what is always there. Their steps do not fail, whatever the
completion client does, so neither do the runs; and each completed request leaves one record in the log. -/
namespace Stepwise

variable {W : Type}

/-- Under each name of a registry that is built without overrides is a step of the declared kind. -/
theorem Workshop.built_of_get? {hasClient : Bool} {graph : Graph} {steps : Steps W} {name : String}
    {step : Step W} (hSteps : (builtin hasClient).build graph = .ok steps)
    (hStep : steps.get? name = some step) :
    ∃ spec, (graph.nodes.get? name).map Node.spec = some spec ∧ Built .builtin spec.kind step := by
  have hName : name ∈ graph.nodes.names := by
    rw [← mem_names_of_build hSteps, ← Declarations.contains_iff_mem_names, Declarations.contains, hStep]
    rfl
  rw [← Declarations.contains_iff_mem_names] at hName
  obtain ⟨node, hNode⟩ := Option.isSome_iff_exists.mp hName
  have hSpec : (graph.nodes.get? name).map Node.spec = some node.spec := by rw [hNode, Option.map_some]
  obtain ⟨built, hBuilt, hGet⟩ := get?_of_build hSteps hSpec
  cases hStep.symm.trans hGet
  exact ⟨node.spec, hSpec, built_of_buildStep rfl hBuilt⟩

namespace Engine

variable {around : Surroundings W} {engine : Engine W} {context : Object} {start w w' : W}
variable {visits : Visits} {current : String}

/-- A look and then an execution that does not fail. -/
theorem Executes.ends {result : Execution}
    (hSteps : ∀ name step, engine.steps.get? name = some step → step.NeverFails)
    (h : Executes around engine context visits current w result w') : around.Ends w (result, w') := by
  obtain ⟨-, before, step, hUnseen, hStep, hAttempt⟩ := h
  have hBefore : around.Leads w before := .of_observe hUnseen
  rw [Step.attempt] at hAttempt
  cases hLook : around.observe before with
  | mk seen ready =>
      have hReady := hBefore.trans (.of_observe hLook)
      rw [hLook] at hAttempt
      cases seen with
      | true =>
          cases hAttempt
          exact (Surroundings.Cancels.of_observe hLook).of_leads hBefore
      | false =>
          have hEnds := hSteps current step hStep around (Visits.state context visits) ready
          dsimp only at hAttempt
          rw [hAttempt] at hEnds
          cases result with
          | finished delta => exact hReady.trans hEnds
          | interrupted => exact hEnds.of_leads hReady
          | failed cause => exact hEnds.elim

/-- What a run finds around it after some visits is what its looks, requests and pauses have led to. -/
theorem Reaches.leads (hSteps : ∀ name step, engine.steps.get? name = some step → step.NeverFails)
    (h : Reaches around engine context start visits current w) : around.Leads start w := by
  induction h with
  | start => exact .start
  | next prior last hNext ih => exact ih.trans (last.ends hSteps)

/-- A run of steps that do not fail has an outcome, and it is cancelled only if a look, a request or a
pause told so. -/
theorem Stops.exists_outcome {r : Except Error Outcome}
    (hSteps : ∀ name step, engine.steps.get? name = some step → step.NeverFails)
    (h : Stops around engine context start visits r) :
    ∃ o, r = .ok o ∧ ((∃ reason, o.status = .completed reason) ∨ o.status = .aborted engine.maxSteps ∨
      (o.status = .cancelled ∧ around.Cancels start)) := by
  cases h with
  | completed prior last hEnd => exact ⟨_, rfl, .inl ⟨_, rfl⟩⟩
  | aborted prior hUnseen hSpent => exact ⟨_, rfl, .inr (.inl rfl)⟩
  | cancelledBefore prior hSeen =>
      have hCancels := Surroundings.Cancels.of_observe hSeen
      exact ⟨_, rfl, .inr (.inr ⟨rfl, hCancels.of_leads (prior.leads hSteps)⟩)⟩
  | cancelledDuring prior last =>
      have hCancels : around.Cancels _ := last.ends hSteps
      exact ⟨_, rfl, .inr (.inr ⟨rfl, hCancels.of_leads (prior.leads hSteps)⟩)⟩
  | failed prior last => exact (last.ends hSteps).elim

/-- A completed request adds one record to the log. -/
theorem Executes.log_of_completion {c : Completion} {delta : Delta}
    (h : Executes around engine context visits current w (.finished delta) w')
    (hStep : engine.steps.get? current = some (.completion c)) :
    ∃ record, record.get? "kind" = some (.string "llm") ∧
      (Visits.state context (visits ++ [(current, delta)])).log =
        (Visits.state context visits).log ++ [record] := by
  obtain ⟨-, before, step, -, hGet, hAttempt⟩ := h
  cases hStep.symm.trans hGet
  obtain ⟨reply, rfl⟩ := Completion.exists_reply_of_execute (Step.execute_of_attempt hAttempt)
  obtain ⟨record, hLog, hKind⟩ := c.log_deltaFor reply
  refine ⟨record, hKind, ?_⟩
  rw [Visits.state_concat, State.apply, hLog]

/-- A process whose steps are built from the built-in functions alone cannot fail: every run, with any client,
context and budget, has an outcome, which is cancelled only if the surroundings cancel. In it every completed
execution of an `llm` step adds exactly one record to the log, and that is of kind `llm`. Adding one to the
count of attempts cannot overflow here and a pause has no greatest length, so neither needs a bound. -/
theorem builtin_never_fails {d : Description} {strict hasClient : Bool} {graph : Graph} {steps : Steps W}
    (hGraph : Graph.compile d strict = .ok graph)
    (hSteps : (Workshop.builtin hasClient).build graph = .ok steps) (options : EngineOptions) :
    ∃ engine, create graph steps options = .ok engine ∧
      ∀ (around : Surroundings W) (context : Object) (start : W), ∃ visits o,
        Stops around engine context start visits (.ok o) ∧
        (engine.run around context start).result = .ok o ∧
        ((∃ reason, o.status = .completed reason) ∨ o.status = .aborted engine.maxSteps ∨
          (o.status = .cancelled ∧ around.Cancels start)) ∧
        ∀ before step delta after, visits = before ++ (step, delta) :: after →
          (d.steps.get? step).map StepSpec.kind = some "llm" →
          ∃ record, record.get? "kind" = some (.string "llm") ∧
            (Visits.state context (before ++ [(step, delta)])).log =
              (Visits.state context before).log ++ [record] := by
  obtain ⟨engine, hCreate⟩ := exists_create_of_build options hSteps
  obtain ⟨rfl, hSame, -⟩ := create_ok hCreate
  refine ⟨engine, hCreate, fun around context start => ?_⟩
  have hBuilt : ∀ name step, engine.steps.get? name = some step →
      ∃ spec, (engine.graph.nodes.get? name).map Node.spec = some spec ∧
        Workshop.Built .builtin spec.kind step := by
    intro name step hStep
    rw [hSame] at hStep
    exact Workshop.built_of_get? hSteps hStep
  have hNeverFails : ∀ name step, engine.steps.get? name = some step → step.NeverFails := by
    intro name step hStep
    obtain ⟨spec, -, hKind⟩ := hBuilt name step hStep
    exact hKind.neverFails
  obtain ⟨visits, hStops⟩ := run_stops hGraph around context start
  obtain ⟨o, hResult, hStatus⟩ := hStops.exists_outcome hNeverFails
  rw [hResult] at hStops
  refine ⟨visits, o, hStops, hResult, hStatus, fun before step delta after hSplit hKind => ?_⟩
  obtain ⟨v, v', -, hExecutes⟩ := hStops.visited hSplit
  obtain ⟨-, -, registered, -, hRegistered, -⟩ := id hExecutes
  obtain ⟨spec, hSpec, hOfKind⟩ := hBuilt step registered hRegistered
  obtain ⟨done, edges, hCompiled⟩ := Graph.compile_ok hGraph
  rw [← hCompiled.spec?_eq, hSpec] at hKind
  obtain ⟨c, rfl⟩ := hOfKind.exists_completion (Option.some.inj hKind)
  exact hExecutes.log_of_completion hRegistered

/-- Surroundings whose client refuses every request. -/
private def refusing : Surroundings Unit := { Surroundings.still with
  complete _ _ w := (some (.error (.completion "quota exceeded")), w) }

private def staffed? : Except Error (Graph × Steps Unit) := do
  let graph ← Graph.compile Sample.reviewLoop false
  let steps ← (Workshop.builtin true).build graph
  return (graph, steps)

/-- A writer that never gets an answer, and a reviewer who gives up. -/
theorem builtin_never_fails_refused :
    ∃ (graph : Graph) (steps : Steps Unit), Graph.compile Sample.reviewLoop false = .ok graph ∧
      (Workshop.builtin true).build graph = .ok steps ∧
      ∃ engine, create graph steps .standard = .ok engine ∧ ∃ visits o,
        Stops refusing engine .empty () visits (.ok o) ∧
        ((∃ reason, o.status = .completed reason) ∨ o.status = .aborted engine.maxSteps ∨
          (o.status = .cancelled ∧ refusing.Cancels ())) := by
  have hStaffed : staffed?.isOk = true := by decide +kernel
  obtain ⟨⟨graph, steps⟩, hOk⟩ := exists_ok_of_isOk hStaffed
  obtain ⟨graph', hGraph, hOk⟩ := bind_eq_ok_iff.mp hOk
  obtain ⟨steps', hSteps, hOk⟩ := bind_eq_ok_iff.mp hOk
  cases hOk
  obtain ⟨engine, hCreate, hRuns⟩ := builtin_never_fails hGraph hSteps .standard
  obtain ⟨visits, o, hStops, -, hStatus, -⟩ := hRuns refusing .empty ()
  exact ⟨graph, steps, hGraph, hSteps, engine, hCreate, visits, o, hStops, hStatus⟩

end Engine

end Stepwise
