import Stepwise.Process.Sample
import Stepwise.Run.Engine
import Stepwise.Proofs.Process.Targets

/-! What a run comes to, said step by step and without the loop of the engine. A run reaches a step after
the visits before it; the state there is what their deltas have made of the context. It stops where routing
ends it, where somebody cancels it, where the budget is spent, or where a step fails. -/
namespace Stepwise

/-- Executed steps in order, each with the delta that it returned. -/
abbrev Visits := List (String × Delta)

namespace Visits

def names (visits : Visits) : List String := visits.map Prod.fst

def deltas (visits : Visits) : List Delta := visits.map Prod.snd

/-- What the visits have made of a context. -/
def state (context : Object) (visits : Visits) : State :=
  (State.ofContext context).fold visits.deltas

def outcome (context : Object) (status : RunStatus) (visits : Visits) : Outcome :=
  ⟨status, state context visits, names visits⟩

theorem state_concat (context : Object) (visits : Visits) (step : String) (delta : Delta) :
    state context (visits ++ [(step, delta)]) = (state context visits).apply delta := by
  simp [state, deltas, State.fold]

theorem names_concat (visits : Visits) (step : String) (delta : Delta) :
    names (visits ++ [(step, delta)]) = names visits ++ [step] := by
  simp [names]

/-- A visit among some visits and one more is the last, or it is among those before. -/
theorem split_concat {visits before after : Visits} {last visit : String × Delta}
    (h : visits ++ [last] = before ++ visit :: after) :
    (visits = before ∧ last = visit) ∨ ∃ after', visits = before ++ visit :: after' := by
  rcases after.eq_nil_or_concat with rfl | ⟨after, other, rfl⟩
  · obtain ⟨hBefore, hLast⟩ := List.append_inj' h rfl
    exact .inl ⟨hBefore, List.singleton_inj.mp hLast⟩
  · rw [List.concat_eq_append, ← List.cons_append, ← List.append_assoc] at h
    exact .inr ⟨after, (List.append_inj' h rfl).1⟩

end Visits

/-- Surroundings in which nothing happens: nobody cancels a run, and no time passes. -/
def Surroundings.still {W : Type} : Surroundings W where
  observe w := (false, w)
  clock _ := 0
  complete _ _ w := (some (.ok ""), w)
  pause _ w := (true, w)

namespace Trace

variable {W : Type} {t : Trace W}

/-- The path of the outcome, if the run has one. -/
def path? (t : Trace W) : Option (List String) :=
  match t.result with
  | .ok o => some o.path
  | .error _ => none

/-- What the run fails with, if it fails. -/
def error? (t : Trace W) : Option Error :=
  match t.result with
  | .ok _ => none
  | .error e => some e

theorem exists_outcome_of_path? {path : List String} (h : t.path? = some path) :
    ∃ o, t.result = .ok o ∧ o.path = path := by
  unfold path? at h
  split at h
  · next o hResult => exact ⟨o, hResult, Option.some.inj h⟩
  · cases h

theorem result_of_error? {e : Error} (h : t.error? = some e) : t.result = .error e := by
  unfold error? at h
  split at h
  · cases h
  · next e' hResult => rw [hResult, Option.some.inj h]

end Trace

namespace Engine

variable {W : Type}

/-- Visited steps before the path of a result. -/
def behind (names : List String) (result : Except Error Outcome) : Except Error Outcome :=
  result.map fun o => { o with path := names ++ o.path }

section

variable (around : Surroundings W) (engine : Engine W) (context : Object)

/-- The decision after some visits and one more. -/
def decisionAfter (visits : Visits) (current : String) (delta : Delta) : Decision :=
  engine.graph.next current (Visits.state context (visits ++ [(current, delta)]))

/-- After some visits, the run executes the step that it has come to: it is not seen to be cancelled, the
budget is not spent, and the execution ends in this way. -/
def Executes (visits : Visits) (current : String) (w : W) (result : Execution) (w' : W) : Prop :=
  visits.length < engine.maxSteps ∧
    ∃ before step, around.observe w = (false, before) ∧ engine.steps.get? current = some step ∧
      step.attempt around (Visits.state context visits) before = (result, w')

/-- After these visits, the run comes to this step in these surroundings. -/
inductive Reaches (start : W) : Visits → String → W → Prop where
  | start : Reaches start [] engine.graph.start start
  | next {visits : Visits} {current : String} {w w' : W} {delta : Delta}
      (prior : Reaches start visits current w)
      (last : Executes around engine context visits current w (.finished delta) w')
      (hNext : (engine.decisionAfter context visits current delta).termination? = none) :
      Reaches start (visits ++ [(current, delta)])
        (engine.decisionAfter context visits current delta).target.name w'

/-- After these visits and no more, the run stops with this result. -/
inductive Stops (start : W) : Visits → Except Error Outcome → Prop where
  | completed {visits : Visits} {current : String} {w w' : W} {delta : Delta} {reason : Termination}
      (prior : Reaches around engine context start visits current w)
      (last : Executes around engine context visits current w (.finished delta) w')
      (hEnd : (engine.decisionAfter context visits current delta).termination? = some reason) :
      Stops start (visits ++ [(current, delta)])
        (.ok (Visits.outcome context (.completed reason) (visits ++ [(current, delta)])))
  | cancelledBefore {visits : Visits} {current : String} {w w' : W}
      (prior : Reaches around engine context start visits current w)
      (hSeen : around.observe w = (true, w')) :
      Stops start visits (.ok (Visits.outcome context .cancelled visits))
  | cancelledDuring {visits : Visits} {current : String} {w w' : W}
      (prior : Reaches around engine context start visits current w)
      (last : Executes around engine context visits current w .interrupted w') :
      Stops start visits (.ok (Visits.outcome context .cancelled visits))
  | aborted {visits : Visits} {current : String} {w w' : W}
      (prior : Reaches around engine context start visits current w)
      (hUnseen : around.observe w = (false, w'))
      (hSpent : visits.length = engine.maxSteps) :
      Stops start visits (.ok (Visits.outcome context (.aborted engine.maxSteps) visits))
  | failed {visits : Visits} {current : String} {w w' : W} {cause : Error}
      (prior : Reaches around engine context start visits current w)
      (last : Executes around engine context visits current w (.failed cause) w') :
      Stops start visits (.error (.stepFailed current cause.asStepMessage))

/-- What is left of the walk when the run has some visits behind it. -/
def rest (visits : Visits) (current : String) (w : W) : Trace W :=
  walk around engine (engine.maxSteps - visits.length) visits.length current
    (Visits.state context visits) w

/-- What is left of a run when the execution of a step, from some surroundings to others, has ended in some
way. -/
def round (visits : Visits) (current : String) (w w' : W) (result : Execution) : Trace W :=
  Trace.after [.stepStarted current (visits.length + 1)] <|
  match result with
  | .interrupted => finish .cancelled visits.length (Visits.state context visits) w'
  | .failed cause => fail current cause w'
  | .finished delta =>
    let decision := engine.decisionAfter context visits current delta
    let elapsed := around.clock w' - around.clock (around.observe w).2
    Trace.through current <|
    Trace.after [.stepCompleted current elapsed delta.log.length,
      .transition current decision.target.name decision.reason] <|
    match decision.termination? with
    | some reason =>
      finish (.completed reason) (visits.length + 1)
        (Visits.state context (visits ++ [(current, delta)])) w'
    | none => rest around engine context (visits ++ [(current, delta)]) decision.target.name w'

end

theorem behind_nil (result : Except Error Outcome) : behind [] result = result := by
  cases result <;> rfl

theorem behind_behind (first second : List String) (result : Except Error Outcome) :
    behind first (behind second result) = behind (first ++ second) result := by
  cases result with
  | error e => rfl
  | ok o => simp [behind, Except.map]

variable {around : Surroundings W} {engine : Engine W} {context : Object}
variable {visits : Visits} {current : String} {w w' : W}

/-- One round of the loop, by the way in which the execution ends. -/
theorem Executes.rest_eq {result : Execution}
    (h : Executes around engine context visits current w result w') :
    rest around engine context visits current w =
      round around engine context visits current w w' result := by
  obtain ⟨hBudget, before, step, hUnseen, hStep, hAttempt⟩ := h
  obtain ⟨left, hLeft⟩ : ∃ left, engine.maxSteps - visits.length = left + 1 :=
    ⟨engine.maxSteps - visits.length - 1, by omega⟩
  rw [rest, hLeft, walk.eq_def]
  dsimp only
  rw [hUnseen, hStep]
  dsimp only
  rw [hAttempt]
  cases result with
  | interrupted => rfl
  | failed cause => rfl
  | finished delta =>
      have hRest : engine.maxSteps - (visits.length + 1) = left := by omega
      cases hNext : (engine.graph.next current ((Visits.state context visits).apply delta)).termination? <;>
        simp only [round, rest, decisionAfter, hRest, hUnseen, hNext, Visits.state_concat,
          List.length_append, List.length_singleton]

theorem rest_of_cancelled (hSeen : around.observe w = (true, w')) :
    rest around engine context visits current w =
      finish .cancelled visits.length (Visits.state context visits) w' := by
  rw [rest, walk.eq_def]
  dsimp only
  rw [hSeen]

theorem rest_of_spent (hUnseen : around.observe w = (false, w'))
    (hSpent : visits.length = engine.maxSteps) :
    rest around engine context visits current w =
      finish (.aborted engine.maxSteps) visits.length (Visits.state context visits) w' := by
  rw [rest, walk.eq_def]
  dsimp only
  rw [hUnseen, hSpent, Nat.sub_self]

/-- The result of a round that goes on is that of the rest, behind the step. -/
theorem round_result_of_none {delta : Delta}
    (hNext : (engine.decisionAfter context visits current delta).termination? = none) :
    (round around engine context visits current w w' (.finished delta)).result =
      behind [current] (rest around engine context (visits ++ [(current, delta)])
        (engine.decisionAfter context visits current delta).target.name w').result := by
  dsimp only [round]
  rw [hNext]
  rfl

theorem round_result_of_some {delta : Delta} {reason : Termination}
    (hEnd : (engine.decisionAfter context visits current delta).termination? = some reason) :
    (round around engine context visits current w w' (.finished delta)).result =
      .ok ⟨.completed reason, Visits.state context (visits ++ [(current, delta)]), [current]⟩ := by
  dsimp only [round]
  rw [hEnd]
  rfl

/-- Where a run has come to, the rest of its walk decides the result. -/
theorem Reaches.run_eq {start : W} (h : Reaches around engine context start visits current w) :
    (engine.run around context start).result =
      behind visits.names (rest around engine context visits current w).result := by
  induction h with
  | start => exact (behind_nil _).symm
  | next prior last hNext ih =>
      rw [ih, last.rest_eq, round_result_of_none hNext, behind_behind, Visits.names_concat]

theorem Stops.run_eq {start : W} {r : Except Error Outcome}
    (h : Stops around engine context start visits r) :
    (engine.run around context start).result = r := by
  cases h with
  | completed prior last hEnd =>
      rw [prior.run_eq, last.rest_eq, round_result_of_some hEnd]
      simp [behind, Except.map, Visits.outcome, Visits.names_concat]
  | cancelledBefore prior hSeen =>
      rw [prior.run_eq, rest_of_cancelled hSeen]
      simp [behind, Except.map, Visits.outcome, finish]
  | cancelledDuring prior last =>
      rw [prior.run_eq, last.rest_eq]
      simp [behind, Except.map, Visits.outcome, round, finish, Trace.after]
  | aborted prior hUnseen hSpent =>
      rw [prior.run_eq, rest_of_spent hUnseen hSpent]
      simp [behind, Except.map, Visits.outcome, finish]
  | failed prior last =>
      rw [prior.run_eq, last.rest_eq]
      rfl

/-- A run only comes to steps that are registered. -/
theorem Reaches.registered {d : Description} {strict : Bool} {start : W}
    (hGraph : Graph.compile d strict = .ok engine.graph)
    (h : Reaches around engine context start visits current w) :
    ∃ step, engine.steps.get? current = some step := by
  obtain ⟨done, edges, hCompiled⟩ := Graph.compile_ok hGraph
  have hDeclared : engine.graph.nodes.contains current = true := by
    cases h with
    | start => exact hCompiled.start_declared
    | next prior last hNext => exact hCompiled.continues hNext
  rw [Declarations.contains_iff_mem_names] at hDeclared
  exact Option.isSome_iff_exists.mp (engine.registered current hDeclared)

/-- From wherever a run has come to, it goes on until it stops: every visit takes one off the budget. -/
theorem Reaches.stops {d : Description} {strict : Bool} {start : W}
    (hGraph : Graph.compile d strict = .ok engine.graph) (left : Nat)
    (h : Reaches around engine context start visits current w)
    (hLeft : visits.length + left = engine.maxSteps) :
    ∃ visits' r, visits <+: visits' ∧ Stops around engine context start visits' r := by
  induction left generalizing visits current w with
  | zero =>
      cases hLook : around.observe w with
      | mk seen before =>
          cases seen with
          | true => exact ⟨_, _, List.prefix_rfl, .cancelledBefore h hLook⟩
          | false => exact ⟨_, _, List.prefix_rfl, .aborted h hLook hLeft⟩
  | succ left ih =>
      obtain ⟨step, hStep⟩ := h.registered hGraph
      cases hLook : around.observe w with
      | mk seen before =>
          cases seen with
          | true => exact ⟨_, _, List.prefix_rfl, .cancelledBefore h hLook⟩
          | false =>
              cases hAttempt : step.attempt around (Visits.state context visits) before with
              | mk result w' =>
                  have last : Executes around engine context visits current w result w' :=
                    ⟨by omega, before, step, hLook, hStep, hAttempt⟩
                  cases result with
                  | interrupted => exact ⟨_, _, List.prefix_rfl, .cancelledDuring h last⟩
                  | failed cause => exact ⟨_, _, List.prefix_rfl, .failed h last⟩
                  | finished delta =>
                      cases hNext :
                        (engine.decisionAfter context visits current delta).termination? with
                      | some reason => exact ⟨_, _, List.prefix_append _ _, .completed h last hNext⟩
                      | none =>
                          have hFewer : (visits ++ [(current, delta)]).length + left =
                              engine.maxSteps := by
                            rw [List.length_append, List.length_singleton]
                            omega
                          obtain ⟨visits', r, hPrefix, hStops⟩ := ih (.next h last hNext) hFewer
                          exact ⟨visits', r, (List.prefix_append _ _).trans hPrefix, hStops⟩

/-- Every run over a compiled graph stops, with its own result. -/
theorem run_stops {d : Description} {strict : Bool} {engine : Engine W}
    (hGraph : Graph.compile d strict = .ok engine.graph) (around : Surroundings W) (context : Object)
    (start : W) :
    ∃ visits, Stops around engine context start visits (engine.run around context start).result := by
  obtain ⟨visits, r, -, h⟩ := Reaches.stops hGraph engine.maxSteps
    (.start : Reaches around engine context start [] _ _) (Nat.zero_add _)
  exact ⟨visits, h.run_eq ▸ h⟩

/-- Every visit of a run was an execution, in the state that the visits before it had left. -/
theorem Executes.visited {start : W} {delta : Delta}
    (last : Executes around engine context visits current w (.finished delta) w')
    (prior : Reaches around engine context start visits current w)
    {before after : Visits} {step : String} {delta' : Delta}
    (hSplit : visits ++ [(current, delta)] = before ++ (step, delta') :: after) :
    ∃ v v', Reaches around engine context start before step v ∧
      Executes around engine context before step v (.finished delta') v' := by
  induction prior generalizing delta w' after with
  | start =>
      rcases Visits.split_concat hSplit with ⟨rfl, hLast⟩ | ⟨after, hEarlier⟩
      · cases hLast
        exact ⟨_, _, .start, last⟩
      · simp at hEarlier
  | next prior' last' hNext ih =>
      rcases Visits.split_concat hSplit with ⟨rfl, hLast⟩ | ⟨after, hEarlier⟩
      · cases hLast
        exact ⟨_, _, .next prior' last' hNext, last⟩
      · exact ih last' hEarlier

theorem Reaches.visited {start : W} (h : Reaches around engine context start visits current w)
    {before after : Visits} {step : String} {delta : Delta}
    (hSplit : visits = before ++ (step, delta) :: after) :
    ∃ v v', Reaches around engine context start before step v ∧
      Executes around engine context before step v (.finished delta) v' := by
  cases h with
  | start => simp at hSplit
  | next prior last hNext => exact last.visited prior hSplit

theorem Stops.visited {start : W} {r : Except Error Outcome}
    (h : Stops around engine context start visits r) {before after : Visits} {step : String}
    {delta : Delta} (hSplit : visits = before ++ (step, delta) :: after) :
    ∃ v v', Reaches around engine context start before step v ∧
      Executes around engine context before step v (.finished delta) v' := by
  cases h with
  | completed prior last hEnd => exact last.visited prior hSplit
  | cancelledBefore prior hSeen => exact prior.visited hSplit
  | cancelledDuring prior last => exact prior.visited hSplit
  | aborted prior hUnseen hSpent => exact prior.visited hSplit
  | failed prior last => exact prior.visited hSplit

theorem Reaches.length_le {start : W} (h : Reaches around engine context start visits current w) :
    visits.length ≤ engine.maxSteps := by
  cases h with
  | start => exact Nat.zero_le _
  | next prior last hNext =>
      rw [List.length_append, List.length_singleton]
      exact last.1

theorem Stops.length_le {start : W} {r : Except Error Outcome}
    (h : Stops around engine context start visits r) : visits.length ≤ engine.maxSteps := by
  cases h with
  | completed prior last hEnd =>
      rw [List.length_append, List.length_singleton]
      exact last.1
  | cancelledBefore prior hSeen => exact prior.length_le
  | cancelledDuring prior last => exact prior.length_le
  | aborted prior hUnseen hSpent => exact prior.length_le
  | failed prior last => exact prior.length_le

theorem Stops.outcome_eq {start : W} {o : Outcome}
    (h : Stops around engine context start visits (.ok o)) :
    o.path = visits.names ∧ o.state = (State.ofContext context).fold visits.deltas := by
  cases h with
  | completed prior last hEnd => exact ⟨rfl, rfl⟩
  | cancelledBefore prior hSeen => exact ⟨rfl, rfl⟩
  | cancelledDuring prior last => exact ⟨rfl, rfl⟩
  | aborted prior hUnseen hSpent => exact ⟨rfl, rfl⟩

/-- A run is its walk: there is exactly one result with which the walk stops, and the run has it. An outcome
counts the visits, tells them in order, and its state is what their deltas have made of the context. -/
theorem run_refines_walk {d : Description} {strict : Bool} {engine : Engine W}
    (hGraph : Graph.compile d strict = .ok engine.graph) (around : Surroundings W) (context : Object)
    (start : W) :
    (∀ r, (engine.run around context start).result = r ↔
      ∃ visits, Stops around engine context start visits r) ∧
    ∀ visits o, Stops around engine context start visits (.ok o) →
      o.path = visits.names ∧ o.stepsExecuted = visits.length ∧
        o.stepsExecuted ≤ engine.maxSteps ∧
        o.state = (State.ofContext context).fold visits.deltas := by
  refine ⟨fun r => ⟨?_, ?_⟩, ?_⟩
  · rintro rfl
    exact run_stops hGraph around context start
  · rintro ⟨visits, h⟩
    exact h.run_eq
  · intro visits o h
    obtain ⟨hPath, hState⟩ := h.outcome_eq
    have hLength : o.stepsExecuted = visits.length := by
      rw [Outcome.stepsExecuted, hPath, Visits.names, List.length_map]
    exact ⟨hPath, hLength, hLength ▸ h.length_le, hState⟩

/-- An engine is made of what it is created from. -/
theorem create_ok {graph : Graph} {steps : Steps W} {options : EngineOptions}
    (h : create graph steps options = .ok engine) :
    engine.graph = graph ∧ engine.steps = steps ∧ engine.maxSteps = options.budget graph.maxSteps := by
  unfold create at h
  split at h
  · cases h
  · cases h
    exact ⟨rfl, rfl, rfl⟩

theorem create_graph {graph : Graph} {steps : Steps W} {options : EngineOptions}
    (h : create graph steps options = .ok engine) : engine.graph = graph :=
  (create_ok h).1

/-- The run of an engine for a description, if it compiles and its steps are there. -/
def traceOf? (d : Description) (steps : Steps W) (options : EngineOptions) (around : Surroundings W)
    (context : Object) (start : W) : Option (Trace W) :=
  match Graph.compile d false with
  | .error _ => none
  | .ok graph =>
    match create graph steps options with
    | .error _ => none
    | .ok engine => some (engine.run around context start)

theorem exists_engine_of_traceOf? {d : Description} {steps : Steps W} {options : EngineOptions}
    {start : W} {t : Trace W} (h : traceOf? d steps options around context start = some t) :
    ∃ engine : Engine W, Graph.compile d false = .ok engine.graph ∧
      create engine.graph steps options = .ok engine ∧ engine.run around context start = t := by
  unfold traceOf? at h
  split at h
  · cases h
  · rename_i graph hGraph
    split at h
    · cases h
    · rename_i engine hCreate
      cases h
      obtain rfl := create_graph hCreate
      exact ⟨engine, hGraph, hCreate, rfl⟩

/-- Surroundings that count how often a run looks whether it is cancelled, and cancel it at the sixth
look: when the third step is about to begin. -/
private def impatient : Surroundings Nat := { Surroundings.still with
  observe looks := (looks == 5, looks + 1) }

private def players : Steps Nat where
  entries := [("ping", .assign .empty), ("pong", .assign .empty)]
  distinct := by decide

theorem run_refines_walk_cycle :
    ∃ engine : Engine Nat, Graph.compile Sample.cycle false = .ok engine.graph ∧
      ∃ visits o, Stops impatient engine .empty 0 visits (.ok o) ∧ o.path = ["ping", "pong"] ∧
        visits.names = ["ping", "pong"] := by
  have hPlayed : (traceOf? Sample.cycle players .standard impatient .empty 0).bind Trace.path? =
      some ["ping", "pong"] := by decide +kernel
  obtain ⟨t, hTrace, hPath⟩ := Option.bind_eq_some_iff.mp hPlayed
  obtain ⟨engine, hGraph, -, rfl⟩ := exists_engine_of_traceOf? hTrace
  obtain ⟨o, hResult, hPath⟩ := Trace.exists_outcome_of_path? hPath
  obtain ⟨hStops, hOutcome⟩ := run_refines_walk hGraph impatient .empty 0
  obtain ⟨visits, hStop⟩ := (hStops _).mp hResult
  exact ⟨engine, hGraph, visits, o, hStop, hPath, (hOutcome visits o hStop).1.symm.trans hPath⟩

end Engine

end Stepwise
