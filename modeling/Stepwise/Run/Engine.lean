import Stepwise.Process.Route
import Stepwise.Run.Outcome
import Stepwise.Step.Build

/-!
Runs. An engine walks the graph of a process, one step at a time: it executes the step on the state, applies
the delta and lets the graph choose the successor. A run ends when the graph says so, when its budget of steps
is spent, when it is cancelled, or when a step fails.
-/

namespace Stepwise

/-- The budget of a process when nobody sets one. -/
def defaultMaxSteps : Nat := 1000

structure EngineOptions where
  /-- The budget for processes that declare none. -/
  defaultMaxSteps : Nat
  /-- A budget that goes before the declared one. -/
  maxSteps : Option Nat

namespace EngineOptions

def standard : EngineOptions := ⟨Stepwise.defaultMaxSteps, none⟩

/-- The number of steps that a run may execute; at least one. -/
def budget (o : EngineOptions) (declared : Option Nat) : Nat :=
  max 1 ((o.maxSteps <|> declared).getD o.defaultMaxSteps)

theorem budget_pos (o : EngineOptions) (declared : Option Nat) : 0 < o.budget declared :=
  Nat.lt_of_lt_of_le Nat.zero_lt_one (Nat.le_max_left _ _)

end EngineOptions

structure Engine (W : Type) where
  graph : Graph
  steps : Steps W
  maxSteps : Nat
  maxSteps_pos : 0 < maxSteps
  /-- Every declared step can be executed. -/
  registered : ∀ name ∈ graph.nodes.names, steps.contains name = true

/-- The part of a run from some point on: what is reported, how it ends, and the surroundings afterwards. -/
structure Trace (W : Type) where
  reports : List Report
  result : Except Error Outcome
  world : W

namespace Trace

variable {W : Type}

/-- Reports before a trace. -/
def after (reports : List Report) (t : Trace W) : Trace W :=
  { t with reports := reports ++ t.reports }

/-- A step before the path of a trace. -/
def through (step : String) (t : Trace W) : Trace W :=
  { t with result := t.result.map fun o => { o with path := step :: o.path } }

def events (t : Trace W) (runId : String) : List Event :=
  t.reports.map fun report => ⟨runId, report⟩

end Trace

namespace Engine

variable {W : Type}

/-- An engine for a graph; the first declared step that is not registered is an error. -/
def create (graph : Graph) (steps : Steps W) (options : EngineOptions) : Except Error (Engine W) :=
  match h : graph.nodes.names.find? fun name => !steps.contains name with
  | some missing => .error (.stepNotRegistered missing)
  | none => .ok {
      graph, steps
      maxSteps := options.budget graph.maxSteps
      maxSteps_pos := options.budget_pos graph.maxSteps
      registered := by simpa using h }

/-- An engine whose steps are built from their declarations. -/
def build (shop : Workshop W) (graph : Graph) (options : EngineOptions) :
    Except Error (Engine W) := do
  create graph (← shop.build graph) options

/-- The end of a run after `executed` steps. -/
def finish (status : RunStatus) (executed : Nat) (s : State) (w : W) : Trace W :=
  ⟨[.runFinished status executed], .ok ⟨status, s, []⟩, w⟩

/-- The end of a run that a step failed; whatever the cause, the error names that step. -/
def fail (step : String) (cause : Error) (w : W) : Trace W :=
  let e := Error.stepFailed step cause.asStepMessage
  ⟨[.stepFailed step e.message, .runFailed e.message], .error e, w⟩

/-- Walk on from a step, with so many executions left and so many done. -/
def walk (around : Surroundings W) (engine : Engine W) :
    (left done : Nat) → (current : String) → State → W → Trace W
  | left, done, current, s, w =>
    match around.observe w, left, engine.steps.get? current with
    | (true, w), _, _ => finish .cancelled done s w
    | (false, w), 0, _ => finish (.aborted engine.maxSteps) done s w
    | (false, w), _ + 1, none => ⟨[], .error (.stepNotRegistered current), w⟩
    | (false, w), left + 1, some step =>
      Trace.after [.stepStarted current (done + 1)] <|
      match step.attempt around s w with
      | (.interrupted, w) => finish .cancelled done s w
      | (.failed e, w) => fail current e w
      | (.finished delta, next) =>
        let s := s.apply delta
        let elapsed := around.clock next - around.clock w
        let decision := engine.graph.next current s
        Trace.through current <|
        Trace.after [.stepCompleted current elapsed delta.log.length,
          .transition current decision.target.name decision.reason] <|
        match decision.termination? with
        | some reason => finish (.completed reason) (done + 1) s next
        | none => walk around engine left (done + 1) decision.target.name s next

/-- A whole run. -/
def run (around : Surroundings W) (engine : Engine W) (context : Object) (w : W) : Trace W :=
  Trace.after [.runStarted engine.graph.start] <|
    walk around engine engine.maxSteps 0 engine.graph.start (.ofContext context) w

end Engine

end Stepwise
