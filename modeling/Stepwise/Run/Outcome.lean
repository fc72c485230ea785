import Stepwise.Run.Event
import Stepwise.State.Document
import Stepwise.Json.Printer

/-!
What a run that no step failed comes to, and its forms for readers.
-/

namespace Stepwise

structure Outcome where
  status : RunStatus
  state : State
  /-- The names of the executed steps in order. -/
  path : List String

namespace Outcome

def stepsExecuted (o : Outcome) : Nat := o.path.length

/-- Whether the run reached the end of the process. -/
def isCompleted (o : Outcome) : Bool :=
  match o.status with
  | .completed _ => true
  | _ => false

/-- Whether the budget stopped the run. -/
def isAborted (o : Outcome) : Bool :=
  match o.status with
  | .aborted _ => true
  | _ => false

/-- The error that a step left in the state. -/
def recordedError? (o : Outcome) : Option Json :=
  match o.state.quality.get? "error" with
  | some .null => none
  | error? => error?

/-- The status with its parts in the order in which they are shown. -/
def statusJson (s : RunStatus) : Json :=
  .object (("status", .string s.name) :: match s with
    | .completed reason => [("reason", .string reason.name)]
    | .aborted limit => [("limit", .number (.int limit))]
    | .cancelled => [])

private def stateJson (s : State) : Json :=
  .object [("context", s.context.toJson), ("artifacts", s.artifacts.toJson),
    ("quality", s.quality.toJson), ("log", .array (s.log.map Object.toJson))]

/-- All of an outcome, with its parts in the order in which they are shown. -/
def toJson (o : Outcome) (runId : String) (elapsedMs : Nat) : Json :=
  .object [("run_id", .string runId), ("status", statusJson o.status), ("state", stateJson o.state),
    ("steps_executed", .number (.int o.stepsExecuted)),
    ("path", .array (o.path.map .string)), ("elapsed_ms", .number (.int elapsedMs))]

/-- How many records of the log are shown. -/
def shownRecords : Nat := 10

/-- A summary for people. -/
def lines (o : Outcome) (runId : String) (elapsedMs : Nat) : List String :=
  let tail := o.state.log.drop (o.state.log.length - shownRecords)
  let path := " -> ".intercalate o.path
  [s!"run:       {runId}",
    s!"status:    {(statusJson o.status).compact}",
    s!"steps:     {o.stepsExecuted} ({elapsedMs} ms)",
    s!"path:      {path}"] ++
  (match o.recordedError? with
    | some error => [s!"error:     {error.compact}"]
    | none => []) ++
  ["", "artifacts:", o.state.artifacts.toJson.pretty, "quality:", o.state.quality.toJson.pretty,
    s!"log (last {tail.length} of {o.state.log.length}):"] ++
  tail.map fun record => "  " ++ record.toJson.compact

end Outcome

end Stepwise
