import Stepwise.Run.Event
import Stepwise.Config
import Stepwise.Json.Printer
import Stepwise.Text.Boundary

/-!
The log of a run: one entry for each event of the run that the level admits, in order, up to the last event of
the run.
-/

namespace Stepwise

structure LogEntry where
  runId : String
  eventType : String
  step : Option String
  detail : Object

namespace LogEntry

/-- An entry without the time at which it is written. -/
def toObject (e : LogEntry) : Object :=
  .ofList ([("run_id", .string e.runId), ("event_type", .string e.eventType),
    ("detail", .object e.detail)] ++
    match e.step with
    | some step => [("step", .string step)]
    | none => [])

/-- The line of a log for an entry that is written at a time. -/
def line (e : LogEntry) (timestamp : String) : String :=
  let step := match e.step with
    | some step => [("step", Json.string step)]
    | none => []
  (Json.object ([("timestamp", .string timestamp), ("run_id", .string e.runId),
    ("event_type", .string e.eventType)] ++ step ++ [("detail", e.detail.toJson)])).compact

end LogEntry

namespace Report

/-- The greatest number of bytes of an error in a log. -/
def maxErrorBytes : Nat := 500

/-- The lowest level that admits the report. -/
def level : Report → Nat
  | .runStarted _ | .runFinished _ _ | .runFailed _ => 1
  | .stepStarted _ _ | .stepCompleted _ _ _ | .stepFailed _ _ => 2
  | .transition _ _ _ => 3

/-- The step that an entry names. -/
def loggedStep? : Report → Option String
  | .stepStarted step _ | .stepCompleted step _ _ | .stepFailed step _ => some step
  | .transition source _ _ => some source
  | .runStarted _ | .runFinished _ _ | .runFailed _ => none

def detail : Report → Object
  | .runStarted start => .ofList [("start", .string start)]
  | .runFinished status stepsExecuted =>
    .ofList [("status", .object status.toObject), ("steps_executed", .nat stepsExecuted)]
  | .runFailed error => .ofList [("error", .string error)]
  | .stepStarted _ iteration => .ofList [("iteration", .nat iteration)]
  | .stepCompleted _ elapsedMs logRecords =>
    .ofList [("elapsed_ms", .nat elapsedMs), ("log_records", .nat logRecords)]
  | .stepFailed _ error => .ofList [("error", .string (Text.truncate maxErrorBytes error))]
  | .transition _ target reason =>
    .ofList [("to", .string target), ("reason", .object reason.toObject)]

end Report

/-- Where a log is written and how much of a run it holds. -/
structure RunLog where
  dir : String
  level : Nat

/-- What a log receives: items from the bus that carries the events of all runs, or the word to stop. -/
inductive Received where
  | event (event : Event)
  /-- So many events were lost. -/
  | lagged (count : Nat)
  /-- There will be no more events. -/
  | closed
  /-- The log was told to stop. -/
  | cancelled

namespace RunLog

def ofConfig (c : LogConfig) (env : Environment) : RunLog :=
  ⟨c.directory env, c.level⟩

/-- Every run has a folder of its own. -/
def folder (l : RunLog) (runId : String) : String :=
  Text.PathName.join l.dir runId

def path (l : RunLog) (runId timestamp : String) : String :=
  Text.PathName.join (l.folder runId) (timestamp ++ ".jsonl")

/-- The entry for an event, unless the level leaves it out. -/
def entry? (l : RunLog) (e : Event) : Option LogEntry :=
  if e.report.level = 1 ∨ e.report.level ≤ l.level then
    some ⟨e.runId, e.report.name, e.report.loggedStep?, e.report.detail⟩
  else none

/-- The entries for a run. Events of other runs are passed over, also their last ones. -/
def entries (l : RunLog) (runId : String) : List Received → List LogEntry
  | [] | .closed :: _ | .cancelled :: _ => []
  | .lagged _ :: rest => entries l runId rest
  | .event e :: rest =>
    if e.runId ≠ runId then entries l runId rest
    else (l.entry? e).toList ++ if e.isFinal then [] else entries l runId rest

end RunLog

/-! ### The bus -/

/-- The least power of two that is no less than `n`. -/
def powerOfTwoFrom (n : Nat) : Nat :=
  if n ≤ 1 then 1 else Nat.pow 2 ((n - 1).log2 + 1)

/-- What a log receives of events that are all there before it reads the first: a bus keeps the latest
ones, as many as its capacity rounded up to a power of two. -/
def receivedFrom (capacity : Nat) (events : List Event) : List Received :=
  let lost := events.length - powerOfTwoFrom capacity
  (if lost = 0 then [] else [Received.lagged lost]) ++ (events.drop lost).map .event ++ [.closed]

end Stepwise
