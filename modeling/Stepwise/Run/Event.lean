import Stepwise.Document.Fit

/-!
What a run reports while it executes, and its form in JSON. Reading back what is written gives the same
event.
-/

namespace Stepwise

/-- Why a run came to its end. -/
inductive Termination where
  /-- The done condition of the process held. -/
  | doneCondition
  /-- An edge to the end was taken. -/
  | terminalEdge
  /-- No guard held and the step has no fallback. -/
  | noSuccessor
deriving DecidableEq

/-- Why a successor was picked. -/
inductive RouteReason where
  | doneCondition
  /-- A guard held; the index is its position among the guards of the step. -/
  | guard (index : Nat) (condition : String)
  | fallback
  | noSuccessor
deriving DecidableEq

/-- How a run ended. -/
inductive RunStatus where
  | completed (reason : Termination)
  /-- The budget of steps ran out. -/
  | aborted (limit : Nat)
  | cancelled
deriving DecidableEq

inductive Report where
  | runStarted (start : String)
  | stepStarted (step : String) (iteration : Nat)
  | stepCompleted (step : String) (elapsedMs : Nat) (logRecords : Nat)
  | stepFailed (step : String) (error : String)
  | transition (source : String) (target : String) (reason : RouteReason)
  | runFinished (status : RunStatus) (stepsExecuted : Nat)
  | runFailed (error : String)
deriving DecidableEq

/-- A report of the run with the given id. -/
structure Event where
  runId : String
  report : Report
deriving DecidableEq

/-- Whether a report is the last one of its run. -/
def Report.isFinal : Report → Bool
  | .runFinished _ _ | .runFailed _ => true
  | _ => false

def Event.isFinal (e : Event) : Bool := e.report.isFinal

/-! ### Names -/

def Termination.name : Termination → String
  | .doneCondition => "done_condition"
  | .terminalEdge => "terminal_edge"
  | .noSuccessor => "no_successor"

def Termination.all : List Termination := [.doneCondition, .terminalEdge, .noSuccessor]

def RouteReason.name : RouteReason → String
  | .doneCondition => "done_condition"
  | .guard _ _ => "guard"
  | .fallback => "fallback"
  | .noSuccessor => "no_successor"

def RouteReason.names : List String := ["done_condition", "guard", "fallback", "no_successor"]

def RunStatus.name : RunStatus → String
  | .completed _ => "completed"
  | .aborted _ => "aborted"
  | .cancelled => "cancelled"

def RunStatus.names : List String := ["completed", "aborted", "cancelled"]

def Report.name : Report → String
  | .runStarted _ => "run_started"
  | .stepStarted _ _ => "step_started"
  | .stepCompleted _ _ _ => "step_completed"
  | .stepFailed _ _ => "step_failed"
  | .transition _ _ _ => "transition"
  | .runFinished _ _ => "run_finished"
  | .runFailed _ => "run_failed"

def Report.names : List String :=
  ["run_started", "step_started", "step_completed", "step_failed", "transition", "run_finished",
    "run_failed"]

/-! ### Writing -/

def RouteReason.toObject (r : RouteReason) : Object :=
  .ofList (("kind", .string r.name) :: match r with
    | .guard index condition => [("index", .nat index), ("condition", .string condition)]
    | .doneCondition | .fallback | .noSuccessor => [])

def RunStatus.toObject (s : RunStatus) : Object :=
  .ofList (("status", .string s.name) :: match s with
    | .completed reason => [("reason", .string reason.name)]
    | .aborted limit => [("limit", .nat limit)]
    | .cancelled => [])

/-- The tag of an event and its fields under their names. -/
def Event.written (e : Event) : List (String × Value) :=
  ("type", .string e.report.name) :: ("run_id", .string e.runId) :: match e.report with
    | .runStarted start => [("start", .string start)]
    | .stepStarted step iteration => [("step", .string step), ("iteration", .nat iteration)]
    | .stepCompleted step elapsedMs logRecords =>
      [("step", .string step), ("elapsed_ms", .nat elapsedMs), ("log_records", .nat logRecords)]
    | .stepFailed step error => [("step", .string step), ("error", .string error)]
    | .transition source target reason =>
      [("from", .string source), ("to", .string target), ("reason", .object reason.toObject)]
    | .runFinished status stepsExecuted =>
      [("status", .object status.toObject), ("steps_executed", .nat stepsExecuted)]
    | .runFailed error => [("error", .string error)]

def Event.toObject (e : Event) : Object := .ofList e.written

/-! ### Reading -/

/-- The variant that a tag names. `index` tells whether it may be given by its number. -/
def variantNamed (names : List String) (index : Bool) (tag : Document) : Except Misfit String :=
  match tag with
  | .scalar (.string name) =>
    if names.contains name then .ok name else .error (.unknownVariant name names)
  | .scalar (.number (.int (.ofNat n))) =>
    if index then
      match names[n]? with
      | some name => .ok name
      | none => .error (.wrongValue (.number (.int n)) s!"variant index 0 <= i < {names.length}")
    else tag.misfit "variant identifier"
  | _ => tag.misfit "variant identifier"

/-- The variant of a tagged document and what stands beside the tag. In an object the tag has a key; in a
list it is the first item. -/
def splitTag (type tag : String) (names : List String) (index : Bool) (d : Document) :
    Except Misfit (String × Document) :=
  match d with
  | .object entries =>
    match entries.find? fun entry => entry.1 == tag with
    | none => .error (.missingField tag)
    | some (_, value) => do
      let name ← variantNamed names index value
      return (name, .object (entries.filter fun entry => entry.1 != tag))
  | .array [] => .error (.missingField tag)
  | .array (value :: rest) => do return (← variantNamed names index value, .array rest)
  | d => d.misfit s!"internally tagged enum {type}"

/-- The name of a variant in a message: its words without a separator and with capitals. -/
def variantTitle (name : String) : String :=
  String.join ((name.splitOn "_").map String.capitalize)

/-- Read the fields of a variant. -/
def fitVariant {σ : Type} (type name : String) (fields : List (Field σ)) (defaults : σ)
    (d : Document) : Except Misfit σ :=
  d.toStructure .counted s!"struct variant {type}::{variantTitle name}" fields defaults

/-- Beside the tag of a variant without fields there may be keys but no items. -/
def fitBare {α : Type} (variant : α) : Document → Except Misfit α
  | .array (_ :: rest) => .error (.wrongLength (rest.length + 1) s!"{elements 0} in sequence")
  | _ => .ok variant

/-- A termination is its name, or an object with its name as only key and null under it. -/
def Termination.ofDocument (d : Document) : Except Misfit Termination :=
  let ofName (name : String) : Except Misfit Termination :=
    match all.find? fun t => t.name == name with
    | some t => .ok t
    | none => .error (.unknownVariant name (all.map Termination.name))
  match d with
  | .scalar (.string name) => ofName name
  | .object [(name, value)] =>
    match ofName name, value with
    | .ok t, .scalar .null => .ok t
    | .ok t, .object [] => .ok t
    | .ok _, value => value.misfit "unit"
    | .error misfit, _ => .error misfit
  | .object _ => .error (.wrongValue .map "map with a single key")
  | d => d.misfit "string or map"

def RouteReason.ofDocument (d : Document) : Except Misfit RouteReason := do
  let (name, rest) ← splitTag "RouteReason" "kind" names true d
  match name with
  | "guard" =>
    let (index, condition) ← fitVariant "RouteReason" name
      [.needed "index" (Document.count "usize") fun (_, c) i => (i, c),
        .needed "condition" Document.text fun (i, _) c => (i, c)] (0, "") rest
    return .guard index condition
  | "done_condition" => fitBare .doneCondition rest
  | "fallback" => fitBare .fallback rest
  | _ => fitBare .noSuccessor rest

def RunStatus.ofDocument (d : Document) : Except Misfit RunStatus := do
  let (name, rest) ← splitTag "RunStatus" "status" names true d
  match name with
  | "completed" =>
    return .completed (← fitVariant "RunStatus" name
      [.needed "reason" Termination.ofDocument fun _ r => r] .noSuccessor rest)
  | "aborted" =>
    return .aborted (← fitVariant "RunStatus" name
      [.needed "limit" (Document.count "usize") fun _ n => n] 0 rest)
  | _ => fitBare .cancelled rest

/-- The fields that events have between them. -/
structure Event.Parts where
  runId : String
  start : String
  step : String
  source : String
  target : String
  error : String
  iteration : Nat
  elapsedMs : Nat
  logRecords : Nat
  stepsExecuted : Nat
  reason : RouteReason
  status : RunStatus

def Event.Parts.empty : Event.Parts :=
  ⟨"", "", "", "", "", "", 0, 0, 0, 0, .fallback, .cancelled⟩

namespace Event

def runIdField : Field Parts :=
  .needed "run_id" Document.text fun p runId => { p with runId }

def stepField : Field Parts :=
  .needed "step" Document.text fun p step => { p with step }

def errorField : Field Parts :=
  .needed "error" Document.text fun p error => { p with error }

def fieldsOf (name : String) : List (Field Parts) :=
  match name with
  | "run_started" => [runIdField, .needed "start" Document.text fun p start => { p with start }]
  | "step_started" =>
    [runIdField, stepField,
      .needed "iteration" (Document.count "usize") fun p iteration => { p with iteration }]
  | "step_completed" =>
    [runIdField, stepField,
      .needed "elapsed_ms" (Document.count "u64") fun p elapsedMs => { p with elapsedMs },
      .needed "log_records" (Document.count "usize") fun p logRecords => { p with logRecords }]
  | "step_failed" => [runIdField, stepField, errorField]
  | "transition" =>
    [runIdField, .needed "from" Document.text fun p source => { p with source },
      .needed "to" Document.text fun p target => { p with target },
      .needed "reason" RouteReason.ofDocument fun p reason => { p with reason }]
  | "run_finished" =>
    [runIdField, .needed "status" RunStatus.ofDocument fun p status => { p with status },
      .needed "steps_executed" (Document.count "usize") fun p stepsExecuted =>
        { p with stepsExecuted }]
  | _ => [runIdField, errorField]

def reportOf (name : String) (p : Parts) : Report :=
  match name with
  | "run_started" => .runStarted p.start
  | "step_started" => .stepStarted p.step p.iteration
  | "step_completed" => .stepCompleted p.step p.elapsedMs p.logRecords
  | "step_failed" => .stepFailed p.step p.error
  | "transition" => .transition p.source p.target p.reason
  | "run_finished" => .runFinished p.status p.stepsExecuted
  | _ => .runFailed p.error

def ofDocument (d : Document) : Except Misfit Event := do
  let (name, rest) ← splitTag "RunEvent" "type" Report.names false d
  let parts ← fitVariant "RunEvent" name (fieldsOf name) .empty rest
  return ⟨parts.runId, reportOf name parts⟩

end Event

end Stepwise
