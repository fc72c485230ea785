import Stepwise.Step.Kinds
import Stepwise.Process.Flaw

/-!
Reading the parameters of steps. The first parameter that does not fit is reported.
-/

namespace Stepwise

/-- What kind of value it is, for messages. -/
def Json.kindName : Json → String
  | .null => "null"
  | .bool _ => "a boolean"
  | .number _ => "a number"
  | .string _ => "a string"
  | .array _ => "a list"
  | .object _ => "a mapping"

namespace Parameters

/-- A problem with a parameter of a step. -/
def refuse {α : Type} (step key : String) (problem : ParameterProblem) : Except Flaw α :=
  .error (.parameter step key problem)

/-- A text; null is the same as absent. -/
def text? (step : String) (params : Object) (key : String) : Except Flaw (Option String) :=
  match params.get? key with
  | none | some .null => .ok none
  | some (.string s) => .ok (some s)
  | some value => refuse step key (.wrongType "a string" (some value.kindName))

/-- A namespace; null is the same as absent. -/
def namespaceOf (step : String) (params : Object) (key : String) : Except Flaw Object :=
  match params.value? key with
  | none => .ok .empty
  | some value =>
    match value.json, value.object? with
    | .null, _ => .ok .empty
    | _, some object => .ok object
    | json, none => refuse step key (.wrongType "a mapping" (some json.kindName))

/-- Integers of 64 bits without a sign. -/
def count? (value : Json) : Option Nat :=
  value.count?.bind fun n => if n < Nat.pow 2 64 then some n else none

/-- The value of a parameter that may be absent but not null. -/
def given? {α : Type} (step : String) (params : Object) (key : String)
    (read : Json → Option α) (problem : Json → ParameterProblem) : Except Flaw (Option α) :=
  match params.get? key with
  | none => .ok none
  | some value =>
    match read value with
    | some a => .ok (some a)
    | none => refuse step key (problem value)

end Parameters

open Parameters

/-! ### Kinds of steps -/

/-- Add records to the log: those of a list, or a single one. -/
private def withRecords (delta : Delta) : Option Value → Delta
  | none => delta
  | some value =>
    match h : value.json with
    | .null => delta
    | .array items =>
      items.attach.foldl (fun delta item =>
        delta.withLog ⟨item.1, by
          have canonical := h ▸ value.canonical
          cases canonical with
          | array each => exact each item.1 item.2⟩) delta
    | _ => delta.withLog value

/-- The delta that an assigning step returns. -/
def assignedDelta (step : String) (params : Object) : Except Flaw Delta := do
  let context ← namespaceOf step params "context"
  let artifacts ← namespaceOf step params "artifacts"
  let quality ← namespaceOf step params "quality"
  return withRecords ⟨context, artifacts, quality, []⟩ (params.value? "log")

/-- Find a function that a parameter names. -/
def functionNamed (functions : Functions) (step key name : String) : Except Flaw StepFunction :=
  match functions.get? name with
  | some function => .ok function
  | none => refuse step key (.unknownFunction name functions.sortedNames)

/-- The function of a deterministic step. -/
def calledFunction (functions : Functions) (step : String) (params : Object) :
    Except Flaw StepFunction := do
  match ← text? step params "function" with
  | some name => functionNamed functions step "function" name
  | none => refuse step "function" (.missing "deterministic" "function")

namespace Judge

def ofParams (functions : Functions) (step : String) (params : Object) : Except Flaw Judge := do
  let defaults := withDefaults step
  let artifact ← text? step params "artifact"
  let minLength ← given? step params "min_length" count? fun value =>
    .wrongType "a non-negative integer" (some value.kindName)
  let purpose ← text? step params "purpose"
  let rule ← match ← text? step params "rule" with
    | some name => (functionNamed functions step "rule" name).map some
    | none => .ok none
  return ⟨step, artifact.getD defaults.artifact, minLength.getD defaults.minLength, purpose, rule⟩

end Judge

namespace Completion

/-- A text; messages do not say what else was found. -/
def plainText? (step : String) (params : Object) (key : String) :
    Except Flaw (Option String) :=
  match params.get? key with
  | none | some .null => .ok none
  | some (.string s) => .ok (some s)
  | some _ => refuse step key (.wrongType "a string" none)

def bool? : Json → Option Bool
  | .bool b => some b
  | _ => none

def plainCount? (step : String) (params : Object) (key : String) :
    Except Flaw (Option Nat) :=
  given? step params key count? fun _ => .wrongType "a non-negative integer" none

/-- The number of retries keeps its lowest 32 bits. -/
def ofParams (step : String) (params : Object) : Except Flaw Completion := do
  match ← plainText? step params "prompt_template" with
  | none => refuse step "prompt_template" .noTemplate
  | some template =>
    let defaults := withDefaults step template
    let model ← plainText? step params "model"
    let purpose ← plainText? step params "purpose"
    let outputKey ← plainText? step params "output_key"
    let jsonOutput ← given? step params "json_output" bool? fun _ => .wrongType "a boolean" none
    let retries ← plainCount? step params "retries"
    let backoff ← plainCount? step params "retry_backoff_ms"
    return ⟨step, model.getD defaults.model, purpose.getD defaults.purpose, template,
      outputKey.getD defaults.outputKey, jsonOutput.getD defaults.jsonOutput,
      (retries.getD defaults.retries) % Nat.pow 2 32, backoff.getD defaults.backoff⟩

end Completion

end Stepwise
