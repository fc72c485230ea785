import Stepwise.Step.Basic
import Stepwise.Step.Prompt
import Stepwise.Json.Reader

/-!
Steps that ask a model. A request that fails is repeated after a pause that doubles each time. When no
attempt succeeds the step still ends well: it records the error, and routing decides what comes next.
-/

namespace Stepwise

structure Completion where
  name : String
  model : String
  purpose : String
  template : String
  /-- The artifact that takes the answer. -/
  outputKey : String
  /-- Whether the answer must be JSON. -/
  jsonOutput : Bool
  /-- How many times a failed request is repeated. -/
  retries : Nat
  /-- The first pause in milliseconds. -/
  backoff : Nat

namespace Completion

def withDefaults (name template : String) : Completion :=
  ⟨name, "simulated", "", template, name, false, 0, 500⟩

/-- The pause after an attempt; attempts count from zero. There is no longest pause here. -/
def pauseAfter (backoff attempt : Nat) : Nat :=
  backoff * min (Nat.pow 2 (min attempt 32)) (Nat.pow 2 32 - 1)

variable {W : Type}

/-- Ask until an answer comes or no retry is left; none if the run is cancelled during a request or between
two of them. -/
def request (around : Surroundings W) (c : Completion) (prompt : String) :
    (retries attempt : Nat) → W → Option (Except Error String) × W
  | retries, attempt, w =>
    match around.complete c.model prompt w, retries with
    | (none, w), _ => (none, w)
    | (some (.ok text), w), _ => (some (.ok text), w)
    | (some (.error e), w), 0 => (some (.error e), w)
    | (some (.error _), w), retries + 1 =>
      match around.pause (pauseAfter c.backoff attempt) w with
      | (true, w) => request around c prompt retries (attempt + 1) w
      | (false, w) => (none, w)

/-- What the log record of a request begins with. -/
def recordFields (c : Completion) (status : String) : Object :=
  .ofList [("agent", .string c.name), ("kind", .string "llm"), ("model", .string c.model),
    ("purpose", .string c.purpose), ("status", .string status)]

def success (c : Completion) (output : Value) : Delta :=
  Delta.empty
    |>.withArtifact c.outputKey output
    |>.withLog (.object (recordFields c "success"))

/-- What the step returns when there is no usable answer. -/
def degraded (c : Completion) (detail : String) : Delta :=
  Delta.empty
    |>.withError s!"Completion with model '{c.model}' failed: {detail}"
    |>.withLog (.object ((recordFields c "error").insert "detail" (.string detail)))

/-- The delta for an answer or the last error. -/
def deltaFor (c : Completion) : Except Error String → Delta
  | .error e => c.degraded e.message
  | .ok text =>
    if c.jsonOutput then
      match Json.read text with
      | .ok d => c.success d.toValue
      | .error problem => c.degraded s!"expected JSON output: {problem}"
    else c.success (.string text)

def execute (around : Surroundings W) (c : Completion) (s : State) (w : W) : Execution × W :=
  match request around c (Prompt.render c.template s) c.retries 0 w with
  | (some reply, w) => (.finished (c.deltaFor reply), w)
  | (none, w) => (.interrupted, w)

/-- The longest part of a prompt that a simulated answer repeats. -/
def echoedChars : Nat := 3000

/-- The answer of the client that needs no model. -/
def simulatedAnswer (model prompt : String) : String :=
  let body := String.ofList (prompt.toList.take echoedChars)
  s!"[LLM:{model}]\n{body}\n\n[SIMULATED_OUTPUT] Generated from the prompt above."

end Completion

end Stepwise
