import Stepwise.Step.Function
import Stepwise.Step.Judge
import Stepwise.Step.Completion

/-!
Steps by kind. Beside the four kinds that descriptions know there are steps of the user's own.
-/

namespace Stepwise

inductive Step (W : Type) where
  /-- Returns the same delta every time. -/
  | assign (delta : Delta)
  /-- Calls a function and adds a record to the log. -/
  | deterministic (name : String) (function : StepFunction)
  | judge (judge : Judge)
  | completion (completion : Completion)
  | custom (kind : String) (execute : State → W → Execution × W)

namespace Step

variable {W : Type}

def kind : Step W → String
  | assign _ => "assign"
  | deterministic _ _ => "deterministic"
  | judge _ => "judge"
  | completion _ => "llm"
  | custom kind _ => kind

/-- The end of an execution that cannot be interrupted. -/
def ended : Except Error Delta → Execution
  | .ok delta => .finished delta
  | .error e => .failed e

def execute (around : Surroundings W) (step : Step W) (s : State) (w : W) : Execution × W :=
  match step with
  | assign delta => (.finished delta, w)
  | deterministic name function =>
    (ended ((function s).map (·.withLog (auditRecord name "deterministic"))), w)
  | judge j => (ended (j.review s), w)
  | completion c => c.execute around s w
  | custom _ execute => execute s w

/-- Execute a step unless the run is cancelled before it begins. -/
def attempt (around : Surroundings W) (step : Step W) (s : State) (w : W) : Execution × W :=
  match around.observe w with
  | (true, w) => (.interrupted, w)
  | (false, w) => step.execute around s w

end Step

/-- Steps by name. -/
abbrev Steps (W : Type) := Declarations (Step W)

namespace Steps

variable {W : Type}

/-- Execute the step of a name. -/
def execute (around : Surroundings W) (steps : Steps W) (name : String) (s : State) (w : W) :
    Execution × W :=
  match steps.get? name with
  | some step => step.execute around s w
  | none => (.failed (.stepNotRegistered name), w)

def text (steps : Steps W) : String :=
  registryText "StepRegistry" "steps" steps.sortedNames

end Steps

end Stepwise
