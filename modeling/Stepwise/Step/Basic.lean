import Stepwise.Error
import Stepwise.State.Merge

/-!
What steps work with: the functions that they may call, what they find around them, and how an execution
ends.
-/

namespace Stepwise

/-- A function from states to deltas, for steps that compute. -/
abbrev StepFunction := State → Except Error Delta

/-- How an execution of a step ends. -/
inductive Execution where
  | finished (delta : Delta)
  | failed (error : Error)
  /-- The run was cancelled before the step had ended; nothing of the step remains. -/
  | interrupted

/-- What a run finds around it; `W` is the type of its states. A call of the completion client or a pause
may change it. -/
structure Surroundings (W : Type) where
  /-- Look whether the run has been cancelled. That may happen between two looks. -/
  observe : W → Bool × W
  /-- The time in milliseconds. -/
  clock : W → Nat
  /-- Ask a model to complete a prompt; none if the run was cancelled before an answer came. -/
  complete : (model prompt : String) → W → Option (Except Error String) × W
  /-- Let milliseconds pass; false if the run was cancelled meanwhile. -/
  pause : (ms : Nat) → W → Bool × W

/-- The log record of a step. -/
def auditRecord (agent kind : String) : Value :=
  .object (.ofList [("agent", .string agent), ("kind", .string kind)])

end Stepwise
