import Stepwise.Step.Basic
import Stepwise.Process.Declarations
import Stepwise.Text.Quoted

/-!
Functions that descriptions can refer to by name, and the two that are always there.
-/

namespace Stepwise

namespace StepFunction

def noop : StepFunction := fun _ => .ok .empty

/-- Set the recorded error to null. -/
def clearError : StepFunction := fun _ => .ok (Delta.empty.withQuality "error" .null)

end StepFunction

/-- Functions by name. -/
abbrev Functions := Declarations StepFunction

def Functions.builtin : Functions :=
  (Declarations.empty.insert "noop" StepFunction.noop).insert "clear_error" StepFunction.clearError

/-- The names of a registry as diagnostics show them. -/
def registryText (registry field : String) (names : List String) : String :=
  let list := ", ".intercalate (names.map Text.quoted)
  s!"{registry} \x7b {field}: [{list}] \x7d"

def Functions.text (f : Functions) : String :=
  registryText "FunctionRegistry" "functions" f.sortedNames

end Stepwise
