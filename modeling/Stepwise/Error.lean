import Stepwise.Guard.Token
import Stepwise.Process.Flaw

/-!
Everything that can go wrong, by cause. Errors of the first phase stop a process from being loaded; only a
failed step stops a run.
-/

namespace Stepwise

/-- Why the source of a process cannot be read. -/
inductive SourceProblem where
  | unsupportedExtension
  /-- The text is not written in its format, or does not fit a description. -/
  | malformed (message : String)
deriving DecidableEq

def SourceProblem.message : SourceProblem → String
  | .unsupportedExtension =>
    "unsupported file extension (expected .yaml, .yml, .toml or .json)"
  | .malformed message => message

/-- Why a configuration is refused. -/
inductive ConfigProblem where
  | zeroBudget
  | levelOutOfRange (level : Nat)
  | malformed (message : String)
deriving DecidableEq

def ConfigProblem.message : ConfigProblem → String
  | .zeroBudget => "engine.max_steps must be at least 1"
  | .levelOutOfRange level => s!"log.level must be 1, 2 or 3 (got {level})"
  | .malformed message => message

inductive Error where
  | expression (fault : Guard.Fault)
  | invalid (flaw : Flaw)
  | invalidCondition (element : Element) (fault : Guard.Fault)
  | unreadable (path : String) (problem : SourceProblem)
  | processNotFound (path : String)
  | stepNotRegistered (step : String)
  | stepFailed (step message : String)
  | completion (message : String)
  | config (problem : ConfigProblem)
  | configNotFound (path : String)
  | io (message : String)
  | json (message : String)
deriving DecidableEq

namespace Error

def message : Error → String
  | .expression fault => fault.message
  | .invalid flaw => s!"Invalid process description at {flaw.element.text}: {flaw.message}"
  | .invalidCondition element fault =>
    s!"Invalid condition at {element.text}: {fault.message}"
  | .unreadable path problem => s!"Failed to parse process description {path}: {problem.message}"
  | .processNotFound path => s!"Process description not found: {path}"
  | .stepNotRegistered step => s!"No unit of work registered for step '{step}'"
  | .stepFailed step message => s!"Step '{step}' failed: {message}"
  | .completion message => s!"Completion request failed: {message}"
  | .config problem => s!"Config error: {problem.message}"
  | .configNotFound path => s!"Config file not found: {path}"
  | .io message => s!"I/O error: {message}"
  | .json message => s!"JSON error: {message}"

/-- Whether the error stops a process from being loaded. -/
def isLoadTime : Error → Bool
  | .expression _ | .invalid _ | .invalidCondition _ _ | .unreadable _ _ | .processNotFound _
  | .stepNotRegistered _ => true
  | .stepFailed _ _ | .completion _ | .config _ | .configNotFound _ | .io _ | .json _ => false

/-- Whether the error comes from a step during a run. -/
def isExecutionFailure : Error → Bool
  | .stepFailed _ _ => true
  | _ => false

/-- What the error says about the step that met it; a failed step says what it was told. -/
def asStepMessage : Error → String
  | .stepFailed _ message => message
  | e => e.message

end Error

end Stepwise
