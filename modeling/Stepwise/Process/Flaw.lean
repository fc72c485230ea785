import Stepwise.Process.Description

/-!
What can be wrong with a process. A flaw names the element of the description to which it belongs; a finding
is a flaw that a process can live with.
-/

namespace Stepwise

/-- A part of a description. -/
inductive Element where
  | start
  | maxSteps
  | doneCondition
  | steps
  | step (name : String)
  | parameter (step key : String)
  | edges
  | edge (index : Nat)
  | edgeSource (index : Nat)
  | edgeTarget (index : Nat)
  | edgeCondition (index : Nat)
  /-- A part that only a step of the user's own knows. -/
  | other (text : String)
deriving DecidableEq

def Element.text : Element → String
  | .start => "process.start"
  | .maxSteps => "process.max_steps"
  | .doneCondition => "process.done_condition"
  | .steps => "steps"
  | .step name => s!"steps.{name}"
  | .parameter name key => s!"steps.{name}.{key}"
  | .edges => "edges"
  | .edge index => s!"edges[{index}]"
  | .edgeSource index => s!"edges[{index}].from"
  | .edgeTarget index => s!"edges[{index}].to"
  | .edgeCondition index => s!"edges[{index}].condition"
  | .other text => text

/-- A part of a process that can have no effect. -/
inductive Finding where
  /-- The condition of an edge is blank, so it never holds. -/
  | blankCondition (edge : Nat)
  /-- An earlier edge of the same step is its fallback. -/
  | shadowedFallback (edge : Nat) (source : String) (first : Nat)
  | unreachableStep (step start : String)
deriving DecidableEq

namespace Finding

def element : Finding → Element
  | .blankCondition edge => .edgeCondition edge
  | .shadowedFallback edge _ _ => .edge edge
  | .unreachableStep step _ => .step step

def message : Finding → String
  | .blankCondition _ => "empty condition never holds; edge is unreachable"
  | .shadowedFallback _ source first =>
    s!"unreachable: '{source}' already falls back via edges[{first}]"
  | .unreachableStep _ start => s!"step is not reachable from '{start}'"

def text (f : Finding) : String :=
  f.element.text ++ ": " ++ f.message

end Finding

/-- Why a step cannot be built from its parameters. -/
inductive ParameterProblem where
  /-- A value of another type; what was found is named if `found` is given. -/
  | wrongType (expected : String) (found : Option String)
  | missing (kind key : String)
  | noTemplate
  | unknownFunction (name : String) (registered : List String)
  | noClient
  | unknownKind (kind : String)
deriving DecidableEq

def ParameterProblem.message : ParameterProblem → String
  | .wrongType expected none => s!"expected {expected}"
  | .wrongType expected (some found) => s!"expected {expected}, found {found}"
  | .missing kind key => s!"'{kind}' steps need a '{key}' parameter"
  | .noTemplate => "llm steps need a prompt_template"
  | .unknownFunction name registered =>
    let names := ", ".intercalate registered
    s!"unknown function '{name}' (registered: {names})"
  | .noClient => "llm steps need a completion client, and none is configured"
  | .unknownKind kind =>
    s!"unknown step kind '{kind}' (expected llm, deterministic, judge or assign)"

/-- Why a description is no process. -/
inductive Flaw where
  | noStart
  | noSteps
  | noEdges
  | blankStepName
  | reservedStepName
  | unknownStart (name : String)
  | zeroBudget
  | edgeFromEnd (edge : Nat)
  | unknownSource (edge : Nat) (name : String)
  | unknownTarget (edge : Nat) (name : String)
  /-- A finding where none is allowed. -/
  | finding (finding : Finding)
  | parameter (step key : String) (problem : ParameterProblem)
  | other (element message : String)
deriving DecidableEq

namespace Flaw

def element : Flaw → Element
  | .noStart | .unknownStart _ => .start
  | .noSteps | .blankStepName => .steps
  | .noEdges => .edges
  | .reservedStepName => .step terminalName
  | .zeroBudget => .maxSteps
  | .edgeFromEnd edge | .unknownSource edge _ => .edgeSource edge
  | .unknownTarget edge _ => .edgeTarget edge
  | .finding f => f.element
  | .parameter name key _ => .parameter name key
  | .other element _ => .other element

def message : Flaw → String
  | .noStart => "a start step is required"
  | .noSteps => "at least one step is required"
  | .noEdges => "at least one edge is required"
  | .blankStepName => "step names must not be empty"
  | .reservedStepName => s!"'{terminalName}' is reserved for the terminal marker"
  | .unknownStart name | .unknownSource _ name | .unknownTarget _ name => s!"unknown step '{name}'"
  | .zeroBudget => "must be at least 1"
  | .edgeFromEnd _ => s!"edges cannot leave the terminal marker '{terminalName}'"
  | .finding f => f.message
  | .parameter _ _ problem => problem.message
  | .other _ message => message

end Flaw

end Stepwise
