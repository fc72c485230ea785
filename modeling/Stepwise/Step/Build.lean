import Stepwise.Step.Parameters
import Stepwise.Process.Graph

/-!
Building the steps that a process declares.
-/

namespace Stepwise

/-- What steps are built with. -/
structure Workshop (W : Type) where
  functions : Functions
  hasClient : Bool
  /-- Steps that are used in place of declared ones, whatever their kind. -/
  overrides : Steps W

namespace Workshop

variable {W : Type}

/-- The built-in functions, and nothing else. -/
def plain : Workshop W := ⟨.builtin, false, .empty⟩

def buildStep (shop : Workshop W) (name : String) (spec : StepSpec) : Except Flaw (Step W) :=
  match shop.overrides.get? name with
  | some step => .ok step
  | none =>
    match spec.kind with
    | "deterministic" =>
      (calledFunction shop.functions name spec.params).map (.deterministic name)
    | "judge" => (Judge.ofParams shop.functions name spec.params).map .judge
    | "assign" => (assignedDelta name spec.params).map .assign
    | "llm" =>
      if shop.hasClient then (Completion.ofParams name spec.params).map .completion
      else Parameters.refuse name "kind" .noClient
    | kind => Parameters.refuse name "kind" (.unknownKind kind)

/-- Build steps in the order of their declarations, up to the first that does not fit. -/
def buildAll (shop : Workshop W) (steps : Steps W) :
    List (String × StepSpec) → Except Flaw (Steps W)
  | [] => .ok steps
  | (name, spec) :: rest => do
    buildAll shop (steps.insert name (← shop.buildStep name spec)) rest

/-- Build every step of a process. -/
def build (shop : Workshop W) (g : Graph) : Except Error (Steps W) :=
  (shop.buildAll .empty (g.nodes.map fun _ node => node.spec).entries).mapError .invalid

end Workshop

end Stepwise
