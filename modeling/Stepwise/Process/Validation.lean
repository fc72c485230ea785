import Stepwise.Error
import Stepwise.Text.Blank

/-!
The checks that a description passes before its conditions are compiled, in the order in which an author
would mend what they find.
-/

namespace Stepwise

namespace Description

/-- The start step without blanks around it. -/
def startStep (d : Description) : String :=
  Text.trim d.header.start

/-- What is wrong with the name of a step. -/
def nameFlaw? (name : String) : Option Flaw :=
  if (Text.trim name).isEmpty then some .blankStepName
  else if name = terminalName then some .reservedStepName
  else none

/-- What is wrong with the ends of an edge. -/
def edgeFlaw? (steps : Declarations StepSpec) (index : Nat) (e : Edge) : Option Flaw :=
  if e.source = terminalName then some (.edgeFromEnd index)
  else if !steps.contains e.source then some (.unknownSource index e.source)
  else if e.target ≠ terminalName ∧ !steps.contains e.target then
    some (.unknownTarget index e.target)
  else none

/-- The first flaw of the edges, which are counted from `index`. -/
def edgesFlaw? (steps : Declarations StepSpec) (index : Nat) : List Edge → Option Flaw
  | [] => none
  | e :: rest => edgeFlaw? steps index e <|> edgesFlaw? steps (index + 1) rest

/-- The first flaw in the structure of a description. -/
def structuralFlaw? (d : Description) : Option Flaw :=
  if d.startStep.isEmpty then some .noStart
  else if d.steps.isEmpty then some .noSteps
  else if d.edges.isEmpty then some .noEdges
  else d.steps.names.findSome? nameFlaw? <|>
    if !d.steps.contains d.startStep then some (.unknownStart d.startStep)
    else if d.header.maxSteps = some 0 then some .zeroBudget
    else edgesFlaw? d.steps 0 d.edges

end Description

end Stepwise
