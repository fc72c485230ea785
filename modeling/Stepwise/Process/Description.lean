import Stepwise.Process.Declarations
import Stepwise.Document.Fit
import Stepwise.Text.PathName

/-!
Processes as their authors write them: a header, steps in declaration order and edges, whose order
decides which guard is tried first.
-/

namespace Stepwise

/-- The name under which edges refer to the end of a run. -/
def terminalName : String := "__end__"

/-- The kind of a step that names none. -/
def defaultKind : String := "llm"

structure Header where
  name : Option String
  start : String
  /-- Checked after every step; when it holds the run ends. -/
  doneCondition : Option String
  /-- A budget of steps that goes before that of the engine. -/
  maxSteps : Option Nat

/-- A declared step: its kind and the parameters of that kind. -/
structure StepSpec where
  kind : String
  params : Object

structure Edge where
  source : String
  /-- A step or the end. -/
  target : String
  /-- The text of a guard; an edge without one is a fallback. -/
  condition : Option String

structure Description where
  header : Header
  steps : Declarations StepSpec
  edges : List Edge

namespace StepSpec

def ofKind (kind : String) : StepSpec := ⟨kind, .empty⟩

def withParam (spec : StepSpec) (key : String) (value : Value) : StepSpec :=
  { spec with params := spec.params.insert key value }

end StepSpec

namespace Edge

def always (source target : String) : Edge := ⟨source, target, none⟩

def guarded (source target condition : String) : Edge := ⟨source, target, some condition⟩

def toEnd (source : String) : Edge := always source terminalName

def isConditional (e : Edge) : Bool := e.condition.isSome

end Edge

namespace Description

/-- A process with a start step and nothing else. -/
def startingAt (start : String) : Description :=
  ⟨⟨none, start, none, none⟩, .empty, []⟩

def withName (d : Description) (name : String) : Description :=
  { d with header := { d.header with name := some name } }

def withDoneCondition (d : Description) (condition : String) : Description :=
  { d with header := { d.header with doneCondition := some condition } }

def withMaxSteps (d : Description) (maxSteps : Nat) : Description :=
  { d with header := { d.header with maxSteps := some maxSteps } }

def withStep (d : Description) (name : String) (spec : StepSpec) : Description :=
  { d with steps := d.steps.insert name spec }

def withEdge (d : Description) (e : Edge) : Description :=
  { d with edges := d.edges ++ [e] }

/-- The declared name, or the start step. -/
def displayName (d : Description) : String :=
  d.header.name.getD d.header.start

end Description

/-! ### Reading -/

namespace Header

def fields : List (Field Header) :=
  [.withDefault "name" (Document.optional Document.text) fun h name => { h with name },
    .withDefault "start" Document.text fun h start => { h with start },
    (Field.withDefault "done_condition" (Document.optional Document.text)
      fun h doneCondition => { h with doneCondition }).orNamed "doneCondition",
    (Field.withDefault "max_steps" (Document.optional (Document.count "usize"))
      fun h maxSteps => { h with maxSteps }).orNamed "maxSteps"]

def ofDocument (form : ListForm) (d : Document) : Except Misfit Header :=
  d.toStructure form "struct ProcessHeader" fields ⟨none, "", none, none⟩

end Header

namespace StepSpec

/-- Fit the kind of a step; every other entry is a parameter. -/
def kindOf (kind : Option String) : List (String × Document) → Except Misfit (Option String)
  | [] => .ok kind
  | ("kind", d) :: rest => do
    match kind with
    | some _ => throw (.duplicateField "kind")
    | none => kindOf (some (← d.text)) rest
  | _ :: rest => kindOf kind rest

def ofDocument (d : Document) : Except Misfit StepSpec := do
  let entries ← d.entries "struct StepSpec"
  let kind ← kindOf none entries
  let params := entries.filter fun e => e.1 != "kind"
  if Document.entriesTyped params then
    return ⟨kind.getD defaultKind, Document.objectOf params⟩
  else
    throw (.wrongType .map "any JSON value")

end StepSpec

namespace Edge

def fields : List (Field Edge) :=
  [.needed "from" Document.text fun e source => { e with source },
    .needed "to" Document.text fun e target => { e with target },
    .withDefault "condition" (Document.optional Document.text) fun e condition => { e with condition }]

def ofDocument (form : ListForm) (d : Document) : Except Misfit Edge :=
  d.toStructure form "struct EdgeSpec" fields ⟨"", "", none⟩

end Edge

namespace Description

/-- Fit the steps one after the other. A step given twice keeps its first place and its last
declaration. -/
def addSteps (steps : Declarations StepSpec) :
    List (String × Document) → Except Misfit (Declarations StepSpec)
  | [] => .ok steps
  | (name, d) :: rest => do
    addSteps (steps.insert name (← StepSpec.ofDocument d)) rest

def fields (form : ListForm) : List (Field Description) :=
  [(Field.withDefault "process" (Header.ofDocument form)
      fun d header => { d with header }).reaching (Field.reachOf Header.fields),
    ((Field.withDefault "steps" (fun d => d.entries "a map" >>= addSteps .empty)
      fun d steps => { d with steps }).orNamed "agents").reaching (.values .everything),
    (Field.withDefault "edges" (fun d => d.list >>= List.mapM (Edge.ofDocument form))
      fun d edges => { d with edges }).reaching (.items (Field.reachOf Edge.fields))]

/-- What is looked at in a document that is fitted. -/
def reach : Reach :=
  Field.reachOf (fields .never)

def ofDocument (form : ListForm) (d : Document) : Except Misfit Description :=
  d.toStructure form "struct ProcessDescription" (fields form) (startingAt "")

end Description

end Stepwise
