import Stepwise.State.Basic
import Stepwise.Document.Fit

/-!
States and deltas as documents. A state is written with all four parts, a delta without its empty ones;
both are read the same way, with absent parts empty.
-/

namespace Stepwise

/-- The records of a log. -/
def recordsOf : List Document → Except Misfit (List Record)
  | [] => .ok []
  | d :: rest => do
    let record ← d.namespaceOf
    return record :: (← recordsOf rest)

/-- A log as the list of its records. -/
def logValue (log : List Record) : Value :=
  .array (log.map .object)

namespace State

/-- The four parts of a state under their names. -/
def written (s : State) : List (String × Value) :=
  [("artifacts", .object s.artifacts), ("context", .object s.context), ("log", logValue s.log),
    ("quality", .object s.quality)]

def toObject (s : State) : Object := .ofList s.written

/-- The parts in the order in which a list gives them. -/
def fields : List (Field State) :=
  [.withDefault "context" Document.namespaceOf fun s context => { s with context },
    .withDefault "artifacts" Document.namespaceOf fun s artifacts => { s with artifacts },
    .withDefault "quality" Document.namespaceOf fun s quality => { s with quality },
    .withDefault "log" (fun d => d.list >>= recordsOf) fun s log => { s with log }]

def ofDocument (d : Document) : Except Misfit State :=
  d.toStructure .exact "struct SharedState" fields empty

end State

namespace Delta

/-- A part under its name, unless it is left out. -/
def partUnless (leftOut : Bool) (name : String) (value : Value) : List (String × Value) :=
  if leftOut then [] else [(name, value)]

/-- The parts of a delta under their names, without the empty ones. -/
def written (d : Delta) : List (String × Value) :=
  partUnless d.artifacts.isEmpty "artifacts" (.object d.artifacts) ++
    partUnless d.context.isEmpty "context" (.object d.context) ++
    partUnless d.log.isEmpty "log" (logValue d.log) ++ partUnless d.quality.isEmpty "quality" (.object d.quality)

def toObject (d : Delta) : Object := .ofList d.written

def fields : List (Field Delta) :=
  [.withDefault "context" Document.namespaceOf fun d context => { d with context },
    .withDefault "artifacts" Document.namespaceOf fun d artifacts => { d with artifacts },
    .withDefault "quality" Document.namespaceOf fun d quality => { d with quality },
    .withDefault "log" (fun d => d.list >>= recordsOf) fun d log => { d with log }]

def ofDocument (d : Document) : Except Misfit Delta :=
  d.toStructure .exact "struct Delta" fields empty

end Delta

end Stepwise
