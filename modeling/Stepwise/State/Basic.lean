import Stepwise.Json.Basic

/-!
The state that a run threads through its steps, and the partial updates that steps return. A state is
never changed: applying a delta makes a new one.
-/

namespace Stepwise

/-- The namespaces that a condition or a prompt may read. -/
inductive Root where
  | context
  | artifacts
  | quality
deriving DecidableEq

namespace Root

def name : Root → String
  | .context => "context"
  | .artifacts => "artifacts"
  | .quality => "quality"

def ofName? : String → Option Root
  | "context" => some .context
  | "artifacts" => some .artifacts
  | "quality" => some .quality
  | _ => none

end Root

/-- A structured entry of the log. -/
abbrev Record := Object

@[ext]
structure State where
  context : Object
  artifacts : Object
  quality : Object
  log : List Record

namespace State

def empty : State := ⟨.empty, .empty, .empty, []⟩

/-- The state a run starts from. -/
def ofContext (context : Object) : State := { empty with context }

def namespaceOf (s : State) : Root → Object
  | .context => s.context
  | .artifacts => s.artifacts
  | .quality => s.quality

/-- Follow a path of keys below a namespace; the empty path names the namespace itself. -/
def lookup? (s : State) (root : Root) (path : List String) : Option Json :=
  Json.walk? path (s.namespaceOf root).toJson

instance : Inhabited State := ⟨empty⟩

end State

/-- The partial update that one execution of a step produces. -/
structure Delta where
  context : Object
  artifacts : Object
  quality : Object
  log : List Record

namespace Delta

def empty : Delta := ⟨.empty, .empty, .empty, []⟩

def namespaceOf (d : Delta) : Root → Object
  | .context => d.context
  | .artifacts => d.artifacts
  | .quality => d.quality

def isEmpty (d : Delta) : Bool :=
  d.context.isEmpty && d.artifacts.isEmpty && d.quality.isEmpty && d.log.isEmpty

def withContext (d : Delta) (key : String) (value : Value) : Delta :=
  { d with context := d.context.insert key value }

def withArtifact (d : Delta) (key : String) (value : Value) : Delta :=
  { d with artifacts := d.artifacts.insert key value }

def withQuality (d : Delta) (key : String) (value : Value) : Delta :=
  { d with quality := d.quality.insert key value }

/-- Any value as a record: an object is one, another value becomes its message. -/
def recordOf (value : Value) : Record :=
  value.object?.getD (Object.empty.insert "message" value)

def withLog (d : Delta) (value : Value) : Delta :=
  { d with log := d.log ++ [recordOf value] }

/-- Note a failure from which the process can recover, for guards to see. -/
def withError (d : Delta) (message : String) : Delta :=
  d.withQuality "error" (.string message)

instance : Inhabited Delta := ⟨empty⟩

end Delta

end Stepwise
