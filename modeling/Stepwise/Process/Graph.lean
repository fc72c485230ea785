import Stepwise.Process.Validation
import Stepwise.Guard.Condition
import Stepwise.Run.Event

/-!
Compiled processes. Every step has its own route: the guarded edges that leave it, in the order of the
description, and its fallback, the first edge without a condition.
-/

namespace Stepwise

/-- Where an edge leads. -/
inductive Target where
  | step (name : String)
  /-- The end of the run. -/
  | terminal
deriving DecidableEq

namespace Target

def ofName (name : String) : Target :=
  if name = terminalName then .terminal else .step name

def name : Target → String
  | .step name => name
  | .terminal => terminalName

def isTerminal : Target → Bool
  | .step _ => false
  | .terminal => true

end Target

/-- An edge that is taken when its condition holds. -/
structure GuardedEdge where
  condition : Condition
  target : Target
  /-- Its place among the edges of the description. -/
  index : Nat

structure Route where
  guards : List GuardedEdge
  fallback : Option Target

def Route.targets (r : Route) : List Target :=
  r.guards.map GuardedEdge.target ++ r.fallback.toList

/-- A step with the edges that leave it. -/
structure Node where
  spec : StepSpec
  route : Route

structure Graph where
  name : Option String
  start : String
  done : Condition
  maxSteps : Option Nat
  /-- The steps in declaration order. -/
  nodes : Declarations Node
  findings : List Finding

/-! ### Edges -/

/-- An edge with its condition compiled. -/
structure CompiledEdge where
  index : Nat
  source : String
  target : Target
  condition : Option Condition

namespace CompiledEdge

def compile (index : Nat) (e : Edge) : Except Error CompiledEdge :=
  match e.condition with
  | none => .ok ⟨index, e.source, .ofName e.target, none⟩
  | some text =>
    match Condition.compile text with
    | .ok c => .ok ⟨index, e.source, .ofName e.target, some c⟩
    | .error fault => .error (.invalidCondition (.edgeCondition index) fault)

/-- Compile edges, which are counted from `index`, up to the first fault. -/
def compileAll (index : Nat) : List Edge → Except Error (List CompiledEdge)
  | [] => .ok []
  | e :: rest => do
    let first ← compile index e
    return first :: (← compileAll (index + 1) rest)

/-- The guarded edge that leaves a step, unless its condition is blank. -/
def guardOf? (step : String) (e : CompiledEdge) : Option GuardedEdge :=
  match e.condition with
  | some c => if e.source = step ∧ !c.isEmpty then some ⟨c, e.target, e.index⟩ else none
  | none => none

def isFallbackOf (step : String) (e : CompiledEdge) : Bool :=
  e.source == step && e.condition.isNone

/-- What makes an edge useless, given all edges. -/
def finding? (edges : List CompiledEdge) (e : CompiledEdge) : Option Finding :=
  match e.condition with
  | some c => if c.isEmpty then some (.blankCondition e.index) else none
  | none =>
    match edges.find? (isFallbackOf e.source) with
    | some first =>
      if first.index = e.index then none
      else some (.shadowedFallback e.index e.source first.index)
    | none => none

end CompiledEdge

/-- The route of a step, given all edges. -/
def Route.ofEdges (edges : List CompiledEdge) (step : String) : Route where
  guards := edges.filterMap (CompiledEdge.guardOf? step)
  fallback := (edges.find? (CompiledEdge.isFallbackOf step)).map CompiledEdge.target

/-! ### Reachability -/

/-- The steps among `unseen` that cannot be reached from the frontier. Every round moves the steps that the
frontier leads to into a new frontier, until there are none or no round is left. -/
def unreachedIn (leads : String → String → Bool) : (rounds : Nat) → (unseen frontier : List String) →
    List String
  | 0, unseen, _ => unseen
  | rounds + 1, unseen, frontier =>
    let found := unseen.filter fun step => frontier.any (leads · step)
    if found.isEmpty then unseen
    else unreachedIn leads rounds (unseen.filter fun step => !found.contains step) found

/-- The steps that cannot be reached from the frontier; a round that goes on takes a step away, so there are
enough rounds. -/
def unreached (leads : String → String → Bool) (unseen frontier : List String) : List String :=
  unreachedIn leads unseen.length unseen frontier

namespace Graph

/-- Whether an edge of one step leads to another. -/
def leads (nodes : Declarations Node) (source target : String) : Bool :=
  match nodes.get? source with
  | some node => node.route.targets.contains (.step target)
  | none => false

/-- The steps that no path from the start reaches, in declaration order. -/
def unreachableSteps (nodes : Declarations Node) (start : String) : List String :=
  unreached (leads nodes) (nodes.names.filter (· ≠ start)) [start]

/-! ### Compilation -/

/-- The done condition; without one a process is never done. -/
def compileDone (d : Description) : Except Error Condition :=
  match d.header.doneCondition with
  | none => .ok .never
  | some text => (Condition.compile text).mapError (.invalidCondition .doneCondition ·)

/-- Check a description and build the routes of its steps. With `strict`, the first finding is an error. -/
def compile (d : Description) (strict : Bool) : Except Error Graph := do
  if let some flaw := d.structuralFlaw? then throw (.invalid flaw)
  let done ← compileDone d
  let edges ← CompiledEdge.compileAll 0 d.edges
  let nodes := d.steps.map fun step spec => ⟨spec, .ofEdges edges step⟩
  let start := d.startStep
  let findings := edges.filterMap (CompiledEdge.finding? edges) ++
    (unreachableSteps nodes start).map (.unreachableStep · start)
  if strict then
    if let finding :: _ := findings then throw (.invalid (.finding finding))
  return ⟨d.header.name, start, done, d.header.maxSteps, nodes, findings⟩

def route? (g : Graph) (step : String) : Option Route :=
  (g.nodes.get? step).map Node.route

/-! ### The routing table as text -/

private def routeLines (r : Route) : List String :=
  r.guards.map (fun e => s!"  if {e.condition.source} -> {e.target.name}") ++
    match r.fallback with
    | some target => [s!"  else -> {target.name}"]
    | none => [s!"  else -> {terminalName} (no successor)"]

/-- The routing table, a line for each step and each of its edges. -/
def lines (g : Graph) : List String :=
  let name := g.name.getD "<unnamed>"
  [s!"process {name} (start: {g.start})"] ++
    (if g.done.isEmpty then [] else [s!"done when: {g.done.source}"]) ++
    g.nodes.entries.flatMap fun (name, node) =>
      s!"{name} [{node.spec.kind}]" :: routeLines node.route

def text (g : Graph) : String :=
  String.join (g.lines.map (· ++ "\n"))

end Graph

end Stepwise
