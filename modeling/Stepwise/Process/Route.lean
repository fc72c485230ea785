import Stepwise.Process.Graph

/-!
The choice of a successor. The done condition goes before every edge; then the guards of the step in order;
then its fallback; and otherwise the run ends.
-/

namespace Stepwise

structure Decision where
  target : Target
  reason : RouteReason
deriving DecidableEq

/-- Why the run ends with this decision, if it does. -/
def Decision.termination? (d : Decision) : Option Termination :=
  match d.reason, d.target with
  | .doneCondition, _ => some .doneCondition
  | .noSuccessor, _ => some .noSuccessor
  | _, .terminal => some .terminalEdge
  | _, .step _ => none

namespace Route

/-- The first guard that holds; the guards are counted from `index`. -/
def firstGuard? (s : State) (index : Nat) : List GuardedEdge → Option Decision
  | [] => none
  | e :: rest =>
    if e.condition.holds s then some ⟨e.target, .guard index e.condition.source⟩
    else firstGuard? s (index + 1) rest

def decide (r : Route) (s : State) : Decision :=
  match firstGuard? s 0 r.guards with
  | some decision => decision
  | none =>
    match r.fallback with
    | some target => ⟨target, .fallback⟩
    | none => ⟨.terminal, .noSuccessor⟩

end Route

namespace Graph

/-- Pick the successor of a step, given the state after it. -/
def next (g : Graph) (step : String) (s : State) : Decision :=
  if g.done.holds s then ⟨.terminal, .doneCondition⟩
  else
    match g.route? step with
    | some route => route.decide s
    | none => ⟨.terminal, .noSuccessor⟩

end Graph

end Stepwise
