import Mathlib.Tactic.Common
import Stepwise.Guard.Condition
import Stepwise.Proofs.State.Batching

/-! What a condition sees of a state: the values of the paths that it names, and nothing else. A delta that
lacks such a path leaves its value alone, so conditions hold after it exactly when they held before. -/
namespace Stepwise

namespace Guard

/-! ### Paths of a condition -/

mutual

/-- The paths that an expression names, in order. -/
def Expr.paths : Expr → List Path
  | .or terms => pathsAmong terms
  | .and terms => pathsAmong terms
  | .not inner => inner.paths
  | .compare first rest => first.paths ++ pathsAlong rest
  | .isNone operand _ => operand.paths
  | .operand operand => operand.paths

def pathsAmong : List Expr → List Path
  | [] => []
  | term :: rest => term.paths ++ pathsAmong rest

def pathsAlong : List (Comparison × Operand) → List Path
  | [] => []
  | (_, operand) :: rest => operand.paths ++ pathsAlong rest

def Operand.paths : Operand → List Path
  | .path path => [path]
  | .literal _ => []
  | .group inner => inner.paths

end

/-- Every one of the paths has the same value in both states. -/
def Agree (s t : State) (paths : List Path) : Prop :=
  ∀ path ∈ paths, path.resolve s = path.resolve t

theorem agree_append {s t : State} {paths paths' : List Path} :
    Agree s t (paths ++ paths') ↔ Agree s t paths ∧ Agree s t paths' :=
  List.forall_mem_append

variable {s t : State}

mutual

/-- An expression is evaluated alike where its paths have the same values; likewise for what it consists
of. -/
theorem Expr.holds_of_agree (e : Expr) (h : Agree s t e.paths) : e.holds s = e.holds t := by
  cases e with
  | or terms => rw [Expr.holds, Expr.holds, anyHolds_of_agree terms h]
  | and terms => rw [Expr.holds, Expr.holds, allHold_of_agree terms h]
  | not inner => rw [Expr.holds, Expr.holds, inner.holds_of_agree h]
  | compare first rest =>
      obtain ⟨hFirst, hRest⟩ := agree_append.mp h
      rw [Expr.holds, Expr.holds, first.value_of_agree hFirst, chainHolds_of_agree _ rest hRest]
  | isNone operand negated => rw [Expr.holds, Expr.holds, operand.value_of_agree h]
  | operand operand => rw [Expr.holds, Expr.holds, operand.value_of_agree h]

theorem anyHolds_of_agree (terms : List Expr) (h : Agree s t (pathsAmong terms)) :
    anyHolds s terms = anyHolds t terms := by
  cases terms with
  | nil => rw [anyHolds, anyHolds]
  | cons term rest =>
      obtain ⟨hTerm, hRest⟩ := agree_append.mp h
      rw [anyHolds, anyHolds, term.holds_of_agree hTerm, anyHolds_of_agree rest hRest]

theorem allHold_of_agree (terms : List Expr) (h : Agree s t (pathsAmong terms)) :
    allHold s terms = allHold t terms := by
  cases terms with
  | nil => rw [allHold, allHold]
  | cons term rest =>
      obtain ⟨hTerm, hRest⟩ := agree_append.mp h
      rw [allHold, allHold, term.holds_of_agree hTerm, allHold_of_agree rest hRest]

theorem chainHolds_of_agree (left : Json) (rest : List (Comparison × Operand))
    (h : Agree s t (pathsAlong rest)) : chainHolds s left rest = chainHolds t left rest := by
  cases rest with
  | nil => rw [chainHolds, chainHolds]
  | cons next rest =>
      obtain ⟨op, right⟩ := next
      obtain ⟨hRight, hRest⟩ := agree_append.mp h
      rw [chainHolds, chainHolds, right.value_of_agree hRight, chainHolds_of_agree _ rest hRest]

theorem Operand.value_of_agree (o : Operand) (h : Agree s t o.paths) : o.value s = o.value t := by
  cases o with
  | path path => rw [Operand.value, Operand.value, h path (List.mem_singleton_self path)]
  | literal value => rw [Operand.value, Operand.value]
  | group inner =>
      cases inner with
      | operand o => rw [Operand.value, Operand.value, o.value_of_agree h]
      | or | and | not | compare | isNone =>
          rw [Operand.value, Operand.value, Expr.holds_of_agree _ h]
          all_goals nofun

end

end Guard

/-- The paths that a condition names; a blank condition names none. -/
def Condition.paths (c : Condition) : List Guard.Path :=
  match c.expr? with
  | some expr => expr.paths
  | none => []

theorem Condition.holds_of_agree {s t : State} (c : Condition) (h : Guard.Agree s t c.paths) :
    c.holds s = c.holds t := by
  obtain ⟨source, expr?⟩ := c
  cases expr? with
  | none => rfl
  | some expr => exact expr.holds_of_agree h

/-! ### Deltas that spare a path -/

/-- The delta has nothing at the path, nor anything that stands in its way: following the path in the delta
ends at an object without the next key. A path to a whole namespace is spared by a delta that leaves the
namespace empty. -/
def Delta.Spares (d : Delta) (path : Guard.Path) : Prop :=
  (path.keys = [] ∧ d.namespaceOf path.root = .empty) ∨ (d.namespaceOf path.root).toJson.Lacks path.keys

theorem Delta.Spares.resolve_apply {d : Delta} {path : Guard.Path} (h : d.Spares path) (s : State) :
    path.resolve (s.apply d) = path.resolve s := by
  unfold Guard.Path.resolve State.lookup?
  rw [State.namespaceOf_apply]
  rcases h with ⟨-, hEmpty⟩ | hLacks
  · rw [hEmpty]
    rfl
  · have hWalk := Json.walk?_updated_of_lacks (v := (s.namespaceOf path.root).toJson)
      (d.namespaceOf path.root).canonical hLacks
    exact congrArg (Option.getD · .null) hWalk

end Stepwise
