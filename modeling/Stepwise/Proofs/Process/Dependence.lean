import Stepwise.Process.Route
import Stepwise.Proofs.Guard.Dependence

/-! What the choice of a successor depends on. It reads the done condition and the guards of one step, so it
is the same in two states with the same values of the paths named there; the log has no part in it, and a
delta that spares those paths leaves the choice as it was. -/
namespace Stepwise

namespace Route

/-- The paths that the guards of a route name. -/
def paths (r : Route) : List Guard.Path :=
  r.guards.flatMap fun e => e.condition.paths

theorem firstGuard?_of_agree {s t : State} {guards : List GuardedEdge} (index : Nat)
    (h : Guard.Agree s t (guards.flatMap fun e => e.condition.paths)) :
    firstGuard? s index guards = firstGuard? t index guards := by
  induction guards generalizing index with
  | nil => rfl
  | cons e rest ih =>
      rw [List.flatMap_cons, Guard.agree_append] at h
      rw [firstGuard?, firstGuard?, e.condition.holds_of_agree h.1, ih (index + 1) h.2]

theorem decide_of_agree {s t : State} (r : Route) (h : Guard.Agree s t r.paths) :
    r.decide s = r.decide t := by
  rw [decide, decide, firstGuard?_of_agree 0 h]

end Route

namespace Graph

/-- The paths that the done condition and the guards of a step name. -/
def pathsAt (g : Graph) (step : String) : List Guard.Path :=
  g.done.paths ++
    match g.route? step with
    | some route => route.paths
    | none => []

theorem next_of_agree {s t : State} (g : Graph) (step : String) (h : Guard.Agree s t (g.pathsAt step)) :
    g.next step s = g.next step t := by
  obtain ⟨hDone, hRoute⟩ := Guard.agree_append.mp h
  rw [next, next, g.done.holds_of_agree hDone]
  cases hAt : g.route? step with
  | none => rfl
  | some route =>
      rw [hAt] at hRoute
      simp only [route.decide_of_agree hRoute]

/-- The successor of a step depends on nothing of the state but the values of the paths that the done condition
and the guards of the step name. In particular it does not depend on the log, and a delta that spares those
paths does not change it. -/
theorem next_depends_on_paths (g : Graph) (step : String) :
    (∀ s t : State, (∀ path ∈ g.pathsAt step, path.resolve s = path.resolve t) →
      g.next step s = g.next step t) ∧
    (∀ (s : State) (log : List Record), g.next step { s with log } = g.next step s) ∧
    ∀ (s : State) (d : Delta), (∀ path ∈ g.pathsAt step, d.Spares path) →
      g.next step (s.apply d) = g.next step s := by
  refine ⟨fun s t h => g.next_of_agree step h, fun s log => ?_, fun s d h => ?_⟩
  · refine g.next_of_agree step fun path _ => ?_
    obtain ⟨root, keys⟩ := path
    cases root <;> rfl
  · exact g.next_of_agree step fun path hPath => (h path hPath).resolve_apply s

/-- A draft is done with a good score, and otherwise goes back to the writer in the fast mode. -/
private def scoring : Description :=
  Description.startingAt "score"
    |>.withDoneCondition "quality.review.score > 3"
    |>.withStep "score" (.ofKind "judge")
    |>.withEdge (.guarded "score" "score" "context.mode == 'fast'")

private def pending : State := { State.empty with quality := .ofList [("review", .string "pending")] }

/-- A note in the place where a score would be looked for. -/
private def note : Delta :=
  (Delta.empty.withQuality "review" (.object (.ofList [("note", .string "short")]))).withLog (.string "seen")

theorem next_depends_on_paths_scoring :
    ∃ g, Graph.compile scoring false = .ok g ∧
      g.pathsAt "score" = [⟨.quality, ["review", "score"]⟩, ⟨.context, ["mode"]⟩] ∧
      g.next "score" (pending.apply note) = g.next "score" pending := by
  have hPaths : (Graph.compile scoring false).toOption.map (·.pathsAt "score") =
      some [⟨.quality, ["review", "score"]⟩, ⟨.context, ["mode"]⟩] := by decide +kernel
  cases hGraph : Graph.compile scoring false with
  | error e =>
      rw [hGraph] at hPaths
      cases hPaths
  | ok g =>
      rw [hGraph] at hPaths
      have hAt : g.pathsAt "score" = _ := Option.some.inj hPaths
      refine ⟨g, rfl, hAt, (g.next_depends_on_paths "score").2.2 pending note fun path hPath => ?_⟩
      rw [hAt] at hPath
      have hReview : (note.namespaceOf .quality).toJson.Lacks ["review", "score"] :=
        ⟨["review"], "score", [], [("note", .string "short")], rfl, rfl, rfl⟩
      have hMode : (note.namespaceOf .context).toJson.Lacks ["mode"] :=
        ⟨[], "mode", [], [], rfl, rfl, rfl⟩
      rcases List.mem_pair.mp hPath with rfl | rfl
      · exact .inr hReview
      · exact .inr hMode

end Graph

end Stepwise
