import Stepwise.Process.Sample
import Stepwise.Proofs.Run.Walk
import Stepwise.Proofs.State.Batching

/-! What a run keeps of its states. The log only grows; a key of a namespace stays one; and below a key
nothing goes away unless a later delta puts something that is no object in its way. All of it holds of any
list of deltas, one delta at a time, and so between any two points of a run. -/
namespace Stepwise

/-- In a namespace, the delta holds something that is no object on the way to the end of a path. -/
def Delta.Displaces (d : Delta) (root : Root) (path : List String) : Prop :=
  ∃ front rest value, path = front ++ rest ∧ front ≠ [] ∧ rest ≠ [] ∧
    Json.walk? front (d.namespaceOf root).toJson = some value ∧ value.isObject = false

/-- Nothing of a state is lost in a later one, apart from what the deltas in between displace. -/
structure State.Retained (earlier later : State) (between : List Delta) : Prop where
  log : later.log = earlier.log ++ between.flatMap Delta.log
  keys : ∀ root key, ((earlier.namespaceOf root).get? key).isSome = true →
    ((later.namespaceOf root).get? key).isSome = true
  paths : ∀ root path, (earlier.lookup? root path).isSome = true → later.lookup? root path = none →
    ∃ d ∈ between, d.Displaces root path

/-- What is displaced lies below a key. -/
theorem Delta.Displaces.length_lt {d : Delta} {root : Root} {path : List String}
    (h : d.Displaces root path) : 1 < path.length := by
  obtain ⟨front, rest, value, rfl, hFront, hRest, -⟩ := h
  have := List.length_pos_iff.mpr hFront
  have := List.length_pos_iff.mpr hRest
  rw [List.length_append]
  omega

namespace State

theorem lookup?_singleton (s : State) (root : Root) (key : String) :
    s.lookup? root [key] = (s.namespaceOf root).get? key := by
  cases h : (s.namespaceOf root).get? key with
  | none => rw [lookup?, Object.toJson, Json.walk?, ← Object.get?, h]; rfl
  | some v => rw [lookup?, Object.toJson, Json.walk?_cons_of_lookup h]; rfl

/-- A path that one delta takes away is displaced by it. -/
theorem displaces_of_apply {s : State} {d : Delta} {root : Root} {path : List String} {a : Json}
    (h : s.lookup? root path = some a) (hLost : (s.apply d).lookup? root path = none) :
    d.Displaces root path := by
  rw [lookup?, namespaceOf_apply] at hLost
  obtain ⟨front, rest, value, hPath, hRest, hWalk, hPlain⟩ :=
    Json.exists_plain_of_walk?_updated (d.namespaceOf root).canonical h hLost
  refine ⟨front, rest, value, hPath, ?_, hRest, hWalk, hPlain⟩
  -- The namespace of the delta is itself an object.
  rintro rfl
  cases hWalk
  cases hPlain

theorem exists_displaces_of_fold {root : Root} {path : List String} {ds : List Delta} :
    ∀ {s : State} {a : Json}, s.lookup? root path = some a → (s.fold ds).lookup? root path = none →
      ∃ d ∈ ds, d.Displaces root path := by
  induction ds with
  | nil =>
      intro s a h hLost
      rw [fold, List.foldl_nil, h] at hLost
      cases hLost
  | cons d ds ih =>
      intro s a h hLost
      rw [fold_cons] at hLost
      cases hNext : (s.apply d).lookup? root path with
      | none => exact ⟨d, List.mem_cons_self, displaces_of_apply h hNext⟩
      | some b =>
          obtain ⟨d', hMem, hDisplaces⟩ := ih hNext hLost
          exact ⟨d', List.mem_cons_of_mem _ hMem, hDisplaces⟩

/-- Deltas in a row lose nothing but what they displace. -/
theorem retained_fold (s : State) (ds : List Delta) : s.Retained (s.fold ds) ds := by
  have hPaths : ∀ root path, (s.lookup? root path).isSome = true →
      (s.fold ds).lookup? root path = none → ∃ d ∈ ds, d.Displaces root path := by
    intro root path hThere hLost
    obtain ⟨a, h⟩ := Option.isSome_iff_exists.mp hThere
    exact exists_displaces_of_fold h hLost
  refine ⟨log_fold s ds, fun root key hThere => ?_, hPaths⟩
  rw [← lookup?_singleton] at hThere ⊢
  rw [← Option.not_isNone, Bool.not_eq_true', Bool.eq_false_iff, ne_eq, Option.isNone_iff_eq_none]
  intro hLost
  obtain ⟨d, -, hDisplaces⟩ := hPaths root [key] hThere hLost
  exact absurd hDisplaces.length_lt (by simp)

end State

theorem Visits.state_append (context : Object) (before between : Visits) :
    state context (before ++ between) = (state context before).fold between.deltas := by
  simp [state, deltas, State.fold]

namespace Engine

variable {W : Type}

/-- Between any two points of a run nothing is lost but what the deltas between them displace. The points are
those that the run passes: every visit was an execution in the state before it, and the state of an outcome
is the one after all visits. -/
theorem run_retains {d : Description} {strict : Bool} {engine : Engine W}
    (hGraph : Graph.compile d strict = .ok engine.graph) (around : Surroundings W) (context : Object)
    (start : W) :
    (∃ visits, Stops around engine context start visits (engine.run around context start).result) ∧
    ∀ visits r, Stops around engine context start visits r →
      (∀ before step delta after, visits = before ++ (step, delta) :: after → ∃ w w',
        Reaches around engine context start before step w ∧
          Executes around engine context before step w (.finished delta) w') ∧
      (∀ o, r = .ok o → o.state = Visits.state context visits) ∧
      ∀ before between after, visits = before ++ between ++ after →
        (Visits.state context before).Retained (Visits.state context (before ++ between))
          between.deltas := by
  refine ⟨run_stops hGraph around context start, fun visits r h => ⟨?_, ?_, ?_⟩⟩
  · intro before step delta after hSplit
    exact h.visited hSplit
  · rintro o rfl
    exact h.outcome_eq.2
  · rintro before between after -
    rw [Visits.state_append]
    exact State.retained_fold _ _

/-- The second step puts a text where the context had a record. -/
private def overwriting : Steps Unit where
  entries := [("s1", .assign .empty),
    ("s2", .assign ((Delta.empty.withContext "draft" (.string "withdrawn")).withQuality "status"
      (.string "done")))]
  distinct := by decide

private def filed : Object := .ofList [("draft", .object (.ofList [("title", .string "On runs")]))]

private def titleAfter (t : Trace Unit) : Option (Option Json) :=
  match t.result with
  | .ok o => some (o.state.lookup? .context ["draft", "title"])
  | .error _ => none

theorem run_retains_overwriting :
    ∃ engine : Engine Unit, Graph.compile Sample.twoStep false = .ok engine.graph ∧
      ∃ visits o, Stops .still engine filed () visits (.ok o) ∧
        ((State.ofContext filed).lookup? .context ["draft", "title"]).isSome = true ∧
        o.state.lookup? .context ["draft", "title"] = none ∧
        ∃ delta ∈ visits.deltas, delta.Displaces .context ["draft", "title"] := by
  have hBefore : ((State.ofContext filed).lookup? .context ["draft", "title"]).isSome = true := by
    decide +kernel
  have hLost : ((traceOf? Sample.twoStep overwriting .standard .still filed ()).bind titleAfter).any
      Option.isNone = true := by decide +kernel
  obtain ⟨title, hTitle, hNone⟩ := (Option.any_eq_true _ _).mp hLost
  obtain ⟨t, hTrace, hView⟩ := Option.bind_eq_some_iff.mp hTitle
  obtain ⟨engine, hGraph, -, rfl⟩ := exists_engine_of_traceOf? hTrace
  obtain ⟨⟨visits, hStops⟩, hRuns⟩ := run_retains hGraph .still filed ()
  unfold titleAfter at hView
  split at hView
  · rename_i o hResult
    obtain rfl := Option.some.inj hView
    rw [Option.isNone_iff_eq_none] at hNone
    rw [hResult] at hStops
    obtain ⟨-, hState, hRetained⟩ := hRuns visits _ hStops
    have hAll := hRetained [] visits [] (by simp)
    rw [List.nil_append, ← hState o rfl] at hAll
    exact ⟨engine, hGraph, visits, o, hStops, hBefore, hNone, hAll.paths _ _ hBefore hNone⟩
  · cases hView

end Engine

end Stepwise
