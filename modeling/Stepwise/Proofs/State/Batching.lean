import Stepwise.Proofs.Json.Paths
import Stepwise.State.Merge

/-! Batches of deltas. Two deltas in a row may be combined first, in every state, exactly when the first
obstructs nothing that the second holds; a list of deltas in which none obstructs a later one may be
combined as a whole. The log takes part without condition. -/
namespace Stepwise

/-- In some namespace there is a path at which the first delta holds something that is no object and the
second holds an object. -/
def Delta.Obstructs (first later : Delta) : Prop :=
  ∃ root, (first.namespaceOf root).toJson.Obstructs (later.namespaceOf root).toJson

namespace Object

theorem merge_assoc_iff (first later : Object) :
    (∀ base : Object, (base.merge first).merge later = base.merge (first.merge later)) ↔
      ¬ first.toJson.Obstructs later.toJson := by
  rw [toJson, toJson, ← Json.forall_mergeFields_assoc_iff first.canonical later.canonical]
  constructor
  · intro h base hBase
    exact congrArg fields (h ⟨base, hBase⟩)
  · intro h base
    exact Object.ext (h base.fields base.canonical)

end Object

namespace State

theorem namespaceOf_apply (s : State) (d : Delta) (root : Root) :
    (s.apply d).namespaceOf root = (s.namespaceOf root).merge (d.namespaceOf root) := by
  cases root <;> rfl

/-- States are compared by their namespaces and their logs. -/
theorem ext_namespaceOf {s t : State} (hRoot : ∀ root, s.namespaceOf root = t.namespaceOf root)
    (hLog : s.log = t.log) : s = t :=
  State.ext (hRoot .context) (hRoot .artifacts) (hRoot .quality) hLog

/-- A state with one namespace given and nothing else. -/
def ofNamespace (root : Root) (o : Object) : State :=
  match root with
  | .context => { empty with context := o }
  | .artifacts => { empty with artifacts := o }
  | .quality => { empty with quality := o }

theorem namespaceOf_ofNamespace (root : Root) (o : Object) :
    (ofNamespace root o).namespaceOf root = o := by
  cases root <;> rfl

theorem apply_empty (s : State) : s.apply .empty = s :=
  ext_namespaceOf (fun root => by cases root <;> rfl) (List.append_nil _)

theorem fold_cons (s : State) (d : Delta) (ds : List Delta) : s.fold (d :: ds) = (s.apply d).fold ds := rfl

theorem fold_append (s : State) (ds es : List Delta) : s.fold (ds ++ es) = (s.fold ds).fold es :=
  List.foldl_append

theorem log_fold (s : State) (ds : List Delta) : (s.fold ds).log = s.log ++ ds.flatMap Delta.log := by
  induction ds generalizing s with
  | nil => exact (List.append_nil _).symm
  | cons d ds ih => rw [fold_cons, ih, apply, List.flatMap_cons, List.append_assoc]

end State

namespace Delta

theorem namespaceOf_combine (first later : Delta) (root : Root) :
    (first.combine later).namespaceOf root =
      (first.namespaceOf root).merge (later.namespaceOf root) := by
  cases root <;> rfl

theorem not_obstructs_empty_left (d : Delta) : ¬ empty.Obstructs d := by
  rintro ⟨root, h⟩
  have hEmpty : (empty.namespaceOf root).toJson = .object [] := by cases root <;> rfl
  rw [hEmpty, Object.toJson, Json.obstructs_object_iff] at h
  obtain ⟨key, v, w, hv, -⟩ := h
  cases hv

/-- Combining two deltas makes no new obstruction. -/
theorem Obstructs.of_combine {first later d : Delta} (h : (first.combine later).Obstructs d) :
    first.Obstructs d ∨ later.Obstructs d := by
  obtain ⟨root, h⟩ := h
  have hMerged : (Json.updated (some (first.namespaceOf root).toJson)
      (later.namespaceOf root).toJson).Obstructs (d.namespaceOf root).toJson := by
    rwa [namespaceOf_combine] at h
  rcases hMerged.of_updated (later.namespaceOf root).canonical with h | h
  · exact .inl ⟨root, h⟩
  · exact .inr ⟨root, h⟩

theorem apply_combine_iff (first later : Delta) :
    (∀ s : State, (s.apply first).apply later = s.apply (first.combine later)) ↔
      ¬ first.Obstructs later := by
  constructor
  · rintro hAll ⟨root, h⟩
    refine (Object.merge_assoc_iff _ _).mp (fun base => ?_) h
    have hRoot := congrArg (State.namespaceOf · root) (hAll (.ofNamespace root base))
    simpa only [State.namespaceOf_apply, State.namespaceOf_ofNamespace, namespaceOf_combine] using hRoot
  · intro hFree s
    refine State.ext_namespaceOf (fun root => ?_) ?_
    · have hRoot : ¬ (first.namespaceOf root).toJson.Obstructs (later.namespaceOf root).toJson :=
        fun h => hFree ⟨root, h⟩
      simp only [State.namespaceOf_apply, namespaceOf_combine]
      exact (Object.merge_assoc_iff _ _).mpr hRoot _
    · exact List.append_assoc ..

/-- Deltas that obstruct nothing later may be combined onto one that was applied before them. -/
theorem fold_apply_eq {ds : List Delta} : ∀ {first : Delta},
    (first :: ds).Pairwise (fun d e => ¬ d.Obstructs e) → ∀ s : State,
      (s.apply first).fold ds = s.apply (ds.foldl combine first) := by
  induction ds with
  | nil => intro first _ s; rfl
  | cons d ds ih =>
      intro first h s
      obtain ⟨hFirst, hRest⟩ := List.pairwise_cons.mp h
      obtain ⟨hNext, hTail⟩ := List.pairwise_cons.mp hRest
      have hStep : (s.apply first).apply d = s.apply (first.combine d) :=
        (apply_combine_iff first d).mpr (hFirst d List.mem_cons_self) s
      have hCombined : (first.combine d :: ds).Pairwise fun d e => ¬ d.Obstructs e := by
        refine List.pairwise_cons.mpr ⟨fun e he hObstructs => ?_, hTail⟩
        rcases hObstructs.of_combine with h | h
        · exact hFirst e (List.mem_cons_of_mem _ he) h
        · exact hNext e he h
      rw [State.fold_cons, hStep, ih hCombined s]
      rfl

/-- Two deltas may be combined before they are applied, in every state, exactly when the first obstructs
nothing of the second. So deltas of which none obstructs a later one may be applied as one: their
combination in order, from the empty delta. -/
theorem batching :
    (∀ first later : Delta,
      (∀ s : State, (s.apply first).apply later = s.apply (first.combine later)) ↔
        ¬ first.Obstructs later) ∧
    ∀ (s : State) (ds : List Delta), ds.Pairwise (fun first later => ¬ first.Obstructs later) →
      s.fold ds = s.apply (ds.foldl combine empty) := by
  refine ⟨apply_combine_iff, fun s ds h => ?_⟩
  have hFromEmpty : (empty :: ds).Pairwise fun d e => ¬ d.Obstructs e :=
    List.pairwise_cons.mpr ⟨fun d _ => not_obstructs_empty_left d, h⟩
  rw [← fold_apply_eq hFromEmpty s, State.apply_empty]

private def approval : Delta := empty.withQuality "review" (.object (.ofList [("ok", .bool true)]))

private def score : Delta :=
  (empty.withQuality "review" (.object (.ofList [("score", .int 3)]))).withLog (.string "scored")

private theorem approval_not_obstructs_score : ¬ approval.Obstructs score := by
  rintro ⟨root, h⟩
  cases root with
  | context | artifacts =>
      obtain ⟨key, v, w, hv, -⟩ := Json.obstructs_object_iff.mp h
      cases hv
  | quality =>
      obtain ⟨key, v, w, hv, hw, hBelow⟩ := Json.obstructs_object_iff.mp h
      obtain ⟨-, rfl⟩ := Json.lookup_singleton_eq_some hv
      obtain ⟨-, rfl⟩ := Json.lookup_singleton_eq_some hw
      obtain ⟨key, v, w, hv, hw, -⟩ := Json.obstructs_object_iff.mp hBelow
      have hFirst : key = "ok" := (Json.lookup_singleton_eq_some hv).1
      have hLater : key = "score" := (Json.lookup_singleton_eq_some hw).1
      exact absurd (hFirst.symm.trans hLater) (by decide)

/-- Two reviewers add to one record without obstructing each other. -/
theorem batching_of_reviews :
    [approval, score].Pairwise (fun first later => ¬ first.Obstructs later) ∧
      State.empty.fold [approval, score] =
        State.empty.apply ((empty.combine approval).combine score) := by
  have hPairwise : [approval, score].Pairwise fun first later => ¬ first.Obstructs later := by
    simp [approval_not_obstructs_score]
  exact ⟨hPairwise, batching.2 .empty _ hPairwise⟩

end Delta

end Stepwise
