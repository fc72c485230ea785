import Stepwise.Proofs.Json.Merging
import Stepwise.Proofs.State.Batching

/-! Deltas that are applied again. An update obstructs nothing of itself, so the same update twice in a row
comes to itself once. A step that is repeated with the same delta therefore leaves the namespaces as they are,
and only the log tells how often it was repeated. -/
namespace Stepwise

namespace Object

/-- Merging an empty update is what passing over it would be. -/
theorem merge_of_isEmpty (base : Object) {update : Object} (h : update.isEmpty = true) :
    base.merge update = base := by
  have hEmpty : update = empty := Object.ext (List.isEmpty_iff.mp h)
  rw [hEmpty, merge_empty]

theorem merge_merge_self (base update : Object) : (base.merge update).merge update = base.merge update := by
  have hAssoc := (merge_assoc_iff update update).mpr update.toJson.not_obstructs_self base
  rw [hAssoc, merge_self]

end Object

namespace State

theorem namespaceOf_apply_apply (s : State) (d : Delta) (root : Root) :
    ((s.apply d).apply d).namespaceOf root = (s.apply d).namespaceOf root := by
  rw [namespaceOf_apply, namespaceOf_apply, Object.merge_merge_self]

/-- The delta that was applied last may be applied again any number of times. -/
theorem namespaceOf_fold_replicate (d : Delta) (root : Root) (n : Nat) : ∀ s : State,
    ((s.apply d).fold (List.replicate n d)).namespaceOf root = (s.apply d).namespaceOf root := by
  induction n with
  | zero => exact fun s => rfl
  | succ n ih =>
      intro s
      rw [List.replicate_succ, fold_cons, ih, namespaceOf_apply_apply]

/-- Applying a delta again changes nothing but the log, which has its records once more. So it is with any
number of repetitions of the last delta of a list. Behind it stand the laws of the merge: an empty update and an
empty base are passed over, and an update merged into itself is itself. -/
theorem replay_changes_log_only :
    (∀ (s : State) (d : Delta),
      (∀ root, ((s.apply d).apply d).namespaceOf root = (s.apply d).namespaceOf root) ∧
        ((s.apply d).apply d).log = s.log ++ d.log ++ d.log) ∧
    (∀ (d : Delta) (root : Root), (d.combine d).namespaceOf root = d.namespaceOf root) ∧
    (∀ o : Object, o.merge .empty = o ∧ Object.empty.merge o = o ∧ o.merge o = o) ∧
    (∀ base update : Object, (if update.isEmpty then base else base.merge update) = base.merge update) ∧
    ∀ (s : State) (ds : List Delta) (d : Delta) (n : Nat),
      (∀ root, (s.fold (ds ++ d :: List.replicate n d)).namespaceOf root =
        (s.fold (ds ++ [d])).namespaceOf root) ∧
      (s.fold (ds ++ d :: List.replicate n d)).log =
        (s.fold (ds ++ [d])).log ++ (List.replicate n d.log).flatten := by
  refine ⟨fun s d => ⟨s.namespaceOf_apply_apply d, rfl⟩, fun d root => ?_,
    fun o => ⟨o.merge_empty, o.empty_merge, o.merge_self⟩, fun base update => ?_,
    fun s ds d n => ⟨fun root => ?_, ?_⟩⟩
  · rw [Delta.namespaceOf_combine, Object.merge_self]
  · split_ifs with hEmpty
    · exact (base.merge_of_isEmpty hEmpty).symm
    · rfl
  · rw [fold_append, fold_append]
    exact namespaceOf_fold_replicate d root n (s.fold ds)
  · rw [log_fold, log_fold]
    simp [List.flatMap_append, List.flatMap_replicate]

end State

end Stepwise
