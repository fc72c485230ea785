import Stepwise.State.Document
import Stepwise.Proofs.Document.Fitting

/-! States and deltas that are read back. Both have the same four parts, and both are read from whatever is
found under the names of the parts, so each reads what the other writes. -/
namespace Stepwise

open Stepwise.Field

/-! ### Logs -/

theorem recordsOf_toDocument (log : List Record) :
    recordsOf (log.map fun r => r.toJson.toDocument) = .ok log := by
  induction log with
  | nil => rfl
  | cons r rest ih =>
      rw [List.map_cons, recordsOf, r.namespaceOf_toDocument, ih]
      rfl

/-- A log is read as the records that it lists. -/
theorem fit_logValue (log : List Record) : ((logValue log).json.toDocument.list >>= recordsOf) = .ok log := by
  rw [logValue, toDocument_array, List.map_map]
  exact recordsOf_toDocument log

/-! ### The four parts -/

/-- The delta with the parts of a state. -/
def State.asDelta (s : State) : Delta := ⟨s.context, s.artifacts, s.quality, s.log⟩

/-- The state with the parts of a delta. -/
def Delta.asState (d : Delta) : State := ⟨d.context, d.artifacts, d.quality, d.log⟩

theorem State.separate_fields : Separate State.fields where
  plain := by simp [State.fields, withDefault]
  independent := by
    simp only [State.fields, List.pairwise_cons, List.forall_mem_cons, List.not_mem_nil, false_imp_iff,
      implies_true, and_true, List.Pairwise.nil]
    refine ⟨⟨?_, ?_, ?_⟩, ⟨?_, ?_⟩, ?_⟩ <;>
      exact .of_put (by decide) (fun _ _ => rfl) (fun _ _ => rfl) fun _ _ _ => rfl

theorem Delta.separate_fields : Separate Delta.fields where
  plain := by simp [Delta.fields, withDefault]
  independent := by
    simp only [Delta.fields, List.pairwise_cons, List.forall_mem_cons, List.not_mem_nil, false_imp_iff,
      implies_true, and_true, List.Pairwise.nil]
    refine ⟨⟨?_, ?_, ?_⟩, ⟨?_, ?_⟩, ?_⟩ <;>
      exact .of_put (by decide) (fun _ _ => rfl) (fun _ _ => rfl) fun _ _ _ => rfl

/-- What is found under the names of the parts gives a state; a part that is not found is empty. -/
structure Shown (found : String → Option Document) (s : State) : Prop where
  context : Gives found "context" Document.namespaceOf .empty s.context
  artifacts : Gives found "artifacts" Document.namespaceOf .empty s.artifacts
  quality : Gives found "quality" Document.namespaceOf .empty s.quality
  log : Gives found "log" (fun d => d.list >>= recordsOf) [] s.log

theorem Shown.setFound_state {found : String → Option Document} {s : State} (h : Shown found s) :
    setFound found State.fields .empty = .ok s := by
  rw [State.fields, setFound_withDefault h.context rfl, setFound_withDefault h.artifacts rfl,
    setFound_withDefault h.quality rfl, setFound_withDefault h.log rfl]
  rfl

theorem Shown.setFound_delta {found : String → Option Document} {s : State} (h : Shown found s) :
    setFound found Delta.fields .empty = .ok s.asDelta := by
  rw [Delta.fields, setFound_withDefault h.context rfl, setFound_withDefault h.artifacts rfl,
    setFound_withDefault h.quality rfl, setFound_withDefault h.log rfl]
  rfl

/-! ### Objects with all parts, or without the empty ones -/

theorem State.nodup_keys_written (s : State) : (s.written.map Prod.fst).Nodup := by
  simp [written]

theorem State.shown_written (s : State) : Shown (foundAmong s.written) s where
  context := .inl ⟨_, rfl, s.context.namespaceOf_toDocument⟩
  artifacts := .inl ⟨_, rfl, s.artifacts.namespaceOf_toDocument⟩
  quality := .inl ⟨_, rfl, s.quality.namespaceOf_toDocument⟩
  log := .inl ⟨_, rfl, fit_logValue s.log⟩

namespace Delta

theorem map_fst_partUnless_sublist (leftOut : Bool) (name : String) (value : Value) :
    ((partUnless leftOut name value).map Prod.fst).Sublist [name] := by
  cases leftOut with
  | true => exact List.nil_sublist _
  | false => exact List.Sublist.refl _

theorem nodup_keys_written (d : Delta) : (d.written.map Prod.fst).Nodup := by
  have hNames : ["artifacts", "context", "log", "quality"].Nodup := by decide
  refine hNames.sublist ?_
  simp only [written, List.map_append]
  exact (((map_fst_partUnless_sublist _ _ _).append (map_fst_partUnless_sublist _ _ _)).append
    (map_fst_partUnless_sublist _ _ _)).append (map_fst_partUnless_sublist _ _ _)

theorem foundAmong_partUnless_of_ne (leftOut : Bool) {key name : String} (value : Value) (h : name ≠ key) :
    foundAmong (partUnless leftOut key value) name = none := by
  cases leftOut with
  | true => rfl
  | false =>
      have hKey : (name == key) = false := beq_eq_false_iff_ne.mpr h
      simp [foundAmong, partUnless, List.lookup_cons, hKey]

/-- A part that is left out is not missed if it is the default. -/
theorem gives_of_partUnless {α : Type} {found : String → Option Document} {name : String} (value : Value)
    {fit : Document → Except Misfit α} {default a : α} (leftOut : Bool)
    (hFound : found name = foundAmong (partUnless leftOut name value) name)
    (hFit : fit value.json.toDocument = .ok a) (hDefault : leftOut = true → a = default) :
    Gives found name fit default a := by
  cases leftOut with
  | true => exact .inr ⟨hFound, hDefault rfl⟩
  | false =>
      refine .inl ⟨_, hFound.trans ?_, hFit⟩
      simp [foundAmong, partUnless]

theorem gives_namespace {found : String → Option Document} {name : String} {o : Object}
    (hFound : found name = foundAmong (partUnless o.isEmpty name (.object o)) name) :
    Gives found name Document.namespaceOf .empty o :=
  gives_of_partUnless _ _ hFound o.namespaceOf_toDocument fun h => Object.ext (List.isEmpty_iff.mp h)

theorem shown_written (d : Delta) : Shown (foundAmong d.written) d.asState where
  context := gives_namespace (by simp [written, foundAmong_append, foundAmong_partUnless_of_ne, asState])
  artifacts := gives_namespace (by simp [written, foundAmong_append, foundAmong_partUnless_of_ne, asState])
  quality := gives_namespace (by simp [written, foundAmong_append, foundAmong_partUnless_of_ne, asState])
  log := gives_of_partUnless (logValue d.log) d.log.isEmpty
    (by simp [written, foundAmong_append, foundAmong_partUnless_of_ne]) (fit_logValue d.log) List.isEmpty_iff.mp

end Delta

theorem State.ofDocument_of_shown {written : List (String × Value)} (hKeys : (written.map Prod.fst).Nodup)
    {s : State} (h : Shown (foundAmong written) s) :
    State.ofDocument (Object.ofList written).toJson.toDocument = .ok s :=
  (State.separate_fields.toStructure_ofList hKeys).mpr h.setFound_state

theorem Delta.ofDocument_of_shown {written : List (String × Value)} (hKeys : (written.map Prod.fst).Nodup)
    {s : State} (h : Shown (foundAmong written) s) :
    Delta.ofDocument (Object.ofList written).toJson.toDocument = .ok s.asDelta :=
  (Delta.separate_fields.toStructure_ofList hKeys).mpr h.setFound_delta

theorem State.ofDocument_toObject (s : State) : State.ofDocument s.toObject.toJson.toDocument = .ok s :=
  State.ofDocument_of_shown s.nodup_keys_written s.shown_written

/-- A state is read as the delta with the same parts. -/
theorem Delta.ofDocument_state (s : State) : Delta.ofDocument s.toObject.toJson.toDocument = .ok s.asDelta :=
  Delta.ofDocument_of_shown s.nodup_keys_written s.shown_written

theorem Delta.ofDocument_toObject (d : Delta) : Delta.ofDocument d.toObject.toJson.toDocument = .ok d :=
  Delta.ofDocument_of_shown d.nodup_keys_written d.shown_written

/-- A delta is read as the state with the same parts. -/
theorem State.ofDocument_delta (d : Delta) : State.ofDocument d.toObject.toJson.toDocument = .ok d.asState :=
  State.ofDocument_of_shown d.nodup_keys_written d.shown_written

/-! ### Lists of parts -/

namespace State

def partNames : List String := ["context", "artifacts", "quality", "log"]

/-- The parts of a state in the order of their names. -/
def parts (s : State) : List Value :=
  [.object s.context, .object s.artifacts, .object s.quality, logValue s.log]

/-- The state that has the first `n` parts of another and is empty elsewhere. -/
def firstParts (n : Nat) (s : State) : State where
  context := if 0 < n then s.context else .empty
  artifacts := if 1 < n then s.artifacts else .empty
  quality := if 2 < n then s.quality else .empty
  log := if 3 < n then s.log else []

theorem nodup_keys_parts (s : State) (n : Nat) : ((partNames.zip (s.parts.take n)).map Prod.fst).Nodup :=
  separate_fields.nodup_names.sublist (map_fst_zip_sublist partNames (s.parts.take n))

theorem shown_parts (s : State) (n : Nat) :
    Shown (foundAmong (partNames.zip (s.parts.take n))) (s.firstParts n) := by
  have hContext := s.context.namespaceOf_toDocument
  have hArtifacts := s.artifacts.namespaceOf_toDocument
  have hQuality := s.quality.namespaceOf_toDocument
  have hLog := fit_logValue s.log
  match n with
  | 0 => exact ⟨.inr ⟨rfl, rfl⟩, .inr ⟨rfl, rfl⟩, .inr ⟨rfl, rfl⟩, .inr ⟨rfl, rfl⟩⟩
  | 1 => exact ⟨.inl ⟨_, rfl, hContext⟩, .inr ⟨rfl, rfl⟩, .inr ⟨rfl, rfl⟩, .inr ⟨rfl, rfl⟩⟩
  | 2 =>
    exact ⟨.inl ⟨_, rfl, hContext⟩, .inl ⟨_, rfl, hArtifacts⟩, .inr ⟨rfl, rfl⟩, .inr ⟨rfl, rfl⟩⟩
  | 3 =>
    exact ⟨.inl ⟨_, rfl, hContext⟩, .inl ⟨_, rfl, hArtifacts⟩, .inl ⟨_, rfl, hQuality⟩,
      .inr ⟨rfl, rfl⟩⟩
  | n + 4 =>
    exact ⟨.inl ⟨_, rfl, hContext⟩, .inl ⟨_, rfl, hArtifacts⟩, .inl ⟨_, rfl, hQuality⟩,
      .inl ⟨_, rfl, hLog⟩⟩

/-- A list of the first parts of a state is read as the state that has these. -/
theorem ofDocument_list (s : State) (n : Nat) :
    State.ofDocument (Value.array (s.parts.take n)).json.toDocument = .ok (s.firstParts n) :=
  (separate_fields.toStructure_list (List.length_take_le' n s.parts) (by decide)).mpr
    (s.shown_parts n).setFound_state

end State

theorem Delta.ofDocument_list (s : State) (n : Nat) :
    Delta.ofDocument (Value.array (s.parts.take n)).json.toDocument = .ok (s.firstParts n).asDelta :=
  (separate_fields.toStructure_list (List.length_take_le' n s.parts) (by decide)).mpr
    (s.shown_parts n).setFound_delta

end Stepwise
