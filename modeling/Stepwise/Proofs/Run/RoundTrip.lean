import Stepwise.Run.Event
import Stepwise.Proofs.State.RoundTrip

/-! Events that are read back. A variant is known by its tag, and its fields are read from what stands beside
the tag; no field has the name of a tag. So each variant is read from the object that it is written as, and
what was read from any document can be written and read again. -/
namespace Stepwise

open Stepwise.Field

/-! ### Tags -/

/-- What a JSON value has under a key, if it is an object, or at a place, if it is a list. -/
def Json.member? (key : String) (place : Nat) : Json → Option Json
  | .object fields => fields.lookup key
  | .array items => items[place]?
  | _ => none

theorem find?_eq_lookup (entries : List (String × Document)) (key : String) :
    (entries.find? fun entry => entry.1 == key) = (entries.lookup key).map fun d => (key, d) := by
  induction entries with
  | nil => rfl
  | cons entry rest ih =>
      obtain ⟨k, e⟩ := entry
      rw [List.lookup_cons, List.find?_cons]
      by_cases hKey : key = k
      · subst hKey
        simp only [beq_self_eq_true, Option.map_some]
      · rw [beq_eq_false_iff_ne.mpr hKey, beq_eq_false_iff_ne.mpr (Ne.symm hKey)]
        exact ih

theorem lookup_filter_of_ne {entries : List (String × Document)} {tag key : String} (h : key ≠ tag) :
    (entries.filter fun entry => entry.1 != tag).lookup key = entries.lookup key := by
  induction entries with
  | nil => rfl
  | cons entry rest ih =>
      obtain ⟨k, e⟩ := entry
      rw [List.filter_cons, List.lookup_cons]
      by_cases hKey : k = tag
      · subst hKey
        simp only [bne_self_eq_false, Bool.false_eq_true, if_false, beq_eq_false_iff_ne.mpr h, ih]
      · simp only [bne_iff_ne.mpr hKey, if_true, List.lookup_cons, ih]

/-- What stands in an object beside its tag. -/
def beside (tag : String) (o : Object) : Document :=
  .object ((Json.fieldsToDocument o.fields).filter fun entry => entry.1 != tag)

theorem splitTag_toDocument (o : Object) (type tag : String) (names : List String) (index : Bool) :
    splitTag type tag names index o.toJson.toDocument =
      match o.get? tag with
      | none => .error (.missingField tag)
      | some j => (variantNamed names index j.toDocument).map fun name => (name, beside tag o) := by
  rw [o.toDocument_toJson, splitTag, find?_eq_lookup, Json.lookup_fieldsToDocument, Object.get?]
  cases o.fields.lookup tag <;> rfl

theorem variantNamed_string {names : List String} {name : String} (index : Bool) (h : name ∈ names) :
    variantNamed names index (Json.string name).toDocument = .ok name :=
  if_pos (List.contains_iff_mem.mpr h)

theorem variantNamed_ok {names : List String} {j : Json} {name : String}
    (h : variantNamed names false j.toDocument = .ok name) : j = .string name ∧ name ∈ names := by
  cases j with
  | string s =>
      rw [Json.toDocument, variantNamed] at h
      split_ifs at h with hName
      cases h
      exact ⟨rfl, List.contains_iff_mem.mp hName⟩
  | number n =>
      cases n with
      | float x => cases h
      | int n => cases n <;> cases h
  | null | bool | array | object => cases h

theorem splitTag_object_ok {o : Object} {type tag name : String} {names : List String} {rest : Document}
    (h : splitTag type tag names false o.toJson.toDocument = .ok (name, rest)) :
    o.get? tag = some (.string name) ∧ name ∈ names ∧ rest = beside tag o := by
  rw [splitTag_toDocument] at h
  cases hTag : o.get? tag with
  | none =>
      rw [hTag] at h
      cases h
  | some j =>
      rw [hTag] at h
      obtain ⟨read, hNamed, h⟩ := map_eq_ok_iff.mp h
      cases h
      obtain ⟨rfl, hName⟩ := variantNamed_ok hNamed
      exact ⟨rfl, hName, rfl⟩

theorem splitTag_array_ok {items : List Json} {type tag name : String} {names : List String} {rest : Document}
    (h : splitTag type tag names false (.array (Json.itemsToDocument items)) = .ok (name, rest)) :
    ∃ later, items = .string name :: later ∧ name ∈ names ∧ rest = .array (Json.itemsToDocument later) := by
  cases items with
  | nil => cases h
  | cons j later =>
      obtain ⟨read, hNamed, h⟩ := bind_eq_ok_iff.mp h
      cases h
      obtain ⟨rfl, hName⟩ := variantNamed_ok hNamed
      exact ⟨later, rfl, hName, rfl⟩

/-- The fields of a variant are found beside the tag as they are found in the whole object. -/
theorem fitVariant_beside {σ : Type} {fields : List (Field σ)} (hSeparate : Separate fields) {tag : String}
    (hTag : ∀ f ∈ fields, f.name ≠ tag) (o : Object) {type name : String} {defaults t : σ} :
    fitVariant type name fields defaults (beside tag o) = .ok t ↔
      setFound (fun key => (o.get? key).map Json.toDocument) fields defaults = .ok t := by
  have hKeys : (((Json.fieldsToDocument o.fields).filter fun entry => entry.1 != tag).map Prod.fst).Nodup :=
    o.nodup_keys_toDocument.sublist (List.filter_sublist.map Prod.fst)
  have hFound : setFound (((Json.fieldsToDocument o.fields).filter fun entry => entry.1 != tag).lookup ·) fields =
      setFound (fun key => (o.get? key).map Json.toDocument) fields := by
    refine setFound_congr fun f hf => ?_
    rw [lookup_filter_of_ne (hTag f hf), Json.lookup_fieldsToDocument]
    rfl
  rw [fitVariant, beside, hSeparate.toStructure_object hKeys, hFound]

theorem splitTag_ofList {written : List (String × Value)} {type tag name : String} {names : List String}
    (index : Bool) (hKeys : (written.map Prod.fst).Nodup) (hTag : written.lookup tag = some (.string name))
    (hName : name ∈ names) :
    splitTag type tag names index (Object.ofList written).toJson.toDocument =
      .ok (name, beside tag (Object.ofList written)) := by
  have hGet : (Object.ofList written).get? tag = some (.string name) := by
    rw [Object.get?_ofList hKeys, hTag]
    rfl
  rw [splitTag_toDocument, hGet]
  dsimp only
  rw [variantNamed_string index hName]
  rfl

theorem fitVariant_ofList {σ : Type} {fields : List (Field σ)} (hSeparate : Separate fields) {tag : String}
    (hTag : ∀ f ∈ fields, f.name ≠ tag) {written : List (String × Value)} (hKeys : (written.map Prod.fst).Nodup)
    {type name : String} {defaults t : σ} (hFound : setFound (foundAmong written) fields defaults = .ok t) :
    fitVariant type name fields defaults (beside tag (Object.ofList written)) = .ok t := by
  rwa [fitVariant_beside hSeparate hTag, get?_ofList_eq_foundAmong hKeys]

/-! ### Reasons and endings -/

theorem Termination.ofDocument_name (t : Termination) : ofDocument (.scalar (.string t.name)) = .ok t := by
  cases t <;> rfl

theorem Document.count_nat (type : String) (n : Nat) : (Value.nat n).json.toDocument.count type = .ok n := rfl

theorem Document.text_string (s : String) : (Value.string s).json.toDocument.text = .ok s := rfl

theorem Json.eq_string_of_text {j : Json} {s : String} (h : j.toDocument.text = .ok s) : j = .string s := by
  cases j with
  | string read =>
      cases h
      rfl
  | null | bool | number | array | object => cases h

theorem RouteReason.name_mem_names (r : RouteReason) : r.name ∈ names := by
  cases r <;> simp [name, names]

theorem RunStatus.name_mem_names (s : RunStatus) : s.name ∈ names := by
  cases s <;> simp [name, names]

theorem RouteReason.ofDocument_toObject (r : RouteReason) :
    RouteReason.ofDocument r.toObject.toJson.toDocument = .ok r := by
  cases r with
  | guard index condition =>
      refine bind_eq_ok_iff.mpr ⟨_, splitTag_ofList true (by simp) rfl (name_mem_names _), ?_⟩
      refine bind_eq_ok_iff.mpr
        ⟨(index, condition), fitVariant_ofList (.cons rfl ?_ (.singleton rfl)) ?_ (by simp) ?_, rfl⟩
      · exact List.forall_mem_singleton.mpr <|
          .of_put (by decide) (fun _ _ => rfl) (fun _ _ => rfl) fun _ _ _ => rfl
      · simp [needed, withDefault]
      · exact (setFound_needed rfl (Document.count_nat _ index)).trans
          (setFound_needed rfl (Document.text_string condition))
  | doneCondition | fallback | noSuccessor =>
      exact bind_eq_ok_iff.mpr ⟨_, splitTag_ofList true (by simp) rfl (name_mem_names _), rfl⟩

theorem RunStatus.ofDocument_toObject (s : RunStatus) :
    RunStatus.ofDocument s.toObject.toJson.toDocument = .ok s := by
  cases s with
  | completed reason =>
      refine bind_eq_ok_iff.mpr ⟨_, splitTag_ofList true (by simp) rfl (name_mem_names _), ?_⟩
      refine bind_eq_ok_iff.mpr ⟨reason, fitVariant_ofList (.singleton rfl) ?_ (by simp) ?_, rfl⟩
      · simp [needed, withDefault]
      · exact setFound_needed rfl reason.ofDocument_name
  | aborted limit =>
      refine bind_eq_ok_iff.mpr ⟨_, splitTag_ofList true (by simp) rfl (name_mem_names _), ?_⟩
      refine bind_eq_ok_iff.mpr ⟨limit, fitVariant_ofList (.singleton rfl) ?_ (by simp) ?_, rfl⟩
      · simp [needed, withDefault]
      · exact setFound_needed rfl (Document.count_nat _ limit)
  | cancelled =>
      exact bind_eq_ok_iff.mpr ⟨_, splitTag_ofList true (by simp) rfl (name_mem_names _), rfl⟩

/-! ### Events -/

theorem Report.name_mem_names (r : Report) : r.name ∈ names := by
  cases r <;> simp [name, names]

namespace Event

theorem separate_fieldsOf (name : String) : Separate (fieldsOf name) where
  plain := by
    unfold fieldsOf
    split <;> simp [runIdField, stepField, errorField, needed, withDefault]
  independent := by
    unfold fieldsOf
    split <;>
      simp only [List.pairwise_cons, List.forall_mem_cons, List.not_mem_nil, false_imp_iff, implies_true,
        and_true, List.Pairwise.nil] <;>
      and_intros <;>
      exact .of_put (by decide) (fun _ _ => rfl) (fun _ _ => rfl) fun _ _ _ => rfl

/-- No field of an event has the name of its tag. -/
theorem name_ne_type {name : String} : ∀ f ∈ fieldsOf name, f.name ≠ "type" := by
  unfold fieldsOf
  split <;> simp [runIdField, stepField, errorField, needed, withDefault]

theorem ofDocument_of_setFound {written : List (String × Value)} (hKeys : (written.map Prod.fst).Nodup)
    {name : String} (hName : name ∈ Report.names) (hTag : written.lookup "type" = some (.string name)) {p : Parts}
    (hFound : setFound (foundAmong written) (fieldsOf name) .empty = .ok p) :
    Event.ofDocument (Object.ofList written).toJson.toDocument = .ok ⟨p.runId, reportOf name p⟩ := by
  refine bind_eq_ok_iff.mpr ⟨_, splitTag_ofList false hKeys hTag hName, ?_⟩
  exact bind_eq_ok_iff.mpr ⟨p, fitVariant_ofList (separate_fieldsOf name) name_ne_type hKeys hFound, rfl⟩

/-- What an event has in the fields of its variant. -/
def parts (e : Event) : Parts :=
  match e.report with
  | .runStarted start => { Parts.empty with runId := e.runId, start }
  | .stepStarted step iteration => { Parts.empty with runId := e.runId, step, iteration }
  | .stepCompleted step elapsedMs logRecords => { Parts.empty with runId := e.runId, step, elapsedMs, logRecords }
  | .stepFailed step error => { Parts.empty with runId := e.runId, step, error }
  | .transition source target reason => { Parts.empty with runId := e.runId, source, target, reason }
  | .runFinished status stepsExecuted => { Parts.empty with runId := e.runId, status, stepsExecuted }
  | .runFailed error => { Parts.empty with runId := e.runId, error }

theorem reportOf_parts (e : Event) : (⟨e.parts.runId, reportOf e.report.name e.parts⟩ : Event) = e := by
  obtain ⟨runId, report⟩ := e
  cases report <;> rfl

theorem nodup_keys_written (e : Event) : (e.written.map Prod.fst).Nodup := by
  obtain ⟨runId, report⟩ := e
  cases report <;> simp [written]

/-- Every field of a variant is written in the form in which it is read. -/
theorem setFound_written (e : Event) :
    setFound (foundAmong e.written) (fieldsOf e.report.name) .empty = .ok e.parts := by
  obtain ⟨runId, report⟩ := e
  have hRunId := Document.text_string runId
  cases report with
  | runStarted start =>
      exact (setFound_needed rfl hRunId).trans (setFound_needed rfl (Document.text_string start))
  | stepStarted step iteration =>
      exact (setFound_needed rfl hRunId).trans <|
        (setFound_needed rfl (Document.text_string step)).trans <|
        setFound_needed rfl (Document.count_nat _ iteration)
  | stepCompleted step elapsedMs logRecords =>
      exact (setFound_needed rfl hRunId).trans <|
        (setFound_needed rfl (Document.text_string step)).trans <|
        (setFound_needed rfl (Document.count_nat _ elapsedMs)).trans <|
        setFound_needed rfl (Document.count_nat _ logRecords)
  | stepFailed step error =>
      exact (setFound_needed rfl hRunId).trans <|
        (setFound_needed rfl (Document.text_string step)).trans <|
        setFound_needed rfl (Document.text_string error)
  | transition source target reason =>
      exact (setFound_needed rfl hRunId).trans <|
        (setFound_needed rfl (Document.text_string source)).trans <|
        (setFound_needed rfl (Document.text_string target)).trans <|
        setFound_needed rfl reason.ofDocument_toObject
  | runFinished status stepsExecuted =>
      exact (setFound_needed rfl hRunId).trans <|
        (setFound_needed rfl status.ofDocument_toObject).trans <|
        setFound_needed rfl (Document.count_nat _ stepsExecuted)
  | runFailed error =>
      exact (setFound_needed rfl hRunId).trans (setFound_needed rfl (Document.text_string error))

theorem ofDocument_toObject (e : Event) : Event.ofDocument e.toObject.toJson.toDocument = .ok e := by
  refine (ofDocument_of_setFound e.nodup_keys_written e.report.name_mem_names rfl e.setFound_written).trans ?_
  rw [e.reportOf_parts]

/-! ### Documents that are read as events -/

/-- Every variant begins with the id of the run, and no other field changes it. -/
theorem exists_fieldsOf_eq (name : String) : ∃ later, fieldsOf name = runIdField :: later ∧
    ∀ f ∈ later, ∀ d p q, f.set d p = .ok q → q.runId = p.runId := by
  unfold fieldsOf
  split <;>
    refine ⟨_, rfl, ?_⟩ <;>
    simp only [List.forall_mem_cons, List.not_mem_nil, false_imp_iff, implies_true, and_true] <;>
    and_intros <;>
    intro d p q h <;>
    obtain ⟨a, -, rfl⟩ := map_eq_ok_iff.mp h <;>
    rfl

theorem runId_of_setFound {found : String → Option Document} {name : String} {p : Parts}
    (h : setFound found (fieldsOf name) .empty = .ok p) :
    ∃ d, found "run_id" = some d ∧ d.text = .ok p.runId := by
  obtain ⟨later, hFields, hLater⟩ := exists_fieldsOf_eq name
  rw [hFields, setFound] at h
  cases hFound : found runIdField.name with
  | none =>
      rw [hFound] at h
      cases h
  | some d =>
      rw [hFound] at h
      obtain ⟨q, hSet, h⟩ := bind_eq_ok_iff.mp h
      obtain ⟨runId, hText, rfl⟩ := map_eq_ok_iff.mp hSet
      refine ⟨d, hFound, ?_⟩
      rw [setFound_keeps hLater h]
      exact hText

theorem name_reportOf {name : String} (h : name ∈ Report.names) (p : Parts) : (reportOf name p).name = name := by
  simp only [Report.names, List.mem_cons, List.not_mem_nil, or_false] at h
  rcases h with rfl | rfl | rfl | rfl | rfl | rfl | rfl <;> rfl

/-- A list gives the fields of a variant in their order. -/
theorem setFound_of_fitVariant_array {type title name : String} {items : List Document} {p : Parts}
    (h : fitVariant type title (fieldsOf name) .empty (.array items) = .ok p) :
    setFound ((((fieldsOf name).map Field.name).zip items).lookup ·) (fieldsOf name) .empty = .ok p := by
  have hLength : items.length ≤ (fieldsOf name).length := length_le_of_setItems (by decide) h
  exact ((separate_fieldsOf name).toStructure_array hLength (by decide)).mp h

/-- The tag and the id of the run are strings of the document, whether it is an object or a list. -/
theorem ofDocument_ok {v : Value} {e : Event} (h : Event.ofDocument v.json.toDocument = .ok e) :
    v.json.member? "type" 0 = some (.string e.report.name) ∧
      v.json.member? "run_id" 1 = some (.string e.runId) := by
  obtain ⟨⟨name, rest⟩, hSplit, h⟩ := bind_eq_ok_iff.mp h
  obtain ⟨p, hFit, h⟩ := bind_eq_ok_iff.mp h
  cases h
  obtain ⟨j, hCanonical⟩ := v
  cases j with
  | object fields =>
      obtain ⟨hTag, hName, rfl⟩ := splitTag_object_ok (o := ⟨fields, hCanonical⟩) hSplit
      obtain ⟨d, hFound, hText⟩ :=
        runId_of_setFound ((fitVariant_beside (separate_fieldsOf name) name_ne_type _).mp hFit)
      obtain ⟨j, hGet, rfl⟩ := Option.map_eq_some_iff.mp hFound
      rw [Json.eq_string_of_text hText] at hGet
      rw [name_reportOf hName]
      exact ⟨hTag, hGet⟩
  | array items =>
      rw [Json.toDocument] at hSplit
      obtain ⟨later, rfl, hName, rfl⟩ := splitTag_array_ok hSplit
      obtain ⟨d, hFound, hText⟩ := runId_of_setFound (setFound_of_fitVariant_array hFit)
      obtain ⟨others, hFields, -⟩ := exists_fieldsOf_eq name
      rw [hFields] at hFound
      rw [name_reportOf hName]
      cases later with
      | nil => cases hFound
      | cons j later =>
          obtain rfl : j.toDocument = d := Option.some.inj hFound
          exact ⟨rfl, congrArg some (Json.eq_string_of_text hText)⟩
  | null | bool | number | string => cases hSplit

end Event

theorem Report.isFinal_iff (r : Report) : r.isFinal = true ↔ r.name = "run_finished" ∨ r.name = "run_failed" := by
  cases r <;> simp [isFinal, name]

/-- States, deltas and events are read back from what they are written as. A state and a delta read what the
other writes, with the same four parts, and the first parts of a state may also be listed without their names.
Whatever is read as an event can be written and read again; its run and whether it is the last are what the
document says. -/
theorem documents_round_trip :
    (∀ s : State, State.ofDocument s.toObject.toJson.toDocument = .ok s) ∧
    (∀ d : Delta, Delta.ofDocument d.toObject.toJson.toDocument = .ok d) ∧
    (∀ e : Event, Event.ofDocument e.toObject.toJson.toDocument = .ok e) ∧
    (∀ d : Delta, State.ofDocument d.toObject.toJson.toDocument =
      .ok ⟨d.context, d.artifacts, d.quality, d.log⟩) ∧
    (∀ s : State, Delta.ofDocument s.toObject.toJson.toDocument =
      .ok ⟨s.context, s.artifacts, s.quality, s.log⟩) ∧
    (∀ (s : State) (n : Nat),
      let list := (Value.array (s.parts.take n)).json.toDocument
      let object := (Object.ofList (State.partNames.zip (s.parts.take n))).toJson.toDocument
      State.ofDocument list = .ok (s.firstParts n) ∧ State.ofDocument object = .ok (s.firstParts n) ∧
        Delta.ofDocument list = .ok (s.firstParts n).asDelta ∧
        Delta.ofDocument object = .ok (s.firstParts n).asDelta) ∧
    ∀ (v : Value) (e : Event), Event.ofDocument v.json.toDocument = .ok e →
      Event.ofDocument e.toObject.toJson.toDocument = .ok e ∧
        v.json.member? "run_id" 1 = some (.string e.runId) ∧
        ∃ tag, v.json.member? "type" 0 = some (.string tag) ∧
          (e.isFinal = true ↔ tag = "run_finished" ∨ tag = "run_failed") := by
  refine ⟨State.ofDocument_toObject, Delta.ofDocument_toObject, Event.ofDocument_toObject, State.ofDocument_delta,
    Delta.ofDocument_state, fun s n => ?_, fun v e hRead => ?_⟩
  · exact ⟨s.ofDocument_list n, State.ofDocument_of_shown (s.nodup_keys_parts n) (s.shown_parts n),
      Delta.ofDocument_list s n, Delta.ofDocument_of_shown (s.nodup_keys_parts n) (s.shown_parts n)⟩
  · obtain ⟨hTag, hRunId⟩ := Event.ofDocument_ok hRead
    exact ⟨e.ofDocument_toObject, hRunId, _, hTag, e.report.isFinal_iff⟩

/-- A note that is no field of an event is dropped, and the event stays the same. -/
theorem documents_round_trip_annotated :
    let v := Value.object (.ofList [("note", .string "late"), ("error", .string "no such model"),
      ("run_id", .string "r1"), ("type", .string "run_failed")])
    let e : Event := ⟨"r1", .runFailed "no such model"⟩
    Event.ofDocument v.json.toDocument = .ok e ∧ Event.ofDocument e.toObject.toJson.toDocument = .ok e ∧
      e.toObject.get? "note" = none := by
  intro v e
  have hRead : Event.ofDocument v.json.toDocument = .ok e :=
    Event.ofDocument_of_setFound (p := e.parts) (by simp) e.report.name_mem_names rfl rfl
  obtain ⟨-, -, -, -, -, -, hEvents⟩ := documents_round_trip
  refine ⟨hRead, (hEvents v e hRead).1, ?_⟩
  exact (Object.get?_ofList e.nodup_keys_written "note").trans rfl

end Stepwise
