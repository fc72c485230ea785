import Stepwise.Proofs.Json.Paths

/-! The laws of the merge. At a path that the update has it is the update that decides, and at any other path
the base does, unless the update holds something on the way that is no object. Two updates may trade places
where they agree on every path that both have, and an update that is merged a second time changes nothing. -/
namespace Stepwise

namespace Json

/-! ### What is found at a path -/

/-- What an update has at a path updates what was there. -/
theorem walk?_updated_of_some {path : List String} {existing : Option Json} {u w : Json}
    (canonical : u.Canonical) (h : walk? path u = some w) :
    walk? path (updated existing u) = some (updated (existing.bind (walk? path)) w) := by
  induction path generalizing existing u with
  | nil =>
      cases h
      cases existing <;> rfl
  | cons key rest ih =>
      cases existing with
      | none => rw [updated_none, h, Option.bind_none, updated_none]
      | some v =>
          obtain ⟨update, u', rfl, hLookup, hRest⟩ := exists_of_walk?_cons h
          cases hv : v.isObject with
          | false =>
              rw [updated_plain_object hv, h, Option.bind_some, walk?_of_plain hv (List.cons_ne_nil _ _),
                updated_none]
          | true =>
              obtain ⟨fields, rfl⟩ := exists_fields_of_isObject hv
              rw [updated_object_object,
                walk?_cons_of_lookup (lookup_mergeFields_of_some canonical.sorted hLookup)]
              exact ih (canonical.lookup hLookup) hRest

/-- Below something in the update that is no object nothing is left. -/
theorem walk?_updated_of_plain {front rest : List String} {existing : Option Json} {u v : Json}
    (canonical : u.Canonical) (hFront : walk? front u = some v) (hPlain : v.isObject = false)
    (hRest : rest ≠ []) : walk? (front ++ rest) (updated existing u) = none := by
  rw [walk?_append, walk?_updated_of_some canonical hFront, updated_of_plain _ hPlain]
  exact walk?_of_plain hPlain hRest

/-- A path that leads nowhere, through nothing but objects, lacks a key. -/
theorem lacks_of_walk?_eq_none {path : List String} {u : Json} (h : walk? path u = none)
    (hObjects : ∀ front rest v, path = front ++ rest → rest ≠ [] → walk? front u = some v →
      v.isObject = true) : u.Lacks path := by
  induction path generalizing u with
  | nil => cases h
  | cons key rest ih =>
      obtain ⟨fields, rfl⟩ :=
        exists_fields_of_isObject (hObjects [] (key :: rest) u rfl (List.cons_ne_nil _ _) rfl)
      refine lacks_cons_iff.mpr ⟨fields, rfl, fun w hw => ?_⟩
      rw [walk?_cons_of_lookup hw] at h
      refine ih h fun front back v hPath hBack hWalk => ?_
      exact hObjects (key :: front) back v (congrArg _ hPath) hBack
        ((walk?_cons_of_lookup hw front).trans hWalk)

/-! ### Merging into itself -/

theorem updated_self (v : Json) : v.Canonical → updated (some v) v = v := by
  induction v using descend with
  | plain v hv => exact fun _ => updated_of_plain _ hv
  | object fields ih =>
      intro hFields
      rw [updated_object_object, object.injEq]
      refine eq_of_lookup_eq (hFields.mergeFields hFields).sorted hFields.sorted fun key => ?_
      rw [lookup_mergeFields _ hFields.sorted]
      cases hLookup : fields.lookup key with
      | none => rfl
      | some w => exact congrArg some (ih key w hLookup (hFields.lookup hLookup))

/-- At some path that the update lacks, there is something that was there before. -/
def ShowsThrough (v u : Json) : Prop :=
  ∃ path a, walk? path v = some a ∧ u.Lacks path

/-- Something shows through objects only, and only of objects. -/
theorem not_showsThrough_of_plain {v u : Json} (h : v.isObject = false ∨ u.isObject = false) :
    ¬ v.ShowsThrough u := by
  rintro ⟨path, a, hWalk, hLacks⟩
  cases path with
  | nil => exact u.not_lacks_nil hLacks
  | cons key rest =>
      rcases h with hv | hu
      · rw [walk?_of_plain hv (List.cons_ne_nil _ _)] at hWalk
        cases hWalk
      · obtain ⟨fields, rfl, -⟩ := lacks_cons_iff.mp hLacks
        cases hu

theorem ShowsThrough.updated_ne {v u : Json} (h : v.ShowsThrough u) (canonical : u.Canonical) :
    updated (some v) u ≠ u := by
  obtain ⟨path, a, hWalk, hLacks⟩ := h
  intro hEq
  have hThrough := walk?_updated_of_lacks (v := v) canonical hLacks
  rw [hEq, walk?_of_lacks hLacks, hWalk] at hThrough
  cases hThrough

/-- Below a key of both, what shows through there shows through the whole. -/
theorem ShowsThrough.of_lookup {fields update : Fields} {key : String} {v u : Json}
    (hv : fields.lookup key = some v) (hu : update.lookup key = some u) (h : v.ShowsThrough u) :
    (Json.object fields).ShowsThrough (.object update) := by
  obtain ⟨path, a, hWalk, hLacks⟩ := h
  refine ⟨key :: path, a, (walk?_cons_of_lookup hv path).trans hWalk, ?_⟩
  exact lacks_cons_iff.mpr ⟨update, rfl, fun w hw => by cases hu.symm.trans hw; exact hLacks⟩

theorem showsThrough_of_lookup_eq_none {fields update : Fields} {key : String} {v : Json}
    (hv : fields.lookup key = some v) (hu : update.lookup key = none) :
    (Json.object fields).ShowsThrough (.object update) := by
  refine ⟨[key], v, walk?_cons_of_lookup hv [], ?_⟩
  exact lacks_cons_iff.mpr ⟨update, rfl, fun w hw => by cases hu.symm.trans hw⟩

/-- An update through which nothing shows takes the place of what was there. -/
theorem updated_of_not_showsThrough (u : Json) : ∀ {v : Json}, v.Canonical → u.Canonical →
    ¬ v.ShowsThrough u → updated (some v) u = u := by
  induction u using descend with
  | plain u hPlain => exact fun _ _ _ => updated_of_plain _ hPlain
  | object update ih =>
      intro v hv hu hClear
      cases hObject : v.isObject with
      | false => exact updated_plain_object hObject update
      | true =>
          obtain ⟨fields, rfl⟩ := exists_fields_of_isObject hObject
          rw [updated_object_object, object.injEq]
          refine eq_of_lookup_eq (hv.mergeFields hu).sorted hu.sorted fun key => ?_
          rw [lookup_mergeFields _ hu.sorted]
          cases hOld : fields.lookup key with
          | none =>
              cases update.lookup key with
              | none => rfl
              | some w => exact congrArg some (updated_none w)
          | some a =>
              cases hUpdate : update.lookup key with
              | none => exact absurd (showsThrough_of_lookup_eq_none hOld hUpdate) hClear
              | some w =>
                  exact congrArg some (ih key w hUpdate (hv.lookup hOld) (hu.lookup hUpdate)
                    fun hBelow => hClear (hBelow.of_lookup hOld hUpdate))

/-- An update takes the place of what was there, and leaves nothing of it, exactly when nothing shows through
it. -/
theorem updated_eq_iff {v u : Json} (hv : v.Canonical) (hu : u.Canonical) :
    updated (some v) u = u ↔ ¬ v.ShowsThrough u :=
  ⟨fun hEq h => h.updated_ne hu hEq, updated_of_not_showsThrough u hv hu⟩

/-! ### Updates that trade places -/

/-- At every path at which both have a value, both have an object or both have the same. -/
def Compatible (v w : Json) : Prop :=
  ∀ path a c, walk? path v = some a → walk? path w = some c →
    (a.isObject = true ∧ c.isObject = true) ∨ a = c

/-- Unless both are objects, only the same value is compatible. -/
theorem compatible_of_plain {v w : Json} (h : v.isObject = false ∨ w.isObject = false) :
    v.Compatible w ↔ v = w := by
  constructor
  · intro hCompatible
    refine (hCompatible [] v w rfl rfl).resolve_left fun hBoth => ?_
    rcases h with h | h
    · exact Bool.false_ne_true (h.symm.trans hBoth.1)
    · exact Bool.false_ne_true (h.symm.trans hBoth.2)
  · rintro rfl path a c hFirst hSecond
    exact .inr (Option.some.inj (hFirst.symm.trans hSecond))

/-- Objects are compatible when they are so below every key that both have. -/
theorem compatible_object_iff {f g : Fields} :
    (Json.object f).Compatible (.object g) ↔
      ∀ key v w, f.lookup key = some v → g.lookup key = some w → v.Compatible w := by
  constructor
  · intro h key v w hv hw path a c hFirst hSecond
    exact h (key :: path) a c ((walk?_cons_of_lookup hv path).trans hFirst)
      ((walk?_cons_of_lookup hw path).trans hSecond)
  · intro h path a c hFirst hSecond
    cases path with
    | nil =>
        cases hFirst
        cases hSecond
        exact .inl ⟨rfl, rfl⟩
    | cons key rest =>
        obtain ⟨_, v, hEq, hv, hRest⟩ := exists_of_walk?_cons hFirst
        cases hEq
        obtain ⟨_, w, hEq, hw, hRest'⟩ := exists_of_walk?_cons hSecond
        cases hEq
        exact h key v w hv hw rest a c hRest hRest'

/-- Of two updates that are not both objects, the later one stays. -/
theorem updated_updated_of_plain {existing : Option Json} {v w : Json}
    (h : v.isObject = false ∨ w.isObject = false) : updated (some (updated existing v)) w = w := by
  cases hw : w.isObject with
  | false => exact updated_of_plain _ hw
  | true =>
      have hv : v.isObject = false := h.resolve_right (by simp [hw])
      obtain ⟨g, rfl⟩ := exists_fields_of_isObject hw
      rw [updated_of_plain existing hv, updated_plain_object hv]

/-- Two merges may trade places if they may under every key that both updates mention. -/
theorem mergeFields_comm_iff {b f g : Fields} (hb : Canonical (.object b))
    (hf : Canonical (.object f)) (hg : Canonical (.object g)) :
    mergeFields (mergeFields b f) g = mergeFields (mergeFields b g) f ↔
      ∀ key v w, f.lookup key = some v → g.lookup key = some w →
        updated (some (updated (b.lookup key) v)) w =
          updated (some (updated (b.lookup key) w)) v := by
  constructor
  · intro h key v w hv hw
    have hKey : (mergeFields (mergeFields b f) g).lookup key =
        (mergeFields (mergeFields b g) f).lookup key := by rw [h]
    rw [lookup_mergeFields_of_some hg.sorted hw, lookup_mergeFields_of_some hf.sorted hv,
      lookup_mergeFields_of_some hf.sorted hv, lookup_mergeFields_of_some hg.sorted hw] at hKey
    exact Option.some.inj hKey
  · intro h
    refine eq_of_lookup_eq ((hb.mergeFields hf).mergeFields hg).sorted
      ((hb.mergeFields hg).mergeFields hf).sorted fun key => ?_
    rw [lookup_mergeFields _ hg.sorted, lookup_mergeFields _ hf.sorted,
      lookup_mergeFields _ hf.sorted, lookup_mergeFields _ hg.sorted]
    cases hv : f.lookup key with
    | none => cases g.lookup key <;> rfl
    | some v =>
        cases hw : g.lookup key with
        | none => rfl
        | some w => exact congrArg some (h key v w hv hw)

/-- Two updates may trade places exactly when they are compatible, whatever they are put onto. -/
theorem updated_comm_iff (v : Json) : ∀ {existing : Option Json} {w : Json},
    (∀ b, existing = some b → b.Canonical) → v.Canonical → w.Canonical →
      (updated (some (updated existing v)) w = updated (some (updated existing w)) v ↔
        v.Compatible w) := by
  induction v using descend with
  | plain v hPlain =>
      intro existing w _ _ _
      rw [updated_updated_of_plain (.inl hPlain), updated_updated_of_plain (.inr hPlain),
        compatible_of_plain (.inl hPlain), eq_comm]
  | object f ih =>
      intro existing w hExisting hf hw
      cases hObject : w.isObject with
      | false =>
          rw [updated_updated_of_plain (.inr hObject), updated_updated_of_plain (.inl hObject),
            compatible_of_plain (.inr hObject), eq_comm]
      | true =>
          obtain ⟨g, rfl⟩ := exists_fields_of_isObject hObject
          obtain ⟨base, hBase, hOnto⟩ := exists_base existing hExisting
          rw [hOnto f hf, hOnto g hw, updated_object_object, updated_object_object, object.injEq,
            mergeFields_comm_iff hBase hf hw, compatible_object_iff]
          refine forall_congr' fun key => forall_congr' fun u => forall_congr' fun u' =>
            forall_congr' fun hu => forall_congr' fun hu' => ?_
          exact ih key u hu (fun _ h => hBase.lookup h) (hf.lookup hu) (hw.lookup hu')

end Json

/-! ### Objects -/

theorem Value.ext_json {v w : Value} (h : v.json = w.json) : v = w := by
  cases v
  cases w
  cases h
  rfl

theorem Value.object?_eq_some_iff {v : Value} {o : Object} : v.object? = some o ↔ v.json = o.toJson := by
  obtain ⟨json, canonical⟩ := v
  cases json with
  | object fields => exact ⟨fun h => by cases h; rfl, fun h => by cases h; rfl⟩
  | null | bool | number | string | array => exact iff_of_false nofun nofun

theorem Value.isSome_object? (v : Value) : v.object?.isSome = v.json.isObject := by
  obtain ⟨json, canonical⟩ := v
  cases json <;> rfl

theorem Value.object?_eq_none_iff {v : Value} : v.object? = none ↔ v.json.isObject = false := by
  rw [← v.isSome_object?, Option.isSome_eq_false_iff, Option.isNone_iff_eq_none]

namespace Object

/-- The value at the end of a path of keys. -/
def at? (o : Object) (path : List String) : Option Value :=
  match h : Json.walk? path o.toJson with
  | some json => some ⟨json, o.canonical.walk? h⟩
  | none => none

theorem map_json_at? (o : Object) (path : List String) :
    (o.at? path).map Value.json = Json.walk? path o.toJson := by
  unfold at?
  split <;> rename_i h <;> exact h.symm

theorem at?_eq_some_iff {o : Object} {path : List String} {v : Value} :
    o.at? path = some v ↔ Json.walk? path o.toJson = some v.json := by
  rw [← map_json_at?, Option.map_eq_some_iff]
  constructor
  · exact fun h => ⟨v, h, rfl⟩
  · rintro ⟨w, h, hJson⟩
    rw [h, Value.ext_json hJson]

theorem at?_eq_none_iff {o : Object} {path : List String} :
    o.at? path = none ↔ Json.walk? path o.toJson = none := by
  rw [← map_json_at?, Option.map_eq_none_iff]

/-- The same is found at a path of two objects if it is the same in JSON. -/
theorem at?_eq_at?_iff {o o' : Object} {path : List String} :
    o.at? path = o'.at? path ↔ Json.walk? path o.toJson = Json.walk? path o'.toJson := by
  cases h : o'.at? path with
  | none => rw [at?_eq_none_iff, at?_eq_none_iff.mp h]
  | some v => rw [at?_eq_some_iff, at?_eq_some_iff.mp h]

/-- Below its first key, on the way to the end of a path, the object holds something that is no object. -/
def Displaces (o : Object) (path : List String) : Prop :=
  ∃ front rest v, path = front ++ rest ∧ front ≠ [] ∧ rest ≠ [] ∧ o.at? front = some v ∧ v.object? = none

theorem toJson_inj {o o' : Object} : o.toJson = o'.toJson ↔ o = o' := by
  rw [Object.ext_iff, toJson, toJson, Json.object.injEq]

theorem canonical_toJson (o : Object) : o.toJson.Canonical := o.canonical

theorem toJson_merge (base update : Object) :
    (base.merge update).toJson = Json.updated (some base.toJson) update.toJson := rfl

theorem walk?_merge_of_some (base : Object) {update : Object} {path : List String} {v : Value}
    (h : update.at? path = some v) : Json.walk? path (base.merge update).toJson =
      some (Json.updated (Json.walk? path base.toJson) v.json) := by
  rw [toJson_merge, Json.walk?_updated_of_some update.canonical_toJson (at?_eq_some_iff.mp h), Option.bind_some]

/-- What a merge has at a path. Something of the update that is no object stands there as it is. An object of
the update is merged into one that the base has there, and without one it stands there as it is, too. Where the
update has nothing there is nothing if it displaces the path, and what the base has otherwise. -/
theorem at?_merge (base update : Object) (path : List String) :
    (∀ v, update.at? path = some v → v.object? = none → (base.merge update).at? path = some v) ∧
    (∀ v o, update.at? path = some v → v.object? = some o →
      (base.merge update).at? path =
        some (.object (((base.at? path).bind Value.object?).elim o fun existing => existing.merge o))) ∧
    (update.at? path = none → update.Displaces path → (base.merge update).at? path = none) ∧
    (update.at? path = none → ¬ update.Displaces path →
      (base.merge update).at? path = base.at? path) := by
  refine ⟨fun v hv hPlain => ?_, fun v o hv hObject => ?_, ?_, fun hNone hFree => ?_⟩
  · rw [at?_eq_some_iff, walk?_merge_of_some base hv,
      Json.updated_of_plain _ (Value.object?_eq_none_iff.mp hPlain)]
  · rw [at?_eq_some_iff, walk?_merge_of_some base hv, Value.object?_eq_some_iff.mp hObject,
      ← map_json_at?]
    cases base.at? path with
    | none => exact congrArg some (Json.updated_none o.toJson)
    | some w =>
        rw [Option.map_some, Option.bind_some]
        cases hw : w.object? with
        | none =>
            exact congrArg some (Json.updated_plain_object (Value.object?_eq_none_iff.mp hw) o.fields)
        | some existing =>
            rw [Value.object?_eq_some_iff.mp hw]
            rfl
  · rintro - ⟨front, rest, v, rfl, -, hRest, hv, hPlain⟩
    rw [at?_eq_none_iff, toJson_merge]
    exact Json.walk?_updated_of_plain update.canonical (at?_eq_some_iff.mp hv)
      (Value.object?_eq_none_iff.mp hPlain) hRest
  · have hLacks : update.toJson.Lacks path := by
      refine Json.lacks_of_walk?_eq_none (at?_eq_none_iff.mp hNone) fun front rest v hPath hRest hv => ?_
      rw [← Bool.not_eq_false]
      intro hPlain
      -- An empty front leads to the update itself, which is an object.
      have hFront : front ≠ [] := by
        rintro rfl
        cases hv
        cases hPlain
      exact hFree ⟨front, rest, ⟨v, update.canonical.walk? hv⟩, hPath, hFront, hRest,
        at?_eq_some_iff.mpr hv, Value.object?_eq_none_iff.mpr hPlain⟩
    rw [at?_eq_at?_iff, toJson_merge]
    exact Json.walk?_updated_of_lacks update.canonical hLacks

private def manuscript : Object :=
  .ofList [("draft", .object (.ofList [("title", .string "On runs"), ("words", .int 900)])),
    ("review", .object (.ofList [("by", .string "ann")])), ("score", .int 3)]

private def revision : Object :=
  .ofList [("draft", .object (.ofList [("title", .null)])), ("review", .string "withdrawn"),
    ("score", .object (.ofList [("style", .int 4)]))]

private theorem revision_not_displaces : ¬ revision.Displaces ["draft", "words"] := by
  rintro ⟨front, rest, v, hPath, hFront, hRest, hv, hPlain⟩
  have hThere : ((revision.at? ["draft"]).bind Value.object?).isSome = true := rfl
  rcases front with _ | ⟨key, _ | ⟨next, front⟩⟩
  · exact hFront rfl
  · cases hPath
    rw [hv, Option.bind_some, hPlain] at hThere
    cases hThere
  · simp_all

/-- A revision empties a title, leaves the number of words, puts a record in the place of a score and takes the
name of the reviewer away. -/
theorem at?_merge_revision :
    (manuscript.merge revision).at? ["draft", "title"] = some .null ∧
      (manuscript.merge revision).at? ["score"] = some (.object (.ofList [("style", .int 4)])) ∧
      (revision.Displaces ["review", "by"] ∧ (manuscript.merge revision).at? ["review", "by"] = none) ∧
      (¬ revision.Displaces ["draft", "words"] ∧
        (manuscript.merge revision).at? ["draft", "words"] = some (.int 900)) := by
  have hDisplaces : revision.Displaces ["review", "by"] :=
    ⟨["review"], ["by"], .string "withdrawn", rfl, nofun, nofun, rfl, rfl⟩
  obtain ⟨hPlain, -, -, -⟩ := at?_merge manuscript revision ["draft", "title"]
  obtain ⟨-, hObject, -, -⟩ := at?_merge manuscript revision ["score"]
  obtain ⟨-, -, hNothing, -⟩ := at?_merge manuscript revision ["review", "by"]
  obtain ⟨-, -, -, hBase⟩ := at?_merge manuscript revision ["draft", "words"]
  exact ⟨hPlain .null rfl rfl, hObject _ _ rfl rfl, ⟨hDisplaces, hNothing rfl hDisplaces⟩,
    revision_not_displaces, (hBase rfl revision_not_displaces).trans rfl⟩

theorem compatible_toJson_iff {o o' : Object} : o.toJson.Compatible o'.toJson ↔
    ∀ path v w, o.at? path = some v → o'.at? path = some w →
      (v.object?.isSome = true ∧ w.object?.isSome = true) ∨ v = w := by
  simp only [Value.isSome_object?]
  constructor
  · intro h path v w hv hw
    exact (h path _ _ (at?_eq_some_iff.mp hv) (at?_eq_some_iff.mp hw)).imp_right Value.ext_json
  · intro h path a c ha hc
    refine (h path ⟨a, o.canonical.walk? ha⟩ ⟨c, o'.canonical.walk? hc⟩ (at?_eq_some_iff.mpr ha)
      (at?_eq_some_iff.mpr hc)).imp_right (congrArg Value.json)

/-- Two updates commute on a base exactly when, at every path at which both have a value, both have an object
or both have the same. That does not depend on the base: what commutes on one commutes on any other. -/
theorem merge_comm_iff (first second : Object) :
    (∀ base : Object, (base.merge first).merge second = (base.merge second).merge first ↔
      ∀ path v w, first.at? path = some v → second.at? path = some w →
        (v.object?.isSome = true ∧ w.object?.isSome = true) ∨ v = w) ∧
    ∀ base other : Object, (base.merge first).merge second = (base.merge second).merge first ↔
      (other.merge first).merge second = (other.merge second).merge first := by
  have hComm : ∀ base : Object, (base.merge first).merge second = (base.merge second).merge first ↔
      first.toJson.Compatible second.toJson := by
    intro base
    rw [← toJson_inj, toJson_merge, toJson_merge, toJson_merge, toJson_merge]
    exact Json.updated_comm_iff first.toJson (fun b h => Option.some.inj h ▸ base.canonical)
      first.canonical second.canonical
  exact ⟨fun base => (hComm base).trans compatible_toJson_iff,
    fun base other => (hComm base).trans (hComm other).symm⟩

theorem merge_empty (o : Object) : o.merge .empty = o := rfl

theorem empty_merge (o : Object) : empty.merge o = o :=
  Object.ext (Json.mergeFields_nil_left o.canonical)

theorem merge_self (o : Object) : o.merge o = o :=
  toJson_inj.mp (Json.updated_self o.toJson o.canonical)

end Object

end Stepwise
