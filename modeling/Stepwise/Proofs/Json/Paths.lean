import Stepwise.Proofs.Json.Fields

/-! Paths into merged values, and when two updates may be merged with each other before they are merged
into a base. They may, on every base, unless the later one holds an object where the earlier one holds
something else: merged into the earlier one the object stands alone, but on a base without it the object
would be merged into what the base holds there. -/
namespace Stepwise.Json

/-- At some path the first value holds something that is no object and the second holds an object. -/
def Obstructs (v w : Json) : Prop :=
  ∃ path a fields, walk? path v = some a ∧ a.isObject = false ∧ walk? path w = some (.object fields)

theorem walk?_cons_of_lookup {fields : Fields} {key : String} {value : Json}
    (h : fields.lookup key = some value) (rest : List String) :
    walk? (key :: rest) (.object fields) = walk? rest value := by
  rw [walk?, h]
  rfl

/-- A path that goes on leads through an object. -/
theorem exists_of_walk?_cons {key : String} {rest : List String} {v a : Json}
    (h : walk? (key :: rest) v = some a) :
    ∃ fields w, v = .object fields ∧ fields.lookup key = some w ∧ walk? rest w = some a := by
  cases v with
  | object fields =>
      rw [walk?] at h
      obtain ⟨w, hLookup, hRest⟩ := Option.bind_eq_some_iff.mp h
      exact ⟨fields, w, rfl, hLookup, hRest⟩
  | null | bool | number | string | array => simp [walk?] at h

theorem walk?_append (front rest : List String) (v : Json) :
    walk? (front ++ rest) v = (walk? front v).bind (walk? rest) := by
  induction front generalizing v with
  | nil => rfl
  | cons key front ih =>
      cases v with
      | object fields =>
          rw [List.cons_append, walk?, walk?, Option.bind_assoc, funext ih]
      | null | bool | number | string | array => rfl

/-- No key leads on from what is no object. -/
theorem walk?_of_plain {path : List String} {v : Json} (hPlain : v.isObject = false) (hPath : path ≠ []) :
    walk? path v = none := by
  cases path with
  | nil => exact absurd rfl hPath
  | cons key rest =>
      cases v with
      | object fields => cases hPlain
      | null | bool | number | string | array => rfl

theorem Canonical.walk? {path : List String} {v w : Json} (hv : v.Canonical)
    (h : Json.walk? path v = some w) : w.Canonical := by
  induction path generalizing v with
  | nil =>
      cases h
      exact hv
  | cons key rest ih =>
      obtain ⟨fields, u, rfl, hLookup, hRest⟩ := exists_of_walk?_cons h
      exact ih (hv.lookup hLookup) hRest

theorem obstructs_of_plain {v : Json} (h : v.isObject = false) (fields : Fields) :
    v.Obstructs (.object fields) :=
  ⟨[], v, fields, rfl, h, rfl⟩

theorem not_obstructs_self (v : Json) : ¬ v.Obstructs v := by
  rintro ⟨path, a, fields, hFirst, hPlain, hLater⟩
  cases hFirst.symm.trans hLater
  cases hPlain

/-- One object obstructs another below a key that both have. -/
theorem obstructs_object_iff {f g : Fields} :
    (Json.object f).Obstructs (.object g) ↔
      ∃ key v w, f.lookup key = some v ∧ g.lookup key = some w ∧ v.Obstructs w := by
  constructor
  · rintro ⟨path, a, fields, hFirst, hPlain, hLater⟩
    cases path with
    | nil =>
        cases hFirst
        simp [isObject] at hPlain
    | cons key rest =>
        obtain ⟨_, v, hEq, hv, hRest⟩ := exists_of_walk?_cons hFirst
        cases hEq
        obtain ⟨_, w, hEq, hw, hRest'⟩ := exists_of_walk?_cons hLater
        cases hEq
        exact ⟨key, v, w, hv, hw, rest, a, fields, hRest, hPlain, hRest'⟩
  · rintro ⟨key, v, w, hv, hw, path, a, fields, hFirst, hPlain, hLater⟩
    refine ⟨key :: path, a, fields, ?_, hPlain, ?_⟩
    · rw [walk?_cons_of_lookup hv, hFirst]
    · rw [walk?_cons_of_lookup hw, hLater]

/-- What is no object after an update was put there by the update, or was there before. -/
theorem walk?_updated_plain {path : List String} {existing : Option Json} {value a : Json}
    (canonical : value.Canonical) (h : walk? path (updated existing value) = some a)
    (hPlain : a.isObject = false) :
    walk? path value = some a ∨ ∃ v, existing = some v ∧ walk? path v = some a := by
  induction path generalizing existing value with
  | nil =>
      left
      cases hValue : value.isObject with
      | false => rwa [updated_of_plain existing hValue] at h
      | true =>
          obtain ⟨update, rfl⟩ := exists_fields_of_isObject hValue
          simp only [walk?, Option.some.injEq] at h
          subst h
          unfold updated at hPlain
          split at hPlain <;> simp [isObject] at hPlain
  | cons key rest ih =>
      cases hValue : value.isObject with
      | false =>
          rw [updated_of_plain existing hValue] at h
          exact .inl h
      | true =>
          obtain ⟨update, rfl⟩ := exists_fields_of_isObject hValue
          cases existing with
          | none =>
              rw [updated_none] at h
              exact .inl h
          | some v =>
              cases hv : v.isObject with
              | false =>
                  rw [updated_plain_object hv] at h
                  exact .inl h
              | true =>
                  obtain ⟨fields, rfl⟩ := exists_fields_of_isObject hv
                  rw [updated_object_object] at h
                  obtain ⟨_, w, hEq, hLookup, hRest⟩ := exists_of_walk?_cons h
                  cases hEq
                  cases hUpdate : update.lookup key with
                  | none =>
                      rw [lookup_mergeFields_of_none _ canonical.sorted hUpdate] at hLookup
                      exact .inr ⟨_, rfl, (walk?_cons_of_lookup hLookup rest).trans hRest⟩
                  | some u =>
                      rw [lookup_mergeFields_of_some canonical.sorted hUpdate] at hLookup
                      cases hLookup
                      rcases ih (canonical.lookup hUpdate) hRest with hNew | ⟨v, hOld, hWalk⟩
                      · exact .inl ((walk?_cons_of_lookup hUpdate rest).trans hNew)
                      · exact .inr ⟨_, rfl, (walk?_cons_of_lookup hOld rest).trans hWalk⟩

/-- A path that an update takes away leads on from something in the update that is no object: where the
update holds objects all along the path, they are merged into what was there. -/
theorem exists_plain_of_walk?_updated {path : List String} {v u a : Json} (canonical : u.Canonical)
    (h : walk? path v = some a) (hLost : walk? path (updated (some v) u) = none) :
    ∃ front rest w, path = front ++ rest ∧ rest ≠ [] ∧ walk? front u = some w ∧ w.isObject = false := by
  induction path generalizing v u with
  | nil => cases hLost
  | cons key rest ih =>
      cases hu : u.isObject with
      | false => exact ⟨[], key :: rest, u, rfl, List.cons_ne_nil _ _, rfl, hu⟩
      | true =>
          obtain ⟨update, rfl⟩ := exists_fields_of_isObject hu
          obtain ⟨fields, v', rfl, hLookup, hRest⟩ := exists_of_walk?_cons h
          rw [updated_object_object] at hLost
          cases hUpdate : update.lookup key with
          | none =>
              rw [walk?_cons_of_lookup ((lookup_mergeFields_of_none _ canonical.sorted hUpdate).trans hLookup),
                hRest] at hLost
              cases hLost
          | some u' =>
              rw [walk?_cons_of_lookup (lookup_mergeFields_of_some canonical.sorted hUpdate), hLookup] at hLost
              obtain ⟨front, back, w, rfl, hBack, hWalk, hPlain⟩ :=
                ih (canonical.lookup hUpdate) hRest hLost
              exact ⟨key :: front, back, w, rfl, hBack, (walk?_cons_of_lookup hUpdate _).trans hWalk, hPlain⟩

/-- What obstructs after an update obstructed in the update or before it. -/
theorem Obstructs.of_updated {v w x : Json} (canonical : w.Canonical)
    (h : (updated (some v) w).Obstructs x) : v.Obstructs x ∨ w.Obstructs x := by
  obtain ⟨path, a, fields, hFirst, hPlain, hLater⟩ := h
  rcases walk?_updated_plain canonical hFirst hPlain with hNew | ⟨u, hOld, hWalk⟩
  · exact .inr ⟨path, a, fields, hNew, hPlain, hLater⟩
  · cases hOld
    exact .inl ⟨path, a, fields, hWalk, hPlain, hLater⟩

/-! ### Paths that an update lacks -/

/-- A path leads into the value up to an object that lacks the next key. -/
def Lacks (v : Json) (path : List String) : Prop :=
  ∃ front key rest fields, path = front ++ key :: rest ∧ walk? front v = some (.object fields) ∧
    fields.lookup key = none

/-- Either the value lacks the first key, or it lacks the rest of the path under it. -/
theorem lacks_cons_iff {v : Json} {key : String} {rest : List String} :
    v.Lacks (key :: rest) ↔
      ∃ fields, v = .object fields ∧ ∀ w, fields.lookup key = some w → w.Lacks rest := by
  constructor
  · rintro ⟨front, k, back, fields, hPath, hWalk, hAbsent⟩
    cases front with
    | nil =>
        cases hPath
        cases hWalk
        refine ⟨fields, rfl, fun w hw => ?_⟩
        rw [hAbsent] at hw
        cases hw
    | cons _ front =>
        cases hPath
        obtain ⟨_, u, rfl, hLookup, hBelow⟩ := exists_of_walk?_cons hWalk
        refine ⟨_, rfl, fun w hw => ?_⟩
        cases hLookup.symm.trans hw
        exact ⟨front, k, back, fields, rfl, hBelow, hAbsent⟩
  · rintro ⟨fields, rfl, hBelow⟩
    cases hLookup : fields.lookup key with
    | none => exact ⟨[], key, rest, fields, rfl, rfl, hLookup⟩
    | some w =>
        obtain ⟨front, k, back, inner, rfl, hWalk, hAbsent⟩ := hBelow w hLookup
        exact ⟨key :: front, k, back, inner, rfl, (walk?_cons_of_lookup hLookup _).trans hWalk, hAbsent⟩

theorem not_lacks_nil (v : Json) : ¬ v.Lacks [] := by
  rintro ⟨front, key, rest, fields, hPath, -⟩
  cases front <;> cases hPath

theorem walk?_of_lacks {path : List String} {v : Json} (h : v.Lacks path) : walk? path v = none := by
  induction path generalizing v with
  | nil => exact absurd h v.not_lacks_nil
  | cons key rest ih =>
      obtain ⟨fields, rfl, hBelow⟩ := lacks_cons_iff.mp h
      cases hLookup : fields.lookup key with
      | none => rw [walk?, hLookup]; rfl
      | some w => rw [walk?_cons_of_lookup hLookup, ih (hBelow w hLookup)]

/-- An update that lacks a path shows through it what was there. On the way it may put an object in the place
of something that is none; the path led nowhere then, and it still does. -/
theorem walk?_updated_of_lacks {path : List String} {v u : Json} (canonical : u.Canonical)
    (h : u.Lacks path) : walk? path (updated (some v) u) = walk? path v := by
  induction path generalizing v u with
  | nil => exact absurd h u.not_lacks_nil
  | cons key rest ih =>
      obtain ⟨update, rfl, hBelow⟩ := lacks_cons_iff.mp h
      cases hv : v.isObject with
      | false =>
          rw [updated_plain_object hv, walk?_of_lacks h, walk?_of_plain hv (List.cons_ne_nil _ _)]
      | true =>
          obtain ⟨fields, rfl⟩ := exists_fields_of_isObject hv
          rw [updated_object_object, walk?, walk?]
          cases hUpdate : update.lookup key with
          | none => rw [lookup_mergeFields_of_none _ canonical.sorted hUpdate]
          | some w =>
              have hRest := hBelow w hUpdate
              rw [lookup_mergeFields_of_some canonical.sorted hUpdate]
              cases hLookup : fields.lookup key with
              | none => exact (congrArg _ (updated_none w)).trans (walk?_of_lacks hRest)
              | some v' => exact ih (canonical.lookup hUpdate) hRest

/-! ### Merging the updates first -/

/-- Two merges in a row come to one merge of the merged updates if they do so under every key that both
updates mention. -/
theorem mergeFields_assoc_iff {b f g : Fields} (hb : Canonical (.object b))
    (hf : Canonical (.object f)) (hg : Canonical (.object g)) :
    mergeFields (mergeFields b f) g = mergeFields b (mergeFields f g) ↔
      ∀ key v w, f.lookup key = some v → g.lookup key = some w →
        updated (some (updated (b.lookup key) v)) w =
          updated (b.lookup key) (updated (some v) w) := by
  have hfg : Canonical (.object (mergeFields f g)) := hf.mergeFields hg
  constructor
  · intro h key v w hv hw
    have hKey : (mergeFields (mergeFields b f) g).lookup key =
        (mergeFields b (mergeFields f g)).lookup key := by rw [h]
    have hUpdate : (mergeFields f g).lookup key = some (updated (some v) w) := by
      rw [lookup_mergeFields_of_some hg.sorted hw, hv]
    rw [lookup_mergeFields_of_some hg.sorted hw, lookup_mergeFields_of_some hf.sorted hv,
      lookup_mergeFields_of_some hfg.sorted hUpdate] at hKey
    exact Option.some.inj hKey
  · intro h
    refine eq_of_lookup_eq ((hb.mergeFields hf).mergeFields hg).sorted
      (hb.mergeFields hfg).sorted fun key => ?_
    rw [lookup_mergeFields _ hg.sorted, lookup_mergeFields _ hf.sorted,
      lookup_mergeFields _ hfg.sorted, lookup_mergeFields _ hg.sorted]
    cases hw : g.lookup key with
    | none => rfl
    | some w =>
        cases hv : f.lookup key with
        | none => simp only [updated_none]
        | some v => simp only [h key v w hv hw]

theorem updated_assoc (w : Json) : ∀ {existing : Option Json} {v : Json},
    (∀ b, existing = some b → b.Canonical) → v.Canonical → w.Canonical → ¬ v.Obstructs w →
      updated (some (updated existing v)) w = updated existing (updated (some v) w) := by
  induction w using descend with
  | plain w hw =>
      intro existing v _ _ _ _
      rw [updated_of_plain _ hw, updated_of_plain _ hw, updated_of_plain _ hw]
  | object g ih =>
      intro existing v hExisting hv hg hFree
      obtain ⟨f, rfl⟩ : ∃ f, v = .object f := by
        refine exists_fields_of_isObject ?_
        rw [← Bool.not_eq_false]
        exact fun hPlain => hFree (obstructs_of_plain hPlain g)
      obtain ⟨base, hBase, hOnto⟩ := exists_base existing hExisting
      rw [hOnto f hv, updated_object_object, updated_object_object, hOnto _ (hv.mergeFields hg),
        object.injEq, mergeFields_assoc_iff hBase hv hg]
      intro key v w hLookup hLater
      exact ih key w hLater (fun _ h => hBase.lookup h) (hv.lookup hLookup) (hg.lookup hLater)
        fun hBelow => hFree (obstructs_object_iff.mpr ⟨key, v, w, hLookup, hLater, hBelow⟩)

/-- Under an obstructed key the two ways to merge part on a suitable base. -/
private theorem exists_fields_of_key {f g : Fields} {key : String} {v w b : Json}
    (hf : Canonical (.object f)) (hg : Canonical (.object g)) (hb : b.Canonical)
    (hv : f.lookup key = some v) (hw : g.lookup key = some w)
    (h : updated (some (updated (some b) v)) w ≠ updated (some b) (updated (some v) w)) :
    ∃ base, Canonical (.object base) ∧
      mergeFields (mergeFields base f) g ≠ mergeFields base (mergeFields f g) := by
  refine ⟨[(key, b)], canonical_singleton key hb, fun hEq => h ?_⟩
  have hKey := (mergeFields_assoc_iff (canonical_singleton key hb) hf hg).mp hEq key v w hv hw
  rwa [List.lookup_cons_self] at hKey

/-- What is no object in the first update and an object in the second parts the two ways to merge them:
the base holds, at that path, an object with a field that the second update does not have. -/
private theorem exists_of_walk? {path : List String} : ∀ {v w a : Json} {fields : Fields},
    v.Canonical → w.Canonical → walk? path v = some a → a.isObject = false →
    walk? path w = some (.object fields) →
      ∃ b, b.Canonical ∧
        updated (some (updated (some b) v)) w ≠ updated (some b) (updated (some v) w) := by
  induction path with
  | nil =>
      intro v w a fields _ hw hFirst hPlain hLater
      cases hFirst
      cases hLater
      obtain ⟨key, hKey⟩ := exists_lookup_eq_none fields
      refine ⟨.object [(key, .null)], canonical_singleton key .null, fun hEq => ?_⟩
      rw [updated_of_plain _ hPlain, updated_plain_object hPlain, updated_object_object,
        object.injEq] at hEq
      have hAbsent := lookup_mergeFields_of_none [(key, .null)] hw.sorted hKey
      rw [← hEq, hKey, List.lookup_cons_self] at hAbsent
      cases hAbsent
  | cons key rest ih =>
      intro v w a fields hv hw hFirst hPlain hLater
      obtain ⟨f, v', rfl, hv', hRest⟩ := exists_of_walk?_cons hFirst
      obtain ⟨g, w', rfl, hw', hRest'⟩ := exists_of_walk?_cons hLater
      obtain ⟨b, hb, hNe⟩ := ih (hv.lookup hv') (hw.lookup hw') hRest hPlain hRest'
      obtain ⟨base, hBase, hParts⟩ := exists_fields_of_key hv hw hb hv' hw' hNe
      refine ⟨.object base, hBase, fun hEq => hParts ?_⟩
      simpa only [updated_object_object, object.injEq] using hEq

/-- Two updates may be merged with each other first, whatever the base, exactly when the first does not
obstruct the second. -/
theorem forall_mergeFields_assoc_iff {f g : Fields} (hf : Canonical (.object f))
    (hg : Canonical (.object g)) :
    (∀ base, Canonical (.object base) →
      mergeFields (mergeFields base f) g = mergeFields base (mergeFields f g)) ↔
      ¬ (Json.object f).Obstructs (.object g) := by
  constructor
  · intro hAll hObstructs
    obtain ⟨key, v, w, hv, hw, path, a, fields, hFirst, hPlain, hLater⟩ :=
      obstructs_object_iff.mp hObstructs
    obtain ⟨b, hb, hNe⟩ := exists_of_walk? (hf.lookup hv) (hg.lookup hw) hFirst hPlain hLater
    obtain ⟨base, hBase, hParts⟩ := exists_fields_of_key hf hg hb hv hw hNe
    exact hParts (hAll base hBase)
  · intro hFree base hBase
    have hExisting : ∀ b, some (Json.object base) = some b → b.Canonical :=
      fun b h => Option.some.inj h ▸ hBase
    have hAssoc := updated_assoc (.object g) hExisting hf hg hFree
    simpa only [updated_object_object, object.injEq] using hAssoc

end Stepwise.Json
