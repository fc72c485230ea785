import Stepwise.Json.Basic

/-!
Deep merge of objects. An object in the update is merged into an object under the same key; every other
value of the update, lists included, replaces what was there. Keys that the update does not mention keep
their values.
-/

namespace Stepwise

namespace Json

mutual

/-- What a key holds after an update: objects are merged, anything else is replaced. -/
def updated (existing : Option Json) : Json → Json
  | .object update =>
    match existing with
    | some (.object fields) => .object (mergeFields fields update)
    | _ => .object update
  | value => value

/-- Update a list of fields, one key after the other. -/
def mergeFields (base : Fields) : List (String × Json) → Fields
  | [] => base
  | (key, value) :: rest => mergeFields (insertField key (updated (base.lookup key) value) base) rest

end

mutual

theorem canonical_updated {existing : Option Json}
    (hExisting : ∀ v, existing = some v → v.Canonical) :
    (value : Json) → value.Canonical → (updated existing value).Canonical
  | .object update => by
    intro h
    unfold updated
    split
    · rename_i fields hSome
      cases h with
      | object _ each => exact canonical_mergeFields (hExisting _ rfl) update each
    · exact h
  | .null | .bool _ | .number _ | .string _ | .array _ => by
    intro h
    simpa [updated] using h

theorem canonical_mergeFields {base : Fields} (hBase : (Json.object base).Canonical) :
    (update : List (String × Json)) → (∀ f ∈ update, f.2.Canonical) →
      (Json.object (mergeFields base update)).Canonical
  | [] => by
    intro _
    simpa [mergeFields] using hBase
  | (key, value) :: rest => by
    intro h
    rw [mergeFields]
    refine canonical_mergeFields (hBase.insertField ?_) rest
      (fun f hf => h f (List.mem_cons_of_mem _ hf))
    exact canonical_updated (fun _ hv => hBase.lookup hv) value
      (h (key, value) List.mem_cons_self)

end

end Json

/-- Merge an update into an object; neither is changed. -/
def Object.merge (base update : Object) : Object :=
  ⟨Json.mergeFields base.fields update.fields, by
    cases update.canonical with
    | object _ each => exact Json.canonical_mergeFields base.canonical _ each⟩

end Stepwise
