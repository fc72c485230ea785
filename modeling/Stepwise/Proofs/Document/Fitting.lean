import Stepwise.Document.Fit
import Stepwise.Proofs.Except
import Stepwise.Proofs.Json.Fields

/-! Documents that say what a structure holds. A JSON value is its own document. Fields that may be set in any
order are set as if one after the other looked up what stands under its name: the order of the entries makes
no difference, and neither does writing them as a list. -/
namespace Stepwise

/-! ### JSON values as documents -/

namespace Json

theorem insertField_of_forall_lt {fields : Fields} {key : String} (value : Json)
    (h : ∀ f ∈ fields, f.1 < key) : insertField key value fields = fields ++ [(key, value)] := by
  induction fields with
  | nil => rfl
  | cons f rest ih =>
      obtain ⟨hFirst, hRest⟩ := List.forall_mem_cons.mp h
      rw [insertField, if_neg (String.lt_asymm hFirst), if_neg (String.ne_of_lt hFirst).symm, ih hRest,
        List.cons_append]

theorem itemsToJson_itemsToDocument {items : List Json} (h : ∀ x ∈ items, x.toDocument.toJson = x) :
    Document.itemsToJson (itemsToDocument items) = items := by
  induction items with
  | nil => rfl
  | cons x rest ih =>
      obtain ⟨hFirst, hRest⟩ := List.forall_mem_cons.mp h
      rw [itemsToDocument, Document.itemsToJson, hFirst, ih hRest]

/-- Entries whose keys increase are entered one behind the other. -/
theorem addEntries_fieldsToDocument {fields : Fields} : ∀ {front : Fields},
    (front ++ fields).Pairwise (fun f g => f.1 < g.1) → (∀ f ∈ fields, f.2.toDocument.toJson = f.2) →
      Document.addEntries front (fieldsToDocument fields) = front ++ fields := by
  induction fields with
  | nil => exact fun {front} _ _ => (List.append_nil front).symm
  | cons f rest ih =>
      obtain ⟨key, value⟩ := f
      intro front sorted h
      obtain ⟨hValue, hRest⟩ := List.forall_mem_cons.mp h
      have hBehind : ∀ f ∈ front, f.1 < key :=
        fun f hf => (List.pairwise_append.mp sorted).2.2 f hf _ List.mem_cons_self
      rw [fieldsToDocument, Document.addEntries, hValue, insertField_of_forall_lt value hBehind,
        ih (by simpa using sorted) hRest, List.append_assoc, List.singleton_append]

theorem toJson_toDocument {j : Json} (h : j.Canonical) : j.toDocument.toJson = j := by
  induction h with
  | null | bool | number | string => rfl
  | array each ih => rw [toDocument, Document.toJson, itemsToJson_itemsToDocument ih]
  | object sorted each ih =>
      rw [toDocument, Document.toJson, addEntries_fieldsToDocument (List.nil_append _ ▸ sorted) ih,
        List.nil_append]

theorem lookup_fieldsToDocument (fields : Fields) (key : String) :
    (fieldsToDocument fields).lookup key = (fields.lookup key).map toDocument := by
  induction fields with
  | nil => rfl
  | cons f rest ih =>
      rw [fieldsToDocument, List.lookup_cons, List.lookup_cons, ih]
      cases key == f.1 <;> rfl

theorem map_fst_fieldsToDocument (fields : Fields) :
    (fieldsToDocument fields).map Prod.fst = fields.map Prod.fst := by
  induction fields with
  | nil => rfl
  | cons f rest ih => rw [fieldsToDocument, List.map_cons, List.map_cons, ih]

end Json

namespace Object

theorem toDocument_toJson (o : Object) :
    o.toJson.toDocument = .object (Json.fieldsToDocument o.fields) := by
  rw [toJson, Json.toDocument]

/-- An object is read as the namespace that it is. -/
theorem namespaceOf_toDocument (o : Object) : o.toJson.toDocument.namespaceOf = .ok o := by
  have hJson : (Json.object o.fields).toDocument.toJson = .object o.fields := Json.toJson_toDocument o.canonical
  rw [Json.toDocument, Document.toJson, Json.object.injEq] at hJson
  rw [toDocument_toJson]
  exact congrArg Except.ok (Object.ext hJson)

theorem nodup_keys_toDocument (o : Object) : ((Json.fieldsToDocument o.fields).map Prod.fst).Nodup := by
  rw [Json.map_fst_fieldsToDocument]
  exact Json.nodup_keys o.canonical.sorted

end Object

/-! ### Fields that are looked up -/

namespace Field

variable {σ : Type}

/-- Set the fields in their own order, each from what is found under its name. -/
def setFound (found : String → Option Document) : List (Field σ) → σ → Except Misfit σ
  | [], s => .ok s
  | f :: rest, s =>
    match found f.name with
    | some d => f.set d s >>= setFound found rest
    | none => if f.required then .error (.missingField f.name) else setFound found rest s

/-- Fields with different names that come to the same in either order. Only which of two misfits is reported
may depend on the order. -/
structure Independent (f g : Field σ) : Prop where
  names : f.name ≠ g.name
  commute : ∀ d e s t, (f.set d s >>= g.set e) = .ok t ↔ (g.set e s >>= f.set d) = .ok t

/-- Fields with a single name each that may be set in any order. -/
structure Separate (fields : List (Field σ)) : Prop where
  plain : ∀ f ∈ fields, f.otherName = none
  independent : fields.Pairwise Independent

/-- Fields that put what they fit into different places may be set in either order. -/
theorem Independent.of_put {α β : Type} {f g : Field σ} {fit : Document → Except Misfit α} {put : σ → α → σ}
    {fit' : Document → Except Misfit β} {put' : σ → β → σ} (hNames : f.name ≠ g.name)
    (hf : ∀ d s, f.set d s = (fit d).map (put s)) (hg : ∀ d s, g.set d s = (fit' d).map (put' s))
    (hPut : ∀ s a b, put' (put s a) b = put (put' s b) a) : Independent f g where
  names := hNames
  commute := by
    intro d e s t
    simp only [bind_eq_ok_iff, hf, hg, map_eq_ok_iff]
    constructor
    · rintro ⟨_, ⟨a, ha, rfl⟩, b, hb, rfl⟩
      exact ⟨_, ⟨b, hb, rfl⟩, a, ha, (hPut s a b).symm⟩
    · rintro ⟨_, ⟨b, hb, rfl⟩, a, ha, rfl⟩
      exact ⟨_, ⟨a, ha, rfl⟩, b, hb, hPut s a b⟩

theorem Separate.singleton {f : Field σ} (hPlain : f.otherName = none) : Separate [f] where
  plain := List.forall_mem_singleton.mpr hPlain
  independent := List.pairwise_singleton _ _

theorem Separate.cons {f : Field σ} {rest : List (Field σ)} (hPlain : f.otherName = none)
    (hIndependent : ∀ g ∈ rest, Independent f g) (h : Separate rest) : Separate (f :: rest) where
  plain := List.forall_mem_cons.mpr ⟨hPlain, h.plain⟩
  independent := h.independent.cons hIndependent

theorem Separate.tail {f : Field σ} {rest : List (Field σ)} (h : Separate (f :: rest)) : Separate rest where
  plain := fun g hg => h.plain g (List.mem_cons_of_mem _ hg)
  independent := (List.pairwise_cons.mp h.independent).2

theorem Separate.name_ne {f : Field σ} {rest : List (Field σ)} (h : Separate (f :: rest)) {g : Field σ}
    (hg : g ∈ rest) : g.name ≠ f.name :=
  ((List.pairwise_cons.mp h.independent).1 g hg).names.symm

theorem Separate.nodup_names {fields : List (Field σ)} (h : Separate fields) : (fields.map Field.name).Nodup :=
  List.pairwise_map.mpr (h.independent.imp Independent.names)

theorem setFound_congr {found found' : String → Option Document} {fields : List (Field σ)}
    (h : ∀ f ∈ fields, found f.name = found' f.name) : setFound found fields = setFound found' fields := by
  induction fields with
  | nil => rfl
  | cons f rest ih =>
      obtain ⟨hFirst, hRest⟩ := List.forall_mem_cons.mp h
      funext s
      rw [setFound, setFound, hFirst, ih hRest]

/-- What no field changes is the same in the end. -/
theorem setFound_keeps {β : Type} {view : σ → β} {found : String → Option Document} {fields : List (Field σ)}
    (hKeep : ∀ f ∈ fields, ∀ d s t, f.set d s = .ok t → view t = view s) :
    ∀ {s t : σ}, setFound found fields s = .ok t → view t = view s := by
  induction fields with
  | nil =>
      intro s t h
      cases h
      rfl
  | cons f rest ih =>
      obtain ⟨hFirst, hRest⟩ := List.forall_mem_cons.mp hKeep
      intro s t h
      rw [setFound] at h
      cases hFound : found f.name with
      | none =>
          rw [hFound] at h
          dsimp only at h
          split_ifs at h
          exact ih hRest h
      | some d =>
          rw [hFound] at h
          obtain ⟨u, hSet, h⟩ := bind_eq_ok_iff.mp h
          exact (ih hRest h).trans (hFirst d s u hSet)

/-! ### Entries in any order -/

/-- Set the fields from entries in order, whether or not they were set before. -/
def setInTurn (fields : List (Field σ)) : List (String × Document) → σ → Except Misfit σ
  | [], s => .ok s
  | (key, d) :: rest, s =>
    match fields.find? fun f => f.name == key with
    | none => setInTurn fields rest s
    | some f => f.set d s >>= setInTurn fields rest

variable {fields : List (Field σ)}

theorem answersTo_eq {f : Field σ} (hPlain : f.otherName = none) (key : String) :
    f.answersTo key = (f.name == key) := by
  rw [answersTo, hPlain]
  exact Bool.or_false _

theorem find?_answersTo (hPlain : ∀ f ∈ fields, f.otherName = none) (key : String) :
    fields.find? (answersTo · key) = fields.find? fun f => f.name == key := by
  induction fields with
  | nil => rfl
  | cons f rest ih =>
      obtain ⟨hFirst, hRest⟩ := List.forall_mem_cons.mp hPlain
      rw [List.find?_cons, List.find?_cons, answersTo_eq hFirst, ih hRest]

theorem mem_and_name_of_find? {key : String} {f : Field σ} (h : fields.find? (fun f => f.name == key) = some f) :
    f ∈ fields ∧ f.name = key :=
  ⟨List.mem_of_find?_eq_some h, by simpa using List.find?_some h⟩

/-- The names of fields among the keys of entries. -/
def namesIn (fields : List (Field σ)) (entries : List (String × Document)) : List String :=
  (entries.map Prod.fst).filter fun key => fields.any fun f => f.name == key

theorem mem_namesIn {entries : List (String × Document)} {f : Field σ} (hf : f ∈ fields) :
    f.name ∈ namesIn fields entries ↔ f.name ∈ entries.map Prod.fst := by
  rw [namesIn, List.mem_filter, and_iff_left]
  exact List.any_eq_true.mpr ⟨f, hf, beq_self_eq_true _⟩

/-- With distinct keys no field is met twice. -/
theorem setEntries_eq (hPlain : ∀ f ∈ fields, f.otherName = none) {entries : List (String × Document)} :
    ∀ {seen : List String} {s : σ}, (entries.map Prod.fst).Nodup → (∀ key ∈ entries.map Prod.fst, key ∉ seen) →
      setEntries fields seen s entries =
        (setInTurn fields entries s).map fun t => (t, (namesIn fields entries).reverse ++ seen) := by
  induction entries with
  | nil => exact fun _ _ => rfl
  | cons entry rest ih =>
      obtain ⟨key, d⟩ := entry
      intro seen s hKeys hFresh
      rw [List.map_cons, List.nodup_cons] at hKeys
      rw [List.map_cons, List.forall_mem_cons] at hFresh
      rw [setEntries, setInTurn, find?_answersTo hPlain]
      cases hFind : fields.find? fun f => f.name == key with
      | none =>
          have hOther : namesIn fields ((key, d) :: rest) = namesIn fields rest := by
            refine List.filter_cons_of_neg (Bool.not_eq_true _ ▸ ?_)
            exact List.any_eq_false.mpr (List.find?_eq_none.mp hFind)
          rw [hOther]
          exact ih hKeys.2 hFresh.2
      | some f =>
          obtain ⟨hf, rfl⟩ := mem_and_name_of_find? hFind
          have hNamed : namesIn fields ((f.name, d) :: rest) = f.name :: namesIn fields rest :=
            List.filter_cons_of_pos (List.any_eq_true.mpr ⟨f, hf, beq_self_eq_true _⟩)
          have hNext : ∀ name ∈ rest.map Prod.fst, name ∉ f.name :: seen := by
            intro name hName
            rw [List.mem_cons, not_or]
            exact ⟨fun hSame => hKeys.1 (hSame ▸ hName), hFresh.2 name hName⟩
          dsimp only
          rw [if_neg (by simpa using hFresh.1), hNamed, List.reverse_cons, List.append_assoc,
            List.singleton_append]
          cases f.set d s with
          | error misfit => rfl
          | ok s' => exact ih hKeys.2 hNext

/-- A field that has no entry is not set. -/
theorem setInTurn_cons_of_not_mem {f : Field σ} {rest : List (Field σ)} {entries : List (String × Document)}
    (h : f.name ∉ entries.map Prod.fst) : setInTurn (f :: rest) entries = setInTurn rest entries := by
  induction entries with
  | nil => rfl
  | cons entry later ih =>
      obtain ⟨key, d⟩ := entry
      rw [List.map_cons, List.mem_cons, not_or] at h
      funext s
      rw [setInTurn, setInTurn, List.find?_cons, beq_eq_false_iff_ne.mpr h.1, ih h.2]

/-- The entry of the first field may be taken before all others. -/
theorem setInTurn_ok_iff {f : Field σ} {rest : List (Field σ)} (hSeparate : Separate (f :: rest))
    {front back : List (String × Document)} {d : Document} (hFront : f.name ∉ front.map Prod.fst)
    (hBack : f.name ∉ back.map Prod.fst) {s t : σ} :
    setInTurn (f :: rest) (front ++ (f.name, d) :: back) s = .ok t ↔
      (f.set d s >>= setInTurn rest (front ++ back)) = .ok t := by
  induction front generalizing s with
  | nil =>
      rw [List.nil_append, List.nil_append, setInTurn, List.find?_cons, beq_self_eq_true,
        setInTurn_cons_of_not_mem hBack]
  | cons entry later ih =>
      obtain ⟨key, e⟩ := entry
      rw [List.map_cons, List.mem_cons, not_or] at hFront
      rw [List.cons_append, List.cons_append, setInTurn, List.find?_cons, beq_eq_false_iff_ne.mpr hFront.1]
      cases hFind : rest.find? fun g => g.name == key with
      | none =>
          simp only [bind_eq_ok_iff, setInTurn, hFind]
          rw [ih hFront.2, bind_eq_ok_iff]
      | some g =>
          -- The entry of g stands before that of f; the two change places, and f moves on to the front.
          have hIndependent := (List.pairwise_cons.mp hSeparate.independent).1 g (mem_and_name_of_find? hFind).1
          have hSet : ∀ u, setInTurn rest ((key, e) :: (later ++ back)) u =
              (g.set e u >>= setInTurn rest (later ++ back)) := by
            intro u
            rw [setInTurn, hFind]
          calc (g.set e s >>= setInTurn (f :: rest) (later ++ (f.name, d) :: back)) = .ok t
              ↔ ((g.set e s >>= f.set d) >>= setInTurn rest (later ++ back)) = .ok t := by
                rw [bind_assoc, bind_eq_ok_iff, bind_eq_ok_iff]
                exact exists_congr fun u => and_congr_right fun _ => ih hFront.2
            _ ↔ ((f.set d s >>= g.set e) >>= setInTurn rest (later ++ back)) = .ok t := by
                rw [bind_eq_ok_iff, bind_eq_ok_iff (x := f.set d s >>= g.set e)]
                exact exists_congr fun u => and_congr_left fun _ => (hIndependent.commute d e s u).symm
            _ ↔ (f.set d s >>= setInTurn rest ((key, e) :: (later ++ back))) = .ok t := by
                rw [bind_assoc, funext hSet]

theorem setInTurn_nil (entries : List (String × Document)) (s : σ) : setInTurn [] entries s = .ok s := by
  induction entries with
  | nil => rfl
  | cons entry rest ih =>
      rw [setInTurn, List.find?_nil]
      exact ih

/-- Entries with distinct keys are looked up, in whatever order they stand. The induction is on the fields: the
entry of the first one is taken out from wherever it is. -/
theorem setInTurn_iff_setFound (hSeparate : Separate fields) {entries : List (String × Document)}
    (hKeys : (entries.map Prod.fst).Nodup) {s t : σ} :
    (setInTurn fields entries s = .ok t ∧
        ∀ f ∈ fields, f.required = true → f.name ∈ entries.map Prod.fst) ↔
      setFound (entries.lookup ·) fields s = .ok t := by
  induction fields generalizing entries s with
  | nil => simp [setInTurn_nil, setFound]
  | cons f rest ih =>
      rw [List.forall_mem_cons, setFound]
      cases hFind : entries.lookup f.name with
      | none =>
          have hAbsent : f.name ∉ entries.map Prod.fst := by
            intro hMem
            obtain ⟨entry, hEntry, hName⟩ := List.mem_map.mp hMem
            exact bne_iff_ne.mp (List.lookup_eq_none_iff.mp hFind entry hEntry) hName.symm
          rw [setInTurn_cons_of_not_mem hAbsent]
          cases f.required with
          | true => simp [hAbsent]
          | false => simpa using ih hSeparate.tail hKeys
      | some d =>
          obtain ⟨front, back, rfl, -⟩ := List.lookup_eq_some_iff.mp hFind
          rw [List.map_append, List.map_cons, List.nodup_middle, List.nodup_cons, List.mem_append, not_or,
            ← List.map_append] at hKeys
          obtain ⟨⟨hFront, hBack⟩, hKeys⟩ := hKeys
          have hOthers : ∀ g ∈ rest,
              (front ++ (f.name, d) :: back).lookup g.name = (front ++ back).lookup g.name := by
            intro g hg
            rw [List.lookup_append, List.lookup_append, List.lookup_cons,
              beq_eq_false_iff_ne.mpr (hSeparate.name_ne hg)]
          have hFound : setFound ((front ++ (f.name, d) :: back).lookup ·) rest =
              setFound ((front ++ back).lookup ·) rest := setFound_congr hOthers
          have hNames : ∀ g ∈ rest, (g.name ∈ (front ++ (f.name, d) :: back).map Prod.fst ↔
              g.name ∈ (front ++ back).map Prod.fst) := by
            intro g hg
            simp [hSeparate.name_ne hg]
          have hFirst : f.name ∈ (front ++ (f.name, d) :: back).map Prod.fst := by simp
          dsimp only
          rw [setInTurn_ok_iff hSeparate hFront hBack, hFound, bind_eq_ok_iff, bind_eq_ok_iff]
          constructor
          · rintro ⟨⟨u, hSet, hTurn⟩, -, hRequired⟩
            exact ⟨u, hSet, (ih hSeparate.tail hKeys).mp
              ⟨hTurn, fun g hg hReq => (hNames g hg).mp (hRequired g hg hReq)⟩⟩
          · rintro ⟨u, hSet, hFound⟩
            obtain ⟨hTurn, hRequired⟩ := (ih hSeparate.tail hKeys).mpr hFound
            exact ⟨⟨u, hSet, hTurn⟩, fun _ => hFirst, fun g hg hReq => (hNames g hg).mpr (hRequired g hg hReq)⟩

/-! ### Structures -/

/-- The first field that must be there and is not among the names that have been met. -/
def missing? (fields : List (Field σ)) (seen : List String) : Option (Field σ) :=
  fields.find? fun f => f.required && !seen.contains f.name

/-- No field is missing when those that must be there have entries. -/
theorem missing?_eq_none_iff {entries : List (String × Document)} :
    missing? fields ((namesIn fields entries).reverse ++ []) = none ↔
      ∀ f ∈ fields, f.required = true → f.name ∈ entries.map Prod.fst := by
  rw [missing?, List.find?_eq_none]
  refine forall₂_congr fun f hf => ?_
  rw [← mem_namesIn hf]
  simp

theorem toStructure_object_ok_iff {entries : List (String × Document)} {form : ListForm} {name : String}
    {defaults t : σ} :
    (Document.object entries).toStructure form name fields defaults = .ok t ↔
      ∃ seen, setEntries fields [] defaults entries = .ok (t, seen) ∧ missing? fields seen = none := by
  have hForm : (Document.object entries).toStructure form name fields defaults =
      (Document.object entries).toStructure .lax name fields defaults := by cases form <;> rfl
  rw [hForm]
  constructor
  · intro h
    obtain ⟨_, hEntries, h⟩ := bind_eq_ok_iff.mp h
    cases hEntries
    obtain ⟨⟨u, seen⟩, hSet, h⟩ := bind_eq_ok_iff.mp h
    dsimp only at h
    split at h
    · cases h
    · rename_i hMissing
      cases h
      exact ⟨seen, hSet, hMissing⟩
  · rintro ⟨seen, hSet, hMissing⟩
    refine bind_eq_ok_iff.mpr ⟨entries, rfl, bind_eq_ok_iff.mpr ⟨_, hSet, ?_⟩⟩
    rw [missing?] at hMissing
    dsimp only
    rw [hMissing]
    rfl

/-- An object with distinct keys gives a structure what it has under the names of the fields. -/
theorem Separate.toStructure_object (hSeparate : Separate fields) {entries : List (String × Document)}
    (hKeys : (entries.map Prod.fst).Nodup) {form : ListForm} {name : String} {defaults t : σ} :
    (Document.object entries).toStructure form name fields defaults = .ok t ↔
      setFound (entries.lookup ·) fields defaults = .ok t := by
  rw [← setInTurn_iff_setFound hSeparate hKeys, ← missing?_eq_none_iff, toStructure_object_ok_iff,
    setEntries_eq hSeparate.plain hKeys (fun _ _ => List.not_mem_nil)]
  constructor
  · rintro ⟨seen, hSet, hMissing⟩
    obtain ⟨u, hTurn, h⟩ := map_eq_ok_iff.mp hSet
    cases h
    exact ⟨hTurn, hMissing⟩
  · rintro ⟨hSet, hMissing⟩
    exact ⟨_, map_eq_ok_iff.mpr ⟨t, hSet, rfl⟩, hMissing⟩

theorem setItems_ok_iff (form : ListForm) {expected : String} : ∀ {fields : List (Field σ)}
    {items : List Document} {read : Nat} {s t : σ}, items.length ≤ fields.length → (fields.map Field.name).Nodup →
      (setItems form expected read s fields items = .ok t ↔
        setFound (((fields.map Field.name).zip items).lookup ·) fields s = .ok t) := by
  intro fields
  induction fields with
  | nil =>
      intro items read s t hLength _
      obtain rfl := List.eq_nil_of_length_eq_zero (Nat.le_zero.mp hLength)
      simp [setItems, ListForm.surplus?, setFound]
  | cons f rest ih =>
      intro items read s t hLength hNames
      obtain ⟨hOther, hNames⟩ := List.nodup_cons.mp hNames
      cases items with
      | nil =>
          have hNext : setItems form expected read s rest [] = .ok t ↔
              setFound (((rest.map Field.name).zip ([] : List Document)).lookup ·) rest s = .ok t :=
            ih (Nat.zero_le _) hNames
          rw [List.zip_nil_right] at hNext ⊢
          rw [setItems, setFound, List.lookup_nil]
          cases f.required with
          | true => exact iff_of_false nofun nofun
          | false => exact hNext
      | cons d items =>
          have hFound : setFound ((((f :: rest).map Field.name).zip (d :: items)).lookup ·) rest =
              setFound (((rest.map Field.name).zip items).lookup ·) rest := by
            refine setFound_congr fun g hg => ?_
            have hNe : g.name ≠ f.name := fun h => hOther (h ▸ List.mem_map_of_mem hg)
            rw [List.map_cons, List.zip_cons_cons, List.lookup_cons, beq_eq_false_iff_ne.mpr hNe]
          rw [setItems, setFound, hFound, List.map_cons, List.zip_cons_cons, List.lookup_cons_self]
          dsimp only
          cases f.set d s with
          | error misfit => exact iff_of_false nofun nofun
          | ok u => exact ih (Nat.le_of_succ_le_succ hLength) hNames

/-- Without items after the last field a list is not too long. -/
theorem length_le_of_setItems {form : ListForm} (hForm : form ≠ .lax) {expected : String}
    {items : List Document} : ∀ {fields : List (Field σ)} {read : Nat} {s t : σ},
      setItems form expected read s fields items = .ok t → items.length ≤ fields.length := by
  induction items with
  | nil => exact fun _ => Nat.zero_le _
  | cons d rest ih =>
      intro fields read s t h
      cases fields with
      | nil =>
          have hSurplus : ∃ misfit, form.surplus? read (read + (d :: rest).length) = some misfit := by
            have hMore : ¬ read + (d :: rest).length ≤ read := by simp
            unfold ListForm.surplus?
            rw [if_neg hMore]
            cases form with
            | lax => exact absurd rfl hForm
            | never | exact | counted => exact ⟨_, rfl⟩
          obtain ⟨misfit, hSurplus⟩ := hSurplus
          rw [setItems, hSurplus] at h
          cases h
      | cons f fields =>
          rw [setItems] at h
          cases hSet : f.set d s with
          | error misfit =>
              rw [hSet] at h
              cases h
          | ok u =>
              rw [hSet] at h
              exact Nat.succ_le_succ (ih h)

/-- A list that is not too long gives a structure its items in the order of the fields. -/
theorem Separate.toStructure_array (hSeparate : Separate fields) {items : List Document}
    (hLength : items.length ≤ fields.length) {form : ListForm} (hForm : form ≠ .never) {name : String}
    {defaults t : σ} :
    (Document.array items).toStructure form name fields defaults = .ok t ↔
      setFound (((fields.map Field.name).zip items).lookup ·) fields defaults = .ok t := by
  rw [← setItems_ok_iff form hLength hSeparate.nodup_names]
  cases form with
  | never => exact absurd rfl hForm
  | exact | counted | lax => rfl

/-! ### What is written -/

/-- A structure is read from the fields of an object. -/
theorem Separate.toStructure_toDocument (hSeparate : Separate fields) (o : Object) {form : ListForm}
    {name : String} {defaults t : σ} :
    o.toJson.toDocument.toStructure form name fields defaults = .ok t ↔
      setFound (fun key => (o.get? key).map Json.toDocument) fields defaults = .ok t := by
  have hLookup : ((Json.fieldsToDocument o.fields).lookup ·) = fun key => (o.get? key).map Json.toDocument :=
    funext (Json.lookup_fieldsToDocument o.fields)
  rw [o.toDocument_toJson, hSeparate.toStructure_object o.nodup_keys_toDocument, hLookup]

theorem lookup_zip_map {α β : Type} (f : α → β) (names : List String) (values : List α) (key : String) :
    (names.zip (values.map f)).lookup key = ((names.zip values).lookup key).map f := by
  induction names generalizing values with
  | nil => rfl
  | cons name names ih =>
      cases values with
      | nil => rfl
      | cons v values =>
          rw [List.map_cons, List.zip_cons_cons, List.zip_cons_cons, List.lookup_cons, List.lookup_cons, ih]
          cases key == name <;> rfl

theorem map_fst_zip_sublist {α : Type} (names : List String) (values : List α) :
    ((names.zip values).map Prod.fst).Sublist names := by
  induction names generalizing values with
  | nil => exact List.Sublist.refl []
  | cons name names ih =>
      cases values with
      | nil => exact List.nil_sublist _
      | cons v values => exact (ih values).cons_cons name

theorem toDocument_array (values : List Value) :
    (Value.array values).json.toDocument = .array (values.map fun v => v.json.toDocument) := by
  rw [Value.array, Json.toDocument]
  refine congrArg Document.array ?_
  induction values with
  | nil => rfl
  | cons v rest ih => rw [List.map_cons, List.map_cons, Json.itemsToDocument, ih]

/-- What is found in an object that is written with the given fields. -/
def foundAmong (written : List (String × Value)) (name : String) : Option Document :=
  (written.lookup name).map fun v => v.json.toDocument

theorem foundAmong_append (written later : List (String × Value)) (name : String) :
    foundAmong (written ++ later) name = (foundAmong written name).or (foundAmong later name) := by
  rw [foundAmong, List.lookup_append, Option.map_or]
  rfl

theorem get?_ofList_eq_foundAmong {written : List (String × Value)} (hKeys : (written.map Prod.fst).Nodup) :
    (fun key => ((Object.ofList written).get? key).map Json.toDocument) = foundAmong written := by
  funext key
  rw [Object.get?_ofList hKeys, Option.map_map]
  rfl

/-- A structure is read from what is written under the names of its fields. -/
theorem Separate.toStructure_ofList (hSeparate : Separate fields) {written : List (String × Value)}
    (hKeys : (written.map Prod.fst).Nodup) {form : ListForm} {name : String} {defaults t : σ} :
    (Object.ofList written).toJson.toDocument.toStructure form name fields defaults = .ok t ↔
      setFound (foundAmong written) fields defaults = .ok t := by
  rw [hSeparate.toStructure_toDocument, get?_ofList_eq_foundAmong hKeys]

/-- A list that is not too long is read like the object that has its items under the names of the fields. -/
theorem Separate.toStructure_list (hSeparate : Separate fields) {values : List Value}
    (hLength : values.length ≤ fields.length) {form : ListForm} (hForm : form ≠ .never) {name : String}
    {defaults t : σ} :
    (Value.array values).json.toDocument.toStructure form name fields defaults = .ok t ↔
      setFound (foundAmong ((fields.map Field.name).zip values)) fields defaults = .ok t := by
  have hFound : (((fields.map Field.name).zip (values.map fun v => v.json.toDocument)).lookup ·) =
      foundAmong ((fields.map Field.name).zip values) := funext (lookup_zip_map _ _ _)
  rw [toDocument_array, hSeparate.toStructure_array (by simpa using hLength) hForm, hFound]

section
variable {α : Type} {found : String → Option Document} {name : String} {fit : Document → Except Misfit α}
  {put : σ → α → σ} {rest : List (Field σ)} {s : σ} {a : α}

/-- What is found under a name gives a value: it fits, or nothing is there and the value is the default. -/
def Gives (found : String → Option Document) (name : String) (fit : Document → Except Misfit α)
    (default a : α) : Prop :=
  (∃ d, found name = some d ∧ fit d = .ok a) ∨ found name = none ∧ a = default

theorem setFound_withDefault {default : α} (h : Gives found name fit default a) (hPut : put s default = s) :
    setFound found (.withDefault name fit put :: rest) s = setFound found rest (put s a) := by
  rcases h with ⟨d, hFound, hFit⟩ | ⟨hFound, rfl⟩
  · simp only [setFound, withDefault, hFound, hFit]
    rfl
  · simp [setFound, withDefault, hFound, hPut]

theorem setFound_needed {d : Document} (hFound : found name = some d) (hFit : fit d = .ok a) :
    setFound found (.needed name fit put :: rest) s = setFound found rest (put s a) := by
  simp only [setFound, needed, withDefault, hFound, hFit]
  rfl

end

end Field

end Stepwise
