import Mathlib.Data.List.Perm.Basic
import Stepwise.Proofs.Process.Rearrangement

/-! Reading the steps of a description. They are declared in the order of the document; if another document
lists the same steps in another order, as a value with sorted keys does for a text, then the two describe
rearranged processes. -/
namespace Stepwise

namespace Declarations

variable {α : Type}

theorem insertEntry_of_not_mem {name : String} {a : α} {entries : List (String × α)}
    (h : name ∉ entries.map Prod.fst) : insertEntry name a entries = entries ++ [(name, a)] := by
  induction entries with
  | nil => rfl
  | cons e rest ih =>
      obtain ⟨n, b⟩ := e
      rw [List.map_cons, List.mem_cons, not_or] at h
      rw [insertEntry, if_neg (Ne.symm h.1), ih h.2, List.cons_append]

end Declarations

namespace Field

variable {σ : Type} {fields : List (Field σ)}

theorem setEntries_append (entries later : List (String × Document)) (seen : List String) (s : σ) :
    setEntries fields seen s (entries ++ later) =
      setEntries fields seen s entries >>= fun set => setEntries fields set.2 set.1 later := by
  induction entries generalizing seen s with
  | nil => rfl
  | cons entry rest ih =>
      obtain ⟨key, d⟩ := entry
      rw [List.cons_append, setEntries, setEntries]
      cases fields.find? (answersTo · key) with
      | none => exact ih seen s
      | some f =>
          dsimp only
          split_ifs
          · rfl
          · cases f.set d s with
            | error misfit => rfl
            | ok s' => exact ih (f.name :: seen) s'

/-- A relation is kept by all entries if every field keeps it but one that is set already. -/
theorem setEntries_related {R : σ → σ → Prop} {barred : String}
    (hSet : ∀ f ∈ fields, f.name ≠ barred → ∀ d s s' t, R s s' → f.set d s = .ok t →
      ∃ t', f.set d s' = .ok t' ∧ R t t')
    {entries : List (String × Document)} : ∀ {seen : List String} {s s' : σ} {t : σ × List String},
      barred ∈ seen → R s s' → setEntries fields seen s entries = .ok t →
        ∃ t', setEntries fields seen s' entries = .ok (t', t.2) ∧ R t.1 t' := by
  induction entries with
  | nil =>
      intro seen s s' t _ hRelated h
      cases h
      exact ⟨s', rfl, hRelated⟩
  | cons entry rest ih =>
      obtain ⟨key, d⟩ := entry
      intro seen s s' t hBarred hRelated h
      rw [setEntries] at h ⊢
      cases hFind : fields.find? (answersTo · key) with
      | none =>
          rw [hFind] at h
          exact ih hBarred hRelated h
      | some f =>
          rw [hFind] at h
          dsimp only at h ⊢
          split_ifs at h ⊢ with hSeen
          have hOther : f.name ≠ barred := by
            rintro rfl
            exact hSeen (List.contains_iff_mem.mpr hBarred)
          cases hFirst : f.set d s with
          | error misfit =>
              rw [hFirst] at h
              cases h
          | ok u =>
              rw [hFirst] at h
              obtain ⟨u', hFirst', hNext⟩ :=
                hSet f (List.mem_of_find?_eq_some hFind) hOther d s s' u hRelated hFirst
              rw [hFirst']
              exact ih (List.mem_cons_of_mem _ hBarred) hNext h

/-- What is fitted goes into either side alike. -/
theorem put_related {α : Type} {R : σ → σ → Prop} {x : Except Misfit α} {put put' : α → σ} {t : σ}
    (h : x.map put = .ok t) (hPut : ∀ a, R (put a) (put' a)) : ∃ t', x.map put' = .ok t' ∧ R t t' := by
  cases x with
  | error misfit => cases h
  | ok a =>
      cases h
      exact ⟨_, rfl, hPut a⟩

end Field

namespace Description

/-- A declaration is what an entry of a document says. -/
def Declares (entry : String × Document) (declared : String × StepSpec) : Prop :=
  entry.1 = declared.1 ∧ StepSpec.ofDocument entry.2 = .ok declared.2

theorem map_fst_of_declares {listed : List (String × Document)} {declared : List (String × StepSpec)}
    (h : List.Forall₂ Declares listed declared) : declared.map Prod.fst = listed.map Prod.fst := by
  induction h with
  | nil => rfl
  | cons hFirst _ ih => rw [List.map_cons, List.map_cons, ih, hFirst.1]

/-- Steps that are listed once each are declared in the order in which they are listed. -/
theorem addSteps_ok_iff {listed : List (String × Document)} (hDistinct : (listed.map Prod.fst).Nodup) :
    ∀ {steps all : Declarations StepSpec}, (∀ name ∈ listed.map Prod.fst, name ∉ steps.names) →
      (addSteps steps listed = .ok all ↔
        ∃ declared, all.entries = steps.entries ++ declared ∧ List.Forall₂ Declares listed declared) := by
  induction listed with
  | nil =>
      intro steps all _
      simp only [addSteps, List.forall₂_nil_left_iff, exists_eq_right, List.append_nil]
      constructor
      · intro h
        cases h
        rfl
      · intro h
        obtain ⟨entries, distinct⟩ := all
        subst h
        rfl
  | cons entry rest ih =>
      obtain ⟨name, d⟩ := entry
      intro steps all hFresh
      rw [List.map_cons, List.nodup_cons] at hDistinct
      rw [List.map_cons, List.forall_mem_cons] at hFresh
      have hFreshRest : ∀ spec, ∀ n ∈ rest.map Prod.fst, n ∉ (steps.insert name spec).names := by
        intro spec n hn hMem
        rcases Declarations.mem_names_insertEntry.mp hMem with rfl | hMem
        · exact hDistinct.1 hn
        · exact hFresh.2 n hn hMem
      have hInsert : ∀ spec, (steps.insert name spec).entries = steps.entries ++ [(name, spec)] :=
        fun spec => Declarations.insertEntry_of_not_mem hFresh.1
      constructor
      · intro h
        obtain ⟨spec, hSpec, h⟩ := bind_eq_ok_iff.mp h
        obtain ⟨declared, hEntries, hRest⟩ := (ih hDistinct.2 (hFreshRest spec)).mp h
        rw [hInsert, List.append_assoc] at hEntries
        exact ⟨_, hEntries, .cons ⟨rfl, hSpec⟩ hRest⟩
      · rintro ⟨declared, hEntries, hAll⟩
        obtain ⟨⟨_, spec⟩, declared, ⟨rfl, hSpec⟩, hRest, rfl⟩ := List.forall₂_cons_left_iff.mp hAll
        refine bind_eq_ok_iff.mpr ⟨spec, hSpec, (ih hDistinct.2 (hFreshRest spec)).mpr ?_⟩
        exact ⟨declared, by rw [hInsert, List.append_assoc]; exact hEntries, hRest⟩

theorem names_of_addSteps {listed : List (String × Document)} {steps : Declarations StepSpec}
    (hDistinct : (listed.map Prod.fst).Nodup) (h : addSteps .empty listed = .ok steps) :
    steps.names = listed.map Prod.fst := by
  obtain ⟨declared, hEntries, hAll⟩ := (addSteps_ok_iff hDistinct (fun _ _ => List.not_mem_nil)).mp h
  rw [Declarations.names, hEntries]
  exact map_fst_of_declares hAll

/-- Steps that are listed in another order are the same steps. -/
theorem exists_addSteps_of_perm {listed listed' : List (String × Document)} {steps : Declarations StepSpec}
    (hDistinct : (listed.map Prod.fst).Nodup) (hPerm : listed.Perm listed')
    (h : addSteps .empty listed = .ok steps) :
    ∃ steps', addSteps .empty listed' = .ok steps' ∧
      ∀ entry, entry ∈ steps.entries ↔ entry ∈ steps'.entries := by
  have hDistinct' : (listed'.map Prod.fst).Nodup := (hPerm.map Prod.fst).nodup_iff.mp hDistinct
  obtain ⟨declared, hEntries, hAll⟩ := (addSteps_ok_iff hDistinct (fun _ _ => List.not_mem_nil)).mp h
  obtain ⟨declared', hAll', hPerm'⟩ := List.perm_comp_forall₂ hPerm.symm hAll
  have hNames : (declared'.map Prod.fst).Nodup := by rwa [map_fst_of_declares hAll']
  refine ⟨⟨declared', hNames⟩,
    (addSteps_ok_iff hDistinct' (fun _ _ => List.not_mem_nil)).mpr ⟨declared', rfl, hAll'⟩, ?_⟩
  intro entry
  rw [hEntries]
  exact hPerm'.mem_iff.symm

/-- Rearranged descriptions, each with its steps in the order of a document. -/
structure ListedAs (listed listed' : List (String × Document)) (a b : Description) : Prop where
  rearranged : a.Rearranged b
  names : a.steps.names = listed.map Prod.fst
  names' : b.steps.names = listed'.map Prod.fst

/-- What is read beside the steps goes into either arrangement alike. -/
theorem ListedAs.set {listed listed' : List (String × Document)} {form : ListForm} :
    ∀ f ∈ fields form, f.name ≠ "steps" → ∀ d (a b a' : Description), ListedAs listed listed' a b →
      f.set d a = .ok a' → ∃ b', f.set d b = .ok b' ∧ ListedAs listed listed' a' b' := by
  intro f hf hOther d a b a' h hSet
  simp only [fields, List.mem_cons, List.not_mem_nil, or_false] at hf
  rcases hf with rfl | rfl | rfl
  · refine Field.put_related hSet fun _ => ⟨⟨rfl, ?_, ?_⟩, h.names, h.names'⟩
    · exact h.rearranged.steps
    · exact h.rearranged.edges
  · exact absurd rfl hOther
  · refine Field.put_related hSet fun _ => ⟨⟨?_, ?_, fun _ => rfl⟩, h.names, h.names'⟩
    · exact h.rearranged.header
    · exact h.rearranged.steps

theorem exists_stepsField (form : ListForm) :
    ∃ f, (fields form).find? (fun f => f.answersTo "steps") = some f ∧ f.name = "steps" ∧
      ∀ listed d, f.set (.object listed) d =
        (addSteps .empty listed).map fun steps => { d with steps } := by
  refine ⟨((fields form).tail.head (by simp [fields])), ?_, rfl, fun _ _ => rfl⟩
  simp [fields, Field.answersTo, Field.orNamed, Field.reaching, Field.withDefault]

theorem setEntries_steps (form : ListForm) (seen : List String) (d : Description)
    (listed after : List (String × Document)) :
    Field.setEntries (fields form) seen d (("steps", .object listed) :: after) =
      if seen.contains "steps" then .error (.duplicateField "steps")
      else addSteps .empty listed >>= fun steps =>
        Field.setEntries (fields form) ("steps" :: seen) { d with steps } after := by
  obtain ⟨f, hFind, hName, hSet⟩ := exists_stepsField form
  rw [Field.setEntries, hFind]
  dsimp only
  rw [hName, hSet]
  cases addSteps .empty listed <;> rfl

/-- Documents that list the steps in different orders describe rearranged processes. -/
theorem exists_listedAs_of_ofDocument {form : ListForm} {before after : List (String × Document)}
    {listed listed' : List (String × Document)} {a : Description}
    (hDistinct : (listed.map Prod.fst).Nodup) (hPerm : listed.Perm listed')
    (h : ofDocument form (.object (before ++ ("steps", .object listed) :: after)) = .ok a) :
    ∃ b, ofDocument form (.object (before ++ ("steps", .object listed') :: after)) = .ok b ∧
      ListedAs listed listed' a b := by
  have hDocument : ∀ entries, ofDocument form (.object entries) =
      Field.setEntries (fields form) [] (startingAt "") entries >>= fun set =>
        match (fields form).find? fun f => f.required && !set.2.contains f.name with
        | some f => throw (.missingField f.name)
        | none => return set.1 := fun _ => rfl
  rw [hDocument, Field.setEntries_append] at h ⊢
  obtain ⟨set, hSet, h⟩ := bind_eq_ok_iff.mp h
  obtain ⟨⟨s, seen⟩, hBefore, hSet⟩ := bind_eq_ok_iff.mp hSet
  rw [setEntries_steps] at hSet
  split_ifs at hSet with hSeen
  obtain ⟨steps, hSteps, hSet⟩ := bind_eq_ok_iff.mp hSet
  obtain ⟨steps', hSteps', hSame⟩ := exists_addSteps_of_perm hDistinct hPerm hSteps
  have hDistinct' : (listed'.map Prod.fst).Nodup := (hPerm.map Prod.fst).nodup_iff.mp hDistinct
  have hListed : ListedAs listed listed' { s with steps } { s with steps := steps' } :=
    ⟨⟨rfl, hSame, fun _ => rfl⟩, names_of_addSteps hDistinct hSteps, names_of_addSteps hDistinct' hSteps'⟩
  obtain ⟨b, hAfter, hBoth⟩ := Field.setEntries_related ListedAs.set List.mem_cons_self hListed hSet
  have hSet' : Field.setEntries (fields form) seen s (("steps", .object listed') :: after) =
      .ok (b, set.2) := by
    rw [setEntries_steps, if_neg hSeen, hSteps']
    exact hAfter
  refine ⟨b, bind_eq_ok_iff.mpr ⟨(b, set.2), bind_eq_ok_iff.mpr ⟨(s, seen), hBefore, hSet'⟩, ?_⟩, ?_⟩
  · split at h
    · cases h
    · rfl
  · split at h
    · cases h
    · cases h
      exact hBoth

end Description

end Stepwise
