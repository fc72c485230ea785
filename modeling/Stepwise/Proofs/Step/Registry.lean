import Stepwise.Step.Build
import Stepwise.Proofs.Process.Compilation

/-! What building the steps of a process gives. A registry holds the declared names and no others, under each
name the step that its declaration makes, and what goes wrong is a flaw of the description. -/
namespace Stepwise

namespace Declarations

variable {α : Type}

theorem mem_names_insert {d : Declarations α} {name n : String} {a : α} :
    n ∈ (d.insert name a).names ↔ n = name ∨ n ∈ d.names :=
  mem_names_insertEntry

private theorem lookup_insertEntry (name : String) (a : α) (entries : List (String × α)) (n : String) :
    (insertEntry name a entries).lookup n = if n = name then some a else entries.lookup n := by
  induction entries with
  | nil => by_cases hSame : n = name <;> simp [insertEntry, List.lookup_cons, beq_eq_decide, hSame]
  | cons e rest ih =>
      obtain ⟨m, b⟩ := e
      rw [insertEntry]
      by_cases hFound : m = name
      · subst hFound
        by_cases hSame : n = m <;> simp [List.lookup_cons, beq_eq_decide, hSame]
      · rw [if_neg hFound, List.lookup_cons, List.lookup_cons, ih]
        by_cases hSame : n = m
        · subst hSame
          simp [hFound]
        · simp [beq_eq_decide, hSame]

theorem get?_insert (d : Declarations α) (name : String) (a : α) (n : String) :
    (d.insert name a).get? n = if n = name then some a else d.get? n :=
  lookup_insertEntry name a d.entries n

end Declarations

namespace Workshop

variable {W : Type} {shop : Workshop W}

theorem mem_names_of_buildAll {entries : List (String × StepSpec)} :
    ∀ {steps built : Steps W}, shop.buildAll steps entries = .ok built → ∀ n,
      n ∈ built.names ↔ n ∈ steps.names ∨ n ∈ entries.map Prod.fst := by
  induction entries with
  | nil =>
      intro steps built h n
      cases h
      simp
  | cons entry rest ih =>
      obtain ⟨name, spec⟩ := entry
      intro steps built h n
      obtain ⟨step, -, hRest⟩ := bind_eq_ok_iff.mp h
      rw [ih hRest, Declarations.mem_names_insert, List.map_cons, List.mem_cons]
      exact or_assoc.trans or_left_comm

/-- Building is building every step of the graph. -/
theorem build_ok_iff {g : Graph} {built : Steps W} :
    shop.build g = .ok built ↔
      shop.buildAll .empty (g.nodes.map fun _ node => node.spec).entries = .ok built := by
  unfold build
  cases shop.buildAll .empty (g.nodes.map fun _ node => node.spec).entries <;>
    simp [Except.mapError]

/-- A registry that is built holds exactly the declared steps. -/
theorem mem_names_of_build {g : Graph} {built : Steps W} (h : shop.build g = .ok built) (n : String) :
    n ∈ built.names ↔ n ∈ g.nodes.names := by
  have hNames := Declarations.names_map (fun _ node => node.spec) g.nodes
  rw [mem_names_of_buildAll (build_ok_iff.mp h), ← hNames]
  simp [Declarations.names, Declarations.empty]

theorem build_error {g : Graph} {e : Error} (h : shop.build g = .error e) :
    ∃ flaw, e = .invalid flaw := by
  unfold build at h
  cases hAll : shop.buildAll .empty (g.nodes.map fun _ node => node.spec).entries with
  | error flaw =>
      rw [hAll] at h
      cases h
      exact ⟨flaw, rfl⟩
  | ok steps =>
      rw [hAll] at h
      cases h

/-! ### What stands under a name -/

theorem exists_buildAll_iff {entries : List (String × StepSpec)} : ∀ {steps : Steps W},
    (∃ built, shop.buildAll steps entries = .ok built) ↔
      ∀ entry ∈ entries, ∃ step, shop.buildStep entry.1 entry.2 = .ok step := by
  induction entries with
  | nil => exact fun {steps} => iff_of_true ⟨steps, rfl⟩ nofun
  | cons entry rest ih =>
      intro steps
      rw [List.forall_mem_cons]
      constructor
      · rintro ⟨built, h⟩
        obtain ⟨step, hStep, hRest⟩ := bind_eq_ok_iff.mp h
        exact ⟨⟨step, hStep⟩, ih.mp ⟨built, hRest⟩⟩
      · rintro ⟨⟨step, hStep⟩, hAll⟩
        obtain ⟨built, hRest⟩ := ih.mpr hAll
        exact ⟨built, bind_eq_ok_iff.mpr ⟨step, hStep, hRest⟩⟩

/-- What is built under a name that is declared once is the step of that declaration. -/
theorem get?_of_buildAll {entries : List (String × StepSpec)} : ∀ {steps built : Steps W},
    shop.buildAll steps entries = .ok built → (entries.map Prod.fst).Nodup →
      (∀ name spec, (name, spec) ∈ entries →
        ∃ step, shop.buildStep name spec = .ok step ∧ built.get? name = some step) ∧
      ∀ name, name ∉ entries.map Prod.fst → built.get? name = steps.get? name := by
  induction entries with
  | nil =>
      intro steps built h _
      cases h
      exact ⟨nofun, fun _ _ => rfl⟩
  | cons entry rest ih =>
      obtain ⟨first, firstSpec⟩ := entry
      intro steps built h hDistinct
      rw [List.map_cons, List.nodup_cons] at hDistinct
      obtain ⟨firstStep, hFirst, hRest⟩ := bind_eq_ok_iff.mp h
      obtain ⟨hBuilt, hOther⟩ := ih hRest hDistinct.2
      refine ⟨fun name spec hMem => ?_, fun name hName => ?_⟩
      · rcases List.mem_cons.mp hMem with hHere | hLater
        · cases hHere
          refine ⟨firstStep, hFirst, ?_⟩
          rw [hOther _ hDistinct.1, Declarations.get?_insert, if_pos rfl]
        · exact hBuilt name spec hLater
      · rw [List.map_cons, List.mem_cons, not_or] at hName
        rw [hOther name hName.2, Declarations.get?_insert, if_neg hName.1]

theorem mem_specs {g : Graph} {name : String} {spec : StepSpec} :
    (name, spec) ∈ (g.nodes.map fun _ node => node.spec).entries ↔
      (g.nodes.get? name).map Node.spec = some spec := by
  rw [← Declarations.get?_eq_some_iff, Declarations.get?_map]

/-- A process can be built when each of its steps can. -/
theorem exists_build_iff {g : Graph} : (∃ built, shop.build g = .ok built) ↔
    ∀ name spec, (g.nodes.get? name).map Node.spec = some spec →
      ∃ step, shop.buildStep name spec = .ok step := by
  simp only [build_ok_iff, exists_buildAll_iff, Prod.forall, mem_specs]

/-- The step under a declared name is built from its declaration, and from nothing else. -/
theorem get?_of_build {g : Graph} {built : Steps W} (h : shop.build g = .ok built) {name : String}
    {spec : StepSpec} (hSpec : (g.nodes.get? name).map Node.spec = some spec) :
    ∃ step, shop.buildStep name spec = .ok step ∧ built.get? name = some step :=
  (get?_of_buildAll (build_ok_iff.mp h) (g.nodes.map _).distinct).1 name spec (mem_specs.mpr hSpec)

end Workshop

end Stepwise
