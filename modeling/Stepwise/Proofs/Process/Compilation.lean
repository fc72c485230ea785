import Mathlib.Tactic.Common
import Stepwise.Process.Route
import Stepwise.Proofs.Except

/-! What it takes for a description to compile, and what the compiled graph then holds. A description
without structural flaws names its steps, and its edges lead between them or to the end. Compiled edges
stand in the order of the described ones and keep their ends. -/
namespace Stepwise

/-! ### Structure -/

/-- The ends of an edge are declared steps; it may also lead to the end. -/
structure Edge.Declared (steps : Declarations StepSpec) (e : Edge) : Prop where
  source : steps.contains e.source = true
  target : e.target = terminalName ∨ steps.contains e.target = true

/-- What the structure of a description has to be, whatever its conditions. -/
structure Description.WellFormed (d : Description) : Prop where
  start_ne : d.startStep ≠ ""
  steps_ne : d.steps.entries ≠ []
  edges_ne : d.edges ≠ []
  names : ∀ name ∈ d.steps.names, Text.trim name ≠ "" ∧ name ≠ terminalName
  start : d.steps.contains d.startStep = true
  budget : d.header.maxSteps ≠ some 0
  edges : ∀ e ∈ d.edges, e.Declared d.steps

namespace Declarations

variable {α β : Type}

theorem contains_iff_mem_names (d : Declarations α) (name : String) :
    d.contains name = true ↔ name ∈ d.names := by
  unfold contains get? names
  rw [List.lookup_isSome_iff, List.mem_map]
  constructor
  · rintro ⟨e, he, hEq⟩
    exact ⟨e, he, (beq_iff_eq.mp hEq).symm⟩
  · rintro ⟨e, he, rfl⟩
    exact ⟨e, he, beq_self_eq_true _⟩

private theorem lookup_eq_some_iff_mem {entries : List (String × α)} (distinct : (entries.map Prod.fst).Nodup)
    (name : String) (a : α) : entries.lookup name = some a ↔ (name, a) ∈ entries := by
  induction entries with
  | nil => simp
  | cons e rest ih =>
      obtain ⟨n, b⟩ := e
      rw [List.map_cons, List.nodup_cons] at distinct
      rw [List.lookup_cons, List.mem_cons, Prod.mk.injEq, ← ih distinct.2]
      cases hEq : name == n with
      | false =>
          have hNe : name ≠ n := by simpa using hEq
          simp [hNe]
      | true =>
          obtain rfl := beq_iff_eq.mp hEq
          have hRest : rest.lookup name = none := by
            rw [List.lookup_eq_none_iff]
            intro other hOther
            rw [bne_iff_ne]
            exact fun hSame => distinct.1 (List.mem_map.mpr ⟨other, hOther, hSame.symm⟩)
          simp [hRest, eq_comm]

/-- No name is declared twice, so what is declared under a name is what stands there. -/
theorem get?_eq_some_iff (d : Declarations α) (name : String) (a : α) :
    d.get? name = some a ↔ (name, a) ∈ d.entries :=
  lookup_eq_some_iff_mem d.distinct name a

private theorem lookup_map_entries (f : String → α → β) (entries : List (String × α)) (name : String) :
    (entries.map fun e => (e.1, f e.1 e.2)).lookup name = (entries.lookup name).map (f name) := by
  induction entries with
  | nil => rfl
  | cons e rest ih =>
      rw [List.map_cons, List.lookup_cons, List.lookup_cons]
      cases hEq : name == e.1 with
      | false => exact ih
      | true =>
          rw [beq_iff_eq.mp hEq]
          rfl

theorem get?_map (f : String → α → β) (d : Declarations α) (name : String) :
    (d.map f).get? name = (d.get? name).map (f name) :=
  lookup_map_entries f d.entries name

theorem names_map (f : String → α → β) (d : Declarations α) : (d.map f).names = d.names := by
  simp [names, map]

end Declarations

namespace Description

/-- A check passes when its condition fails and the checks after it pass. -/
private theorem check_eq_none_iff {α : Type} {c : Prop} [Decidable c] {flaw : α} {rest : Option α} :
    (if c then some flaw else rest) = none ↔ ¬ c ∧ rest = none := by
  split_ifs with h <;> simp [h]

theorem nameFlaw?_eq_none_iff (name : String) :
    nameFlaw? name = none ↔ Text.trim name ≠ "" ∧ name ≠ terminalName := by
  simp only [nameFlaw?, check_eq_none_iff, String.isEmpty_iff, and_true, ne_eq]

theorem edgeFlaw?_eq_none_iff {steps : Declarations StepSpec}
    (hNames : ∀ name ∈ steps.names, name ≠ terminalName) (index : Nat) (e : Edge) :
    edgeFlaw? steps index e = none ↔ e.Declared steps := by
  simp only [edgeFlaw?, check_eq_none_iff, Bool.not_eq_true', Bool.not_eq_false, and_true, not_and,
    ne_eq]
  constructor
  · rintro ⟨-, hSource, hTarget⟩
    refine ⟨hSource, ?_⟩
    by_cases hEnd : e.target = terminalName
    · exact .inl hEnd
    · exact .inr (hTarget hEnd)
  · intro h
    have hStep : e.source ∈ steps.names := (Declarations.contains_iff_mem_names _ _).mp h.source
    exact ⟨hNames _ hStep, h.source, h.target.resolve_left⟩

theorem edgesFlaw?_eq_none_iff {steps : Declarations StepSpec}
    (hNames : ∀ name ∈ steps.names, name ≠ terminalName) (edges : List Edge) (index : Nat) :
    edgesFlaw? steps index edges = none ↔ ∀ e ∈ edges, e.Declared steps := by
  induction edges generalizing index with
  | nil => simp [edgesFlaw?]
  | cons e rest ih =>
      rw [edgesFlaw?, List.forall_mem_cons, ← ih (index + 1), ← edgeFlaw?_eq_none_iff hNames index e]
      cases edgeFlaw? steps index e <;> simp

/-- Exactly the well-formed descriptions pass the checks of their structure. -/
theorem structuralFlaw?_eq_none_iff (d : Description) :
    d.structuralFlaw? = none ↔ d.WellFormed := by
  have hNames : d.steps.names.findSome? nameFlaw? = none ↔
      ∀ name ∈ d.steps.names, Text.trim name ≠ "" ∧ name ≠ terminalName := by
    rw [List.findSome?_eq_none_iff]
    exact forall₂_congr fun name _ => nameFlaw?_eq_none_iff name
  simp only [structuralFlaw?, check_eq_none_iff, Option.orElse_eq_orElse, Option.orElse_eq_or,
    Option.or_eq_none_iff, hNames, String.isEmpty_iff, Declarations.isEmpty, List.isEmpty_iff,
    Bool.not_eq_true', Bool.not_eq_false]
  constructor
  · rintro ⟨hStart, hSteps, hEdges, hEach, hDeclared, hBudget, hFlaw⟩
    have hReserved : ∀ name ∈ d.steps.names, name ≠ terminalName := fun n hn => (hEach n hn).2
    exact ⟨hStart, hSteps, hEdges, hEach, hDeclared, hBudget,
      (edgesFlaw?_eq_none_iff hReserved d.edges 0).mp hFlaw⟩
  · intro h
    have hReserved : ∀ name ∈ d.steps.names, name ≠ terminalName := fun n hn => (h.names n hn).2
    exact ⟨h.start_ne, h.steps_ne, h.edges_ne, h.names, h.start, h.budget,
      (edgesFlaw?_eq_none_iff hReserved d.edges 0).mpr h.edges⟩

end Description

/-! ### Conditions -/

namespace Condition

/-- A compiled condition keeps its trimmed text, and it is empty when there is none. -/
theorem compile_ok {text : String} {c : Condition} (h : compile text = .ok c) :
    c.source = Text.trim text ∧ c.isEmpty = (Text.trim text).isEmpty := by
  unfold compile at h
  dsimp only at h
  split_ifs at h with hBlank
  · cases h
    rw [List.isEmpty_iff] at hBlank
    simp [Text.trim, hBlank, never, isEmpty]
  · obtain ⟨tokens, -, h⟩ := bind_eq_ok_iff.mp h
    obtain ⟨expr, -, h⟩ := bind_eq_ok_iff.mp h
    cases h
    rw [List.isEmpty_iff] at hBlank
    refine ⟨rfl, ?_⟩
    simpa [Text.trim, isEmpty] using hBlank

theorem holds_of_isEmpty {c : Condition} (h : c.isEmpty = true) (s : State) : c.holds s = false := by
  unfold holds
  rw [Option.isNone_iff_eq_none.mp h]

end Condition

/-! ### Edges -/

namespace CompiledEdge

/-- A compiled edge keeps its place and its ends. -/
theorem compile_ok {index : Nat} {e : Edge} {c : CompiledEdge} (h : compile index e = .ok c) :
    c.index = index ∧ c.source = e.source ∧ c.target = .ofName e.target := by
  unfold compile at h
  split at h
  · cases h
    exact ⟨rfl, rfl, rfl⟩
  · split at h
    · cases h
      exact ⟨rfl, rfl, rfl⟩
    · cases h

theorem condition_eq_none {index : Nat} {e : Edge} {c : CompiledEdge} (h : compile index e = .ok c)
    (hNone : e.condition = none) : c.condition = none := by
  rw [compile, hNone] at h
  cases h
  rfl

theorem condition_eq_some {index : Nat} {e : Edge} {c : CompiledEdge} {text : String}
    (h : compile index e = .ok c) (hSome : e.condition = some text) :
    ∃ condition, Condition.compile text = .ok condition ∧ c.condition = some condition := by
  rw [compile, hSome] at h
  dsimp only at h
  split at h
  · rename_i condition hCompile
    cases h
    exact ⟨condition, hCompile, rfl⟩
  · cases h

theorem compileAll_nil {index : Nat} {cs : List CompiledEdge} (h : compileAll index [] = .ok cs) :
    cs = [] := by
  cases h
  rfl

theorem compileAll_cons {index : Nat} {e : Edge} {rest : List Edge} {cs : List CompiledEdge}
    (h : compileAll index (e :: rest) = .ok cs) :
    ∃ c cs', cs = c :: cs' ∧ compile index e = .ok c ∧ compileAll (index + 1) rest = .ok cs' := by
  rw [compileAll] at h
  obtain ⟨c, hFirst, h⟩ := bind_eq_ok_iff.mp h
  obtain ⟨cs', hRest, h⟩ := bind_eq_ok_iff.mp h
  cases h
  exact ⟨c, cs', rfl, hFirst, hRest⟩

end CompiledEdge

/-! ### Graphs -/

namespace Graph

/-- A compiled graph comes from a well-formed description whose conditions compile; every step has the
route that the compiled edges give it. -/
structure Compiled (d : Description) (g : Graph) (done : Condition) (edges : List CompiledEdge) :
    Prop where
  wellFormed : d.WellFormed
  doneCompiles : compileDone d = .ok done
  edgesCompile : CompiledEdge.compileAll 0 d.edges = .ok edges
  start : g.start = d.startStep
  done : g.done = done
  maxSteps : g.maxSteps = d.header.maxSteps
  nodes : g.nodes = d.steps.map fun step spec => ⟨spec, .ofEdges edges step⟩

theorem compile_ok {d : Description} {strict : Bool} {g : Graph} (h : compile d strict = .ok g) :
    ∃ done edges, Compiled d g done edges := by
  unfold compile at h
  dsimp only at h
  split at h
  · cases h
  · rename_i hFlaw
    obtain ⟨done, hDone, h⟩ := bind_eq_ok_iff.mp h
    obtain ⟨edges, hEdges, h⟩ := bind_eq_ok_iff.mp h
    have hFlaw : d.structuralFlaw? = none := Option.eq_none_iff_forall_ne_some.mpr hFlaw
    have hWell := d.structuralFlaw?_eq_none_iff.mp hFlaw
    refine ⟨done, edges, ?_⟩
    -- Strict or not, a graph that is returned is the same one.
    split_ifs at h
    · split at h
      · cases h
      · cases h
        exact ⟨hWell, hDone, hEdges, rfl, rfl, rfl, rfl⟩
    · cases h
      exact ⟨hWell, hDone, hEdges, rfl, rfl, rfl, rfl⟩

variable {d : Description} {g : Graph} {done : Condition} {edges : List CompiledEdge}

theorem Compiled.contains_eq (h : Compiled d g done edges) (name : String) :
    g.nodes.contains name = d.steps.contains name := by
  rw [h.nodes, Declarations.contains, Declarations.get?_map, Option.isSome_map]
  rfl

theorem Compiled.spec?_eq (h : Compiled d g done edges) (name : String) :
    (g.nodes.get? name).map Node.spec = d.steps.get? name := by
  rw [h.nodes, Declarations.get?_map, Option.map_map]
  exact Option.map_id'

theorem Compiled.route?_eq (h : Compiled d g done edges) (step : String) :
    g.route? step = if d.steps.contains step then some (.ofEdges edges step) else none := by
  rw [Graph.route?, h.nodes, Declarations.get?_map]
  cases hGet : d.steps.get? step <;> simp [Declarations.contains, hGet]

end Graph

end Stepwise
