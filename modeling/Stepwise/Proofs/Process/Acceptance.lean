import Mathlib.Data.List.Enum
import Stepwise.Proofs.Process.EdgeFindings
import Stepwise.Proofs.Process.Reachability

/-! Which descriptions compile, and what an error blames. What a description has to pass is a list of checks;
an error is about the first of them that fails, and names its part and the fault of its condition. -/
namespace Stepwise

/-! ### Checks in a row -/

/-- A way to be wrong for a part of a description: with a fault, if the part is a condition that does not
compile, and without one otherwise. -/
structure Check where
  element : Element
  fails : Option Guard.Fault → Prop

namespace Check

def of (element : Element) (wrong : Prop) : Check :=
  ⟨element, fun fault? => fault? = none ∧ wrong⟩

/-- The check that a text compiles, if there is one. -/
def condition (element : Element) (text? : Option String) : Check :=
  ⟨element, fun fault? => ∃ text, text? = some text ∧
    ∃ fault, Condition.compile text = .error fault ∧ fault? = some fault⟩

def Passes (c : Check) : Prop := ∀ fault?, ¬ c.fails fault?

theorem passes_of {element : Element} {wrong : Prop} : (of element wrong).Passes ↔ ¬ wrong := by
  simp [Passes, of]

theorem passes_condition {element : Element} {text? : Option String} :
    (condition element text?).Passes ↔ ∀ text, text? = some text → ∃ c, Condition.compile text = .ok c := by
  constructor
  · intro h text hText
    cases hCompile : Condition.compile text with
    | ok c => exact ⟨c, rfl⟩
    | error fault => exact absurd ⟨text, hText, fault, hCompile, rfl⟩ (h (some fault))
  · rintro h fault? ⟨text, hText, fault, hCompile, -⟩
    obtain ⟨c, hOk⟩ := h text hText
    rw [hOk] at hCompile
    cases hCompile

end Check

/-- The checks before one pass, and that one fails. -/
def FirstFailure (checks : List Check) (element : Element) (fault? : Option Guard.Fault) : Prop :=
  ∃ before check after, checks = before ++ check :: after ∧ (∀ c ∈ before, c.Passes) ∧
    check.element = element ∧ check.fails fault?

namespace FirstFailure

variable {checks : List Check} {element : Element} {fault? : Option Guard.Fault}

theorem not_all (h : FirstFailure checks element fault?) : ¬ ∀ c ∈ checks, c.Passes := by
  obtain ⟨before, check, after, rfl, -, -, hFails⟩ := h
  exact fun hAll => hAll check (by simp) fault? hFails

theorem head {check : Check} (h : check.fails fault?) :
    FirstFailure (check :: checks) check.element fault? :=
  ⟨[], check, checks, rfl, nofun, rfl, h⟩

theorem append (h : FirstFailure checks element fault?) (later : List Check) :
    FirstFailure (checks ++ later) element fault? := by
  obtain ⟨before, check, after, rfl, hBefore, hCheck⟩ := h
  exact ⟨before, check, after ++ later, by simp, hBefore, hCheck⟩

theorem prepend {earlier : List Check} (hEarlier : ∀ c ∈ earlier, c.Passes)
    (h : FirstFailure checks element fault?) : FirstFailure (earlier ++ checks) element fault? := by
  obtain ⟨before, check, after, rfl, hBefore, hCheck⟩ := h
  exact ⟨earlier ++ before, check, after, by simp, List.forall_mem_append.mpr ⟨hEarlier, hBefore⟩, hCheck⟩

end FirstFailure

/-- The part of a description that an error blames, with the fault if it is a condition. -/
def Error.blamed? : Error → Option (Element × Option Guard.Fault)
  | .invalid flaw => some (flaw.element, none)
  | .invalidCondition element fault => some (element, some fault)
  | _ => none

/-- A computation succeeds when all checks pass; otherwise it blames the first that fails. -/
inductive Judged {α : Type} (checks : List Check) : Except Error α → Prop
  | accepted {a : α} (hAll : ∀ c ∈ checks, c.Passes) : Judged checks (.ok a)
  | refused {e : Error} {element : Element} {fault? : Option Guard.Fault}
      (hBlamed : e.blamed? = some (element, fault?)) (hFirst : FirstFailure checks element fault?) :
      Judged checks (.error e)

/-- Fail with a flaw, if there is one. -/
def failWith : Option Flaw → Except Error Unit
  | some flaw => .error (.invalid flaw)
  | none => .ok ()

theorem failWith_eq_ok_iff {flaw? : Option Flaw} {u : Unit} : failWith flaw? = .ok u ↔ flaw? = none := by
  cases flaw? <;> simp [failWith]

namespace Judged

variable {α β : Type} {checks later : List Check}

theorem ok (a : α) : Judged [] (.ok a) := .accepted nofun

/-- Checks that pass may stand ahead. -/
theorem prepend {x : Except Error α} (h : Judged later x) (hAll : ∀ c ∈ checks, c.Passes) :
    Judged (checks ++ later) x := by
  cases h with
  | refused hBlamed hFirst => exact .refused hBlamed (hFirst.prepend hAll)
  | accepted hLater => exact .accepted (List.forall_mem_append.mpr ⟨hAll, hLater⟩)

theorem pass {element : Element} {wrong : Prop} {x : Except Error α} (hRight : ¬ wrong)
    (h : Judged checks x) : Judged (.of element wrong :: checks) x :=
  h.prepend (List.forall_mem_singleton.mpr (Check.passes_of.mpr hRight))

theorem bind {x : Except Error α} {f : α → Except Error β} (h : Judged checks x)
    (hNext : ∀ a, x = .ok a → (∀ c ∈ checks, c.Passes) → Judged later (f a)) :
    Judged (checks ++ later) (x >>= f) := by
  cases h with
  | refused hBlamed hFirst => exact .refused hBlamed (hFirst.append later)
  | @accepted a hAll => exact (hNext a rfl hAll).prepend hAll

theorem exists_ok_iff {x : Except Error α} (h : Judged checks x) :
    (∃ a, x = .ok a) ↔ ∀ c ∈ checks, c.Passes := by
  cases h with
  | refused hBlamed hFirst => exact iff_of_false nofun hFirst.not_all
  | @accepted a hAll => exact iff_of_true ⟨a, rfl⟩ hAll

theorem error_inv {e : Error} (h : Judged checks (.error e : Except Error α)) :
    ∃ element fault?, e.blamed? = some (element, fault?) ∧ FirstFailure checks element fault? := by
  cases h with
  | refused hBlamed hFirst => exact ⟨_, _, hBlamed, hFirst⟩

theorem or {a b : Option Flaw} (h : Judged checks (failWith a))
    (hNext : (∀ c ∈ checks, c.Passes) → Judged later (failWith b)) :
    Judged (checks ++ later) (failWith (a.or b)) := by
  have hOr : failWith (a.or b) = failWith a >>= fun _ => failWith b := by cases a <;> rfl
  rw [hOr]
  exact h.bind fun _ _ => hNext

/-- One check, made by a test, and those after it. -/
theorem test {c wrong : Prop} [Decidable c] {flaw : Flaw} {element : Element} {rest : Option Flaw}
    (hWrong : c ↔ wrong) (hElement : flaw.element = element)
    (hRest : ¬ wrong → Judged checks (failWith rest)) :
    Judged (.of element wrong :: checks) (failWith (if c then some flaw else rest)) := by
  by_cases h : c
  · rw [if_pos h]
    exact .refused (congrArg (fun part => some (part, none)) hElement) (.head ⟨rfl, hWrong.mp h⟩)
  · have hRight : ¬ wrong := mt hWrong.mpr h
    rw [if_neg h]
    exact .pass hRight (hRest hRight)

theorem findSome? {checksOf : α → List Check} {flaw? : α → Option Flaw} {as : List α}
    (h : ∀ a ∈ as, Judged (checksOf a) (failWith (flaw? a))) :
    Judged (as.flatMap checksOf) (failWith (as.findSome? flaw?)) := by
  induction as with
  | nil => exact .ok ()
  | cons a rest ih =>
      rw [List.forall_mem_cons] at h
      rw [List.flatMap_cons, List.findSome?_cons]
      have hOr := h.1.or fun _ => ih h.2
      cases hFlaw : flaw? a <;> simpa [hFlaw] using hOr

theorem map {x : Except Error α} (h : Judged checks x) (f : α → β) :
    Judged checks (x >>= fun a => pure (f a)) := by
  cases h with
  | refused hBlamed hFirst => exact .refused hBlamed hFirst
  | accepted hAll => exact .accepted hAll

theorem condition_ok {element : Element} {text? : Option String}
    (h : ∀ text, text? = some text → ∃ c, Condition.compile text = .ok c) (a : α) :
    Judged [.condition element text?] (.ok a) :=
  .accepted (List.forall_mem_singleton.mpr (Check.passes_condition.mpr h))

theorem condition_error {element : Element} {text : String} {fault : Guard.Fault}
    (h : Condition.compile text = .error fault) :
    Judged [.condition element (some text)] (.error (.invalidCondition element fault) : Except Error α) :=
  .refused rfl (.head ⟨text, rfl, fault, h, rfl⟩)

end Judged

/-! ### The checks of a description -/

namespace Description

/-- The ends of every edge, in order. -/
def edgeChecks (d : Description) : List Check :=
  d.edges.zipIdx.flatMap fun (e, i) =>
    [.of (.edgeSource i) (d.steps.contains e.source = false),
      .of (.edgeTarget i) (e.target ≠ terminalName ∧ d.steps.contains e.target = false)]

def nameChecks (d : Description) : List Check :=
  d.steps.names.flatMap fun name =>
    [.of .steps (Text.trim name = ""), .of (.step terminalName) (name = terminalName)]

def structuralChecks (d : Description) : List Check :=
  .of .start (d.startStep = "") :: .of .steps (d.steps.entries = []) :: .of .edges (d.edges = []) ::
    (d.nameChecks ++ .of .start (d.steps.contains d.startStep = false) ::
      .of .maxSteps (d.header.maxSteps = some 0) :: d.edgeChecks)

def conditionChecks (d : Description) : List Check :=
  .condition .doneCondition d.header.doneCondition ::
    d.edges.zipIdx.map fun (e, i) => .condition (.edgeCondition i) e.condition

/-- That an edge has an effect: its condition is not blank, and without one it is the first such edge of its
step. -/
def effectChecksOf (edges : List Edge) (i : Nat) (e : Edge) : List Check :=
  [.of (.edgeCondition i) (∃ text, e.condition = some text ∧ Text.trim text = ""),
    .of (.edge i) (e.condition = none ∧
      ∃ earlier ∈ edges.take i, earlier.source = e.source ∧ earlier.condition = none)]

def effectChecks (d : Description) : List Check :=
  d.edges.zipIdx.flatMap fun (e, i) => effectChecksOf d.edges i e

/-- Everything that is checked, in the order in which it is. -/
def checks (d : Description) (strict : Bool) : List Check :=
  d.structuralChecks ++ (d.conditionChecks ++ if strict then
    d.effectChecks ++ d.steps.names.map fun name => .of (.step name) (¬ d.Reachable name) else [])

/-- All conditions compile. -/
structure Conditioned (d : Description) : Prop where
  done : ∀ text, d.header.doneCondition = some text → ∃ c, Condition.compile text = .ok c
  edges : ∀ e ∈ d.edges, ∀ text, e.condition = some text → ∃ c, Condition.compile text = .ok c

/-- Every edge has an effect, and every step is on a path. -/
structure Tidy (d : Description) : Prop where
  unblank : d.Unblank
  oneFallback : d.OneFallback
  reachable : ∀ name ∈ d.steps.names, d.Reachable name

/-! ### Structure -/

theorem judged_nameFlaw? (name : String) :
    Judged [.of .steps (Text.trim name = ""), .of (.step terminalName) (name = terminalName)]
      (failWith (nameFlaw? name)) :=
  .test String.isEmpty_iff rfl fun _ => .test Iff.rfl rfl fun _ => .ok ()

/-- An edge from the end leaves no declared step. -/
theorem judged_edgeFlaw? {steps : Declarations StepSpec} (hNames : ∀ name ∈ steps.names, name ≠ terminalName)
    (index : Nat) (e : Edge) :
    Judged [.of (.edgeSource index) (steps.contains e.source = false),
        .of (.edgeTarget index) (e.target ≠ terminalName ∧ steps.contains e.target = false)]
      (failWith (edgeFlaw? steps index e)) := by
  unfold edgeFlaw?
  by_cases hEnd : e.source = terminalName
  · have hUndeclared : steps.contains e.source = false := by
      rw [Bool.eq_false_iff, ne_eq, Declarations.contains_iff_mem_names]
      exact fun hMem => hNames _ hMem hEnd
    rw [if_pos hEnd]
    exact .refused rfl (.head ⟨rfl, hUndeclared⟩)
  · rw [if_neg hEnd]
    exact .test (by simp) rfl fun _ => .test (by simp) rfl fun _ => .ok ()

theorem edgesFlaw?_eq_findSome? (steps : Declarations StepSpec) (edges : List Edge) (index : Nat) :
    edgesFlaw? steps index edges =
      (edges.zipIdx index).findSome? fun (e, i) => edgeFlaw? steps i e := by
  induction edges generalizing index with
  | nil => rfl
  | cons e rest ih =>
      rw [edgesFlaw?, List.zipIdx_cons, List.findSome?_cons, ih]
      dsimp only
      cases edgeFlaw? steps index e <;> rfl

theorem judged_structuralFlaw? (d : Description) :
    Judged d.structuralChecks (failWith d.structuralFlaw?) := by
  unfold structuralFlaw? structuralChecks
  refine .test String.isEmpty_iff rfl fun _ => .test List.isEmpty_iff rfl fun _ =>
    .test List.isEmpty_iff rfl fun _ => ?_
  rw [Option.orElse_eq_orElse, Option.orElse_eq_or]
  refine Judged.or (.findSome? fun name _ => judged_nameFlaw? name) fun hPass => ?_
  have hNames : ∀ name ∈ d.steps.names, name ≠ terminalName := by
    intro name hName
    have hCheck : Check.of (.step terminalName) (name = terminalName) ∈ d.nameChecks :=
      List.mem_flatMap.mpr ⟨name, hName, by simp⟩
    exact Check.passes_of.mp (hPass _ hCheck)
  refine .test (by simp) rfl fun _ => .test Iff.rfl rfl fun _ => ?_
  rw [edgesFlaw?_eq_findSome?]
  exact .findSome? fun place _ => judged_edgeFlaw? hNames place.2 place.1

/-! ### Conditions -/

theorem judged_compileDone (d : Description) :
    Judged [.condition .doneCondition d.header.doneCondition] (Graph.compileDone d) := by
  unfold Graph.compileDone
  cases hText : d.header.doneCondition with
  | none => exact .condition_ok (by simp) _
  | some text =>
      dsimp only
      cases hCompile : Condition.compile text with
      | ok c => exact .condition_ok (by simp [hCompile]) c
      | error fault => exact .condition_error hCompile

theorem judged_compileEdge (index : Nat) (e : Edge) :
    Judged [.condition (.edgeCondition index) e.condition] (CompiledEdge.compile index e) := by
  unfold CompiledEdge.compile
  cases hText : e.condition with
  | none => exact .condition_ok (by simp) _
  | some text =>
      dsimp only
      cases hCompile : Condition.compile text with
      | ok c => exact .condition_ok (by simp [hCompile]) _
      | error fault => exact .condition_error hCompile

theorem judged_compileAll (edges : List Edge) (index : Nat) :
    Judged ((edges.zipIdx index).map fun (e, i) => .condition (.edgeCondition i) e.condition)
      (CompiledEdge.compileAll index edges) := by
  induction edges generalizing index with
  | nil => exact .ok []
  | cons e rest ih =>
      rw [CompiledEdge.compileAll]
      refine Judged.bind (judged_compileEdge index e) fun c _ _ => ?_
      exact (ih (index + 1)).map _

/-- What is found about an edge is what its checks say. -/
theorem judged_edgeFinding? (edges : List Edge) {i : Nat} (hi : i ≤ edges.length) (e : Edge) :
    Judged (effectChecksOf edges i e) (failWith ((edgeFinding? (edges.take i) e).map .finding)) := by
  have hLength : (edges.take i).length = i := List.length_take_of_le hi
  unfold edgeFinding? effectChecksOf
  rw [hLength]
  cases hCondition : e.condition with
  | some text =>
      dsimp only
      rw [apply_ite (Option.map Flaw.finding)]
      exact .test (by simp) rfl fun _ => .pass (by simp) (.ok ())
  | none =>
      refine .pass (by simp) ?_
      have hFallback : (∃ earlier ∈ edges.take i, earlier.source = e.source ∧ earlier.condition = none) ↔
          ∃ earlier ∈ edges.take i, earlier.isFallbackOf e.source = true := by
        simp only [Edge.isFallbackOf_iff]
      rw [hFallback]
      cases hFind : (edges.take i).findIdx? fun other => other.isFallbackOf e.source with
      | none =>
          refine .pass (fun hWrong => ?_) (.ok ())
          obtain ⟨-, earlier, hEarlier, hSame⟩ := hWrong
          rw [List.findIdx?_eq_none_iff.mp hFind earlier hEarlier] at hSame
          cases hSame
      | some first =>
          obtain ⟨hFirst, hSame, -⟩ := List.findIdx?_eq_some_iff_getElem.mp hFind
          exact .refused rfl (.head ⟨rfl, rfl, _, List.getElem_mem hFirst, hSame⟩)

end Description

namespace Graph

/-- The graph of a description, given what its conditions compile to. -/
def assembled (d : Description) (done : Condition) (edges : List CompiledEdge) : Graph :=
  let nodes := d.steps.map fun step spec => ⟨spec, .ofEdges edges step⟩
  ⟨d.header.name, d.startStep, done, d.header.maxSteps, nodes,
    edges.filterMap (CompiledEdge.finding? edges) ++
      (unreachableSteps nodes d.startStep).map (.unreachableStep · d.startStep)⟩

/-- Compilation in its stages. The last one refuses the first finding, in strict mode only. -/
theorem compile_eq (d : Description) (strict : Bool) :
    compile d strict = do
      failWith d.structuralFlaw?
      let done ← compileDone d
      let edges ← CompiledEdge.compileAll 0 d.edges
      failWith (if strict then (assembled d done edges).findings.head?.map .finding else none)
      return assembled d done edges := by
  unfold compile
  cases d.structuralFlaw? with
  | some flaw => rfl
  | none =>
      refine bind_congr fun done => bind_congr fun edges => ?_
      change _ = failWith (if strict then (assembled d done edges).findings.head?.map .finding else none) >>=
        fun _ => pure (assembled d done edges)
      cases strict with
      | false => rfl
      | true =>
          unfold assembled
          dsimp only
          generalize edges.filterMap _ ++ List.map _ _ = findings
          cases findings <;> rfl

end Graph

namespace Description

variable {d : Description}

theorem oneFallback_iff_take : d.OneFallback ↔ ∀ (i : Nat) (hi : i < d.edges.length),
    d.edges[i].condition = none → ∀ earlier ∈ d.edges.take i, earlier.source = d.edges[i].source →
      earlier.condition ≠ none := by
  rw [OneFallback, List.pairwise_iff_getElem]
  constructor
  · intro h i hi hLater earlier hEarlier hSource hNone
    obtain ⟨j, hj, rfl⟩ := List.mem_take_iff_getElem.mp hEarlier
    exact h j i (by omega) hi (by omega) hSource hNone hLater
  · intro h i j hi hj hLt hSource hNone hLater
    have hEarlier : d.edges[i] ∈ d.edges.take j :=
      List.mem_take_iff_getElem.mpr ⟨i, by omega, rfl⟩
    exact h j hj hLater _ hEarlier hSource hNone

theorem effectChecks_pass_iff : (∀ c ∈ d.effectChecks, c.Passes) ↔ d.Unblank ∧ d.OneFallback := by
  rw [oneFallback_iff_take, Unblank, List.forall_mem_iff_getElem (l := d.edges), effectChecks,
    List.forall_mem_flatMap, List.forall_mem_zipIdx', ← forall_and]
  refine forall_congr' fun i => ?_
  rw [← forall_and]
  simp [effectChecksOf, Check.passes_of]

/-- What strict mode refuses is what its checks say. -/
theorem judged_strict {done : Condition} {edges : List CompiledEdge} (hWellFormed : d.WellFormed)
    (hDone : Graph.compileDone d = .ok done) (hEdges : CompiledEdge.compileAll 0 d.edges = .ok edges) :
    Judged (d.effectChecks ++ d.steps.names.map fun name => .of (.step name) (¬ d.Reachable name))
      (failWith ((Graph.assembled d done edges).findings.head?.map .finding)) := by
  have hCompiled : Graph.Compiled d (Graph.assembled d done edges) done edges :=
    ⟨hWellFormed, hDone, hEdges, rfl, rfl, rfl, rfl⟩
  unfold Graph.assembled
  dsimp only
  rw [List.head?_append, CompiledEdge.filterMap_finding? hEdges, edgeFindings, List.head?_filterMap,
    Option.map_or, List.map_findSome?]
  refine Judged.or (Judged.findSome? fun (e, i) hPlace => ?_) fun hPass => ?_
  · exact judged_edgeFinding? d.edges (List.snd_lt_of_mem_zipIdx hPlace).le e
  -- The search follows routes; they lead wherever edges do only once every edge has an effect.
  obtain ⟨hUnblank, hOne⟩ := effectChecks_pass_iff.mp hPass
  rw [List.head?_map, Graph.unreachableSteps_eq_filter, Declarations.names_map, List.head?_filter,
    List.find?_eq_findSome?_guard, Option.map_map, List.map_findSome?, List.map_eq_flatMap]
  refine .findSome? fun name hName => ?_
  have hReached := hCompiled.reached_iff hUnblank hOne hName
  dsimp only [Function.comp, Option.guard]
  rw [apply_ite (Option.map _)]
  refine .test ?_ rfl fun _ => .ok ()
  simp only [decide_eq_true_eq]
  exact not_congr hReached

theorem judged_compile (d : Description) (strict : Bool) :
    Judged (d.checks strict) (Graph.compile d strict) := by
  rw [Graph.compile_eq]
  refine judged_structuralFlaw? d |>.bind fun _ hStructure _ => ?_
  have hWellFormed : d.WellFormed :=
    d.structuralFlaw?_eq_none_iff.mp (failWith_eq_ok_iff.mp hStructure)
  change Judged ([_] ++ (_ ++ _)) _
  refine (judged_compileDone d).bind fun done hDone _ =>
    (judged_compileAll d.edges 0).bind fun edges hEdges _ => Judged.map ?_ _
  cases strict with
  | false => exact .ok ()
  | true => exact judged_strict hWellFormed hDone hEdges

/-! ### Acceptance -/

theorem structuralChecks_pass_iff : (∀ c ∈ d.structuralChecks, c.Passes) ↔ d.WellFormed := by
  rw [← (judged_structuralFlaw? d).exists_ok_iff, ← structuralFlaw?_eq_none_iff]
  cases d.structuralFlaw? <;> simp [failWith]

theorem conditionChecks_pass_iff : (∀ c ∈ d.conditionChecks, c.Passes) ↔ d.Conditioned := by
  rw [conditionChecks, List.forall_mem_cons, List.forall_mem_map, List.forall_mem_zipIdx']
  simp only [Check.passes_condition]
  exact ⟨fun h => ⟨h.1, List.forall_mem_iff_getElem.mpr h.2⟩,
    fun h => ⟨h.done, List.forall_mem_iff_getElem.mp h.edges⟩⟩

theorem checks_pass_iff : (∀ c ∈ d.checks false, c.Passes) ↔ d.WellFormed ∧ d.Conditioned := by
  rw [checks, List.forall_mem_append, List.forall_mem_append, structuralChecks_pass_iff,
    conditionChecks_pass_iff]
  simp

theorem strictChecks_pass_iff :
    (∀ c ∈ d.checks true, c.Passes) ↔ d.WellFormed ∧ d.Conditioned ∧ d.Tidy := by
  rw [checks, if_pos rfl, List.forall_mem_append, List.forall_mem_append, List.forall_mem_append,
    structuralChecks_pass_iff, conditionChecks_pass_iff, effectChecks_pass_iff, List.forall_mem_map]
  simp only [Check.passes_of, not_not]
  refine and_congr_right fun _ => and_congr_right fun _ => ?_
  exact ⟨fun h => ⟨h.1.1, h.1.2, h.2⟩, fun h => ⟨⟨h.unblank, h.oneFallback⟩, h.reachable⟩⟩

end Description

namespace Graph

/-- A graph that strict mode accepts is the one that is built otherwise. -/
theorem compile_of_strict {d : Description} {g : Graph} (h : compile d true = .ok g) :
    compile d false = .ok g := by
  rw [compile_eq] at h ⊢
  obtain ⟨_, hStructure, h⟩ := bind_eq_ok_iff.mp h
  obtain ⟨done, hDone, h⟩ := bind_eq_ok_iff.mp h
  obtain ⟨edges, hEdges, h⟩ := bind_eq_ok_iff.mp h
  obtain ⟨_, -, h⟩ := bind_eq_ok_iff.mp h
  rw [hStructure, hDone, hEdges]
  exact h

/-- A description compiles exactly when its structure is well-formed and its conditions compile, and in strict
mode when it is tidy besides, to the same graph. What does not compile blames the first check that fails. -/
theorem compile_accepts (d : Description) :
    ((∃ g, compile d false = .ok g) ↔ d.WellFormed ∧ d.Conditioned) ∧
      ((∃ g, compile d true = .ok g) ↔ d.WellFormed ∧ d.Conditioned ∧ d.Tidy) ∧
      (∀ g, compile d true = .ok g → compile d false = .ok g) ∧
      ∀ strict e, compile d strict = .error e → ∃ element fault?,
        e.blamed? = some (element, fault?) ∧ FirstFailure (d.checks strict) element fault? := by
  refine ⟨?_, ?_, fun g => compile_of_strict, ?_⟩
  · rw [(d.judged_compile false).exists_ok_iff, Description.checks_pass_iff]
  · rw [(d.judged_compile true).exists_ok_iff, Description.strictChecks_pass_iff]
  · intro strict e hError
    have hJudged := d.judged_compile strict
    rw [hError] at hJudged
    exact hJudged.error_inv

/-- The draft has two fallbacks, and nothing leads to the archive. -/
private def shortcut : Description :=
  Description.startingAt " draft "
    |>.withStep "draft" (.ofKind "llm")
    |>.withStep "review" (.ofKind "judge")
    |>.withStep "archive" (.ofKind "assign")
    |>.withEdge (.always "draft" "review")
    |>.withEdge (.guarded "review" terminalName "quality.score >= 80")
    |>.withEdge (.toEnd "draft")
    |>.withEdge (.toEnd "archive")

private def blameIn : Except Error Graph → Option (Element × Option Guard.Fault)
  | .ok _ => none
  | .error e => e.blamed?

theorem compile_accepts_shortcut :
    (shortcut.WellFormed ∧ shortcut.Conditioned) ∧ ¬ shortcut.Tidy ∧
      FirstFailure (shortcut.checks true) (.edge 2) none := by
  have hCompiles : (compile shortcut false).isOk = true := by decide +kernel
  have hBlame : blameIn (compile shortcut true) = some (.edge 2, none) := by decide +kernel
  obtain ⟨hAccepts, hStrict, -, hFirst⟩ := compile_accepts shortcut
  have hValid := hAccepts.mp (exists_ok_of_isOk hCompiles)
  cases hResult : compile shortcut true with
  | ok g =>
      rw [hResult] at hBlame
      cases hBlame
  | error e =>
      rw [hResult] at hBlame
      refine ⟨hValid, fun hTidy => ?_, ?_⟩
      · obtain ⟨g, hOk⟩ := hStrict.mpr ⟨hValid.1, hValid.2, hTidy⟩
        rw [hResult] at hOk
        cases hOk
      · obtain ⟨element, fault?, hBlamed, hFailure⟩ := hFirst true e hResult
        cases hBlamed.symm.trans hBlame
        exact hFailure

end Graph

end Stepwise
