import Stepwise.Proofs.Process.Reading
import Stepwise.Proofs.Run.Failure

/-! Runs of rearranged processes. Engines whose graphs decide alike and whose steps behave alike run alike, to
the last report. Rearranged descriptions give such graphs, and from the same workshop such steps. -/
namespace Stepwise

theorem Steps.execute_eq {W : Type} {steps : Steps W} {name : String} {step : Step W}
    (h : steps.get? name = some step) (around : Surroundings W) :
    steps.execute around name = step.execute around := by
  funext s w
  rw [execute, h]

namespace Engine

variable {W : Type}

/-- Two engines have graphs that decide alike, the same budget, and steps that behave alike. -/
structure Alike (around : Surroundings W) (one other : Engine W) : Prop where
  start : one.graph.start = other.graph.start
  names : ∀ name, name ∈ one.graph.nodes.names ↔ name ∈ other.graph.nodes.names
  next : ∀ step s, one.graph.next step s = other.graph.next step s
  maxSteps : one.maxSteps = other.maxSteps
  execute : ∀ name ∈ one.graph.nodes.names, ∀ s w,
    one.steps.execute around name s w = other.steps.execute around name s w

namespace Alike

variable {around : Surroundings W} {one other : Engine W}

theorem exists_steps (h : Alike around one other) {name : String}
    (hName : one.graph.nodes.contains name = true) :
    ∃ step step', one.steps.get? name = some step ∧ other.steps.get? name = some step' ∧
      ∀ s w, step.attempt around s w = step'.attempt around s w := by
  rw [Declarations.contains_iff_mem_names] at hName
  obtain ⟨step, hStep⟩ := Option.isSome_iff_exists.mp (one.registered name hName)
  obtain ⟨step', hStep'⟩ := Option.isSome_iff_exists.mp (other.registered name ((h.names name).mp hName))
  refine ⟨step, step', hStep, hStep', fun s w => ?_⟩
  have hExecute := h.execute name hName s
  rw [Steps.execute_eq hStep, Steps.execute_eq hStep'] at hExecute
  rw [Step.attempt, Step.attempt]
  simp only [hExecute]

/-- From a declared step on, alike engines walk alike. -/
theorem walk_eq (h : Alike around one other) {d : Description} {strict : Bool}
    (hGraph : Graph.compile d strict = .ok one.graph) (left done : Nat) {current : String}
    (hCurrent : one.graph.nodes.contains current = true) (s : State) (w : W) :
    walk around one left done current s w = walk around other left done current s w := by
  obtain ⟨_, _, hCompiled⟩ := Graph.compile_ok hGraph
  induction left generalizing done current s w with
  | zero =>
      obtain ⟨step, step', hStep, hStep', -⟩ := h.exists_steps hCurrent
      rw [walk.eq_def, walk.eq_def, h.maxSteps]
      dsimp only
      rw [hStep, hStep']
      cases around.observe w with
      | mk seen before => cases seen <;> rfl
  | succ left ih =>
      obtain ⟨step, step', hStep, hStep', hAttempt⟩ := h.exists_steps hCurrent
      rw [walk.eq_def, walk.eq_def]
      dsimp only
      rw [hStep, hStep']
      cases around.observe w with
      | mk seen before =>
          cases seen with
          | true => rfl
          | false =>
              dsimp only
              rw [← hAttempt]
              cases step.attempt around s before with
              | mk result w' =>
                  cases result with
                  | interrupted => rfl
                  | failed cause => rfl
                  | finished delta =>
                      dsimp only
                      rw [← h.next]
                      cases hNext : (one.graph.next current (s.apply delta)).termination? with
                      | some reason => rfl
                      | none =>
                          dsimp only
                          rw [ih (done + 1) (hCompiled.continues hNext)]

theorem run_eq (h : Alike around one other) {d : Description} {strict : Bool}
    (hGraph : Graph.compile d strict = .ok one.graph) (context : Object) (start : W) :
    one.run around context start = other.run around context start := by
  obtain ⟨done, edges, hCompiled⟩ := Graph.compile_ok hGraph
  rw [run, run, h.walk_eq hGraph _ _ hCompiled.start_declared, h.maxSteps, h.start]

end Alike

/-- An engine can be built exactly when its steps can. -/
theorem exists_build_iff {shop : Workshop W} {graph : Graph} {options : EngineOptions} :
    (∃ engine, build shop graph options = .ok engine) ↔ ∃ steps, shop.build graph = .ok steps := by
  constructor
  · rintro ⟨engine, hBuild⟩
    obtain ⟨steps, hSteps, -⟩ := bind_eq_ok_iff.mp hBuild
    exact ⟨steps, hSteps⟩
  · rintro ⟨steps, hSteps⟩
    obtain ⟨engine, hCreate⟩ := exists_create_of_build options hSteps
    exact ⟨engine, bind_eq_ok_iff.mpr ⟨steps, hSteps, hCreate⟩⟩

section

variable {a b : Description} {g g' : Graph} {done done' : Condition} {edges edges' : List CompiledEdge}

/-- Engines for rearranged processes are alike if their steps are. -/
theorem alike_of_rearranged (h : a.Rearranged b) (ha : Graph.Compiled a g done edges)
    (hb : Graph.Compiled b g' done' edges') {around : Surroundings W} {steps steps' : Steps W}
    {options : EngineOptions} {engine engine' : Engine W} (hCreate : create g steps options = .ok engine)
    (hCreate' : create g' steps' options = .ok engine')
    (hSteps : ∀ name ∈ a.steps.names, ∀ s w,
      steps.execute around name s w = steps'.execute around name s w) :
    Alike around engine engine' := by
  obtain ⟨hGraph, hOwn, hBudget⟩ := create_ok hCreate
  obtain ⟨hGraph', hOwn', hBudget'⟩ := create_ok hCreate'
  have hNames : g.nodes.names = a.steps.names := by rw [ha.nodes, Declarations.names_map]
  have hNames' : g'.nodes.names = b.steps.names := by rw [hb.nodes, Declarations.names_map]
  refine ⟨?_, ?_, ?_, ?_, ?_⟩
  · rw [hGraph, hGraph', ha.start, hb.start, h.startStep_eq]
  · rw [hGraph, hGraph', hNames, hNames']
    exact h.mem_names
  · rw [hGraph, hGraph']
    exact ha.next_eq_of_rearranged hb h
  · rw [hBudget, hBudget', ha.maxSteps, hb.maxSteps, h.header]
  · rw [hGraph, hOwn, hOwn', hNames]
    exact hSteps

/-- A workshop builds a step from its declaration, wherever that stands. -/
theorem execute_eq_of_build (h : a.Rearranged b) (ha : Graph.Compiled a g done edges)
    (hb : Graph.Compiled b g' done' edges') {shop : Workshop W} {steps steps' : Steps W}
    (hBuild : shop.build g = .ok steps) (hBuild' : shop.build g' = .ok steps') (around : Surroundings W)
    {name : String} (hName : name ∈ a.steps.names) :
    steps.execute around name = steps'.execute around name := by
  rw [← Declarations.contains_iff_mem_names] at hName
  obtain ⟨spec, hSpec⟩ := Option.isSome_iff_exists.mp hName
  obtain ⟨step, hStep, hGet⟩ := Workshop.get?_of_build hBuild ((ha.spec?_eq name).trans hSpec)
  obtain ⟨step', hStep', hGet'⟩ :=
    Workshop.get?_of_build hBuild' ((hb.spec?_eq name).trans ((h.get?_eq name).symm.trans hSpec))
  obtain rfl : step = step' := Except.ok.inj (hStep.symm.trans hStep')
  rw [Steps.execute_eq hGet, Steps.execute_eq hGet']

end

/-- Only the order of the edges of each step matters. Documents that list the same steps in different orders
describe rearranged processes, each with its steps in the order of its document. Of two rearranged
descriptions, one compiles exactly when the other does, strictly or not. Their graphs decide alike for every
step and state. Engines for them whose steps behave alike have the same runs, from the reports to the result;
and one workshop builds such engines for both, or for neither. -/
theorem runs_of_rearranged :
    (∀ (form : ListForm) (before after listed listed' : List (String × Document)) (a : Description),
      (listed.map Prod.fst).Nodup → listed.Perm listed' →
        Description.ofDocument form (.object (before ++ ("steps", .object listed) :: after)) = .ok a →
          ∃ b, Description.ofDocument form (.object (before ++ ("steps", .object listed') :: after)) = .ok b ∧
            Description.ListedAs listed listed' a b) ∧
    ∀ a b : Description, a.Rearranged b →
      (∀ strict, (∃ g, Graph.compile a strict = .ok g) ↔ ∃ g, Graph.compile b strict = .ok g) ∧
      ∀ strict strict' g g', Graph.compile a strict = .ok g → Graph.compile b strict' = .ok g' →
        (∀ step s, g.next step s = g'.next step s) ∧
        (∀ (around : Surroundings W) steps steps' options engine engine',
          create g steps options = .ok engine → create g' steps' options = .ok engine' →
          (∀ name ∈ a.steps.names, ∀ s w,
            steps.execute around name s w = steps'.execute around name s w) →
          ∀ context start, engine.run around context start = engine'.run around context start) ∧
        ∀ (shop : Workshop W) options,
          ((∃ engine, build shop g options = .ok engine) ↔ ∃ engine, build shop g' options = .ok engine) ∧
          ∀ engine engine', build shop g options = .ok engine → build shop g' options = .ok engine' →
            ∀ around context start, engine.run around context start = engine'.run around context start := by
  refine ⟨fun form before after listed listed' a => Description.exists_listedAs_of_ofDocument, ?_⟩
  intro a b h
  refine ⟨fun strict => ⟨h.compiles strict, h.symm.compiles strict⟩, ?_⟩
  intro strict strict' g g' hGraph hGraph'
  obtain ⟨done, edges, ha⟩ := Graph.compile_ok hGraph
  obtain ⟨done', edges', hb⟩ := Graph.compile_ok hGraph'
  have hRuns : ∀ (around : Surroundings W) steps steps' options engine engine',
      create g steps options = .ok engine → create g' steps' options = .ok engine' →
      (∀ name ∈ a.steps.names, ∀ s w,
        steps.execute around name s w = steps'.execute around name s w) →
      ∀ context start, engine.run around context start = engine'.run around context start := by
    intro around steps steps' options engine engine' hCreate hCreate' hSteps context start
    obtain rfl := create_graph hCreate
    exact (alike_of_rearranged h ha hb hCreate hCreate' hSteps).run_eq hGraph context start
  refine ⟨ha.next_eq_of_rearranged hb h, hRuns, fun shop options => ⟨?_, ?_⟩⟩
  · simp only [exists_build_iff, Workshop.exists_build_iff, ha.spec?_eq, hb.spec?_eq, h.get?_eq]
  · intro engine engine' hBuild hBuild' around
    obtain ⟨steps, hSteps, hCreate⟩ := bind_eq_ok_iff.mp hBuild
    obtain ⟨steps', hSteps', hCreate'⟩ := bind_eq_ok_iff.mp hBuild'
    refine hRuns around steps steps' options engine engine' hCreate hCreate' fun name hName s w => ?_
    rw [execute_eq_of_build h ha hb hSteps hSteps' around hName]

private def drafting : Description :=
  Description.startingAt "draft"
    |>.withStep "draft" (.ofKind "assign")
    |>.withStep "review" (.ofKind "assign")
    |>.withEdge (.always "draft" "review")
    |>.withEdge (.guarded "review" terminalName "quality.ok")
    |>.withEdge (.always "review" "draft")

/-- The review comes first, with one of its edges. -/
private def reviewing : Description :=
  Description.startingAt "draft"
    |>.withStep "review" (.ofKind "assign")
    |>.withStep "draft" (.ofKind "assign")
    |>.withEdge (.guarded "review" terminalName "quality.ok")
    |>.withEdge (.always "draft" "review")
    |>.withEdge (.always "review" "draft")

private def reviewers : Steps Unit where
  entries := [("draft", .assign .empty), ("review", .assign (Delta.empty.withQuality "ok" (.bool true)))]
  distinct := by decide

private theorem drafting_rearranged : drafting.Rearranged reviewing := by
  have hSteps : drafting.steps.entries = [("draft", .ofKind "assign"), ("review", .ofKind "assign")] := rfl
  have hSteps' : reviewing.steps.entries = [("review", .ofKind "assign"), ("draft", .ofKind "assign")] := rfl
  refine ⟨rfl, fun entry => ?_, fun source => ?_⟩
  · rw [hSteps, hSteps']
    exact (List.Perm.swap _ _ _).mem_iff
  · by_cases hDraft : "draft" = source
    · subst hDraft
      rfl
    · by_cases hReview : "review" = source
      · subst hReview
        rfl
      · simp [drafting, reviewing, Description.startingAt, Description.withStep, Description.withEdge,
          Edge.always, Edge.guarded, hDraft, hReview]

private def listedSteps : List (String × Document) :=
  [("review", .object [("kind", .string "judge")]), ("draft", .object [])]

private def reviewDocument (steps : List (String × Document)) : Document :=
  .object ([("process", .object [("start", .string "draft")])] ++ ("steps", .object steps) ::
    [("edges", .array [.array [.string "draft", .string "review"]])])

theorem runs_of_rearranged_review :
    (∃ a b, Description.ofDocument .exact (reviewDocument listedSteps) = .ok a ∧
      Description.ofDocument .exact (reviewDocument listedSteps.reverse) = .ok b ∧ a.Rearranged b ∧
      a.steps.names = ["review", "draft"] ∧ b.steps.names = ["draft", "review"]) ∧
    ∃ engine engine' : Engine Unit, Graph.compile drafting false = .ok engine.graph ∧
      Graph.compile reviewing false = .ok engine'.graph ∧
      engine.run .still .empty () = engine'.run .still .empty () ∧
      (engine.run .still .empty ()).path? = some ["draft", "review"] := by
  obtain ⟨hRead, hSame⟩ := runs_of_rearranged (W := Unit)
  have hFits : (Description.ofDocument .exact (reviewDocument listedSteps)).isOk = true := by decide +kernel
  have hRuns : (traceOf? drafting reviewers .standard .still .empty ()).bind Trace.path? =
      some ["draft", "review"] := by decide +kernel
  have hRuns' : ((traceOf? reviewing reviewers .standard .still .empty ()).bind Trace.path?).isSome =
      true := by decide +kernel
  obtain ⟨a, hFirst⟩ := exists_ok_of_isOk hFits
  obtain ⟨b, hSecond, hBoth⟩ :=
    hRead .exact _ _ _ _ a (by decide) (List.reverse_perm listedSteps).symm hFirst
  obtain ⟨t, hTrace, hPath⟩ := Option.bind_eq_some_iff.mp hRuns
  obtain ⟨path, hPath'⟩ := Option.isSome_iff_exists.mp hRuns'
  obtain ⟨t', hTrace', -⟩ := Option.bind_eq_some_iff.mp hPath'
  obtain ⟨engine, hGraph, hCreate, rfl⟩ := exists_engine_of_traceOf? hTrace
  obtain ⟨engine', hGraph', hCreate', rfl⟩ := exists_engine_of_traceOf? hTrace'
  obtain ⟨-, hAlike⟩ := hSame _ _ drafting_rearranged
  obtain ⟨-, hEqual, -⟩ := hAlike false false _ _ hGraph hGraph'
  exact ⟨⟨a, b, hFirst, hSecond, hBoth.rearranged, hBoth.names, hBoth.names'⟩, engine, engine', hGraph, hGraph',
    hEqual .still _ _ _ _ _ hCreate hCreate' (fun _ _ _ _ => rfl) .empty (), hPath⟩

end Engine

end Stepwise
