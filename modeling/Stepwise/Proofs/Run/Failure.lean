import Stepwise.Process.Sample
import Stepwise.Proofs.Run.Walk
import Stepwise.Proofs.Step.Registry

/-! What can go wrong in a run. An engine exists only if every declared step can be executed, and a compiled
graph leads only to declared steps; so nothing is looked up in vain, and the one error that a run ends with
is that of the step which was executing. -/
namespace Stepwise

/-- What is no failed step yet is told in full. -/
theorem Error.asStepMessage_eq_message {e : Error} (h : ∀ step message, e ≠ .stepFailed step message) :
    e.asStepMessage = e.message := by
  cases e with
  | stepFailed step message => exact absurd rfl (h step message)
  | _ => rfl

namespace Engine

variable {W : Type}

theorem create_error {graph : Graph} {steps : Steps W} {options : EngineOptions} {e : Error}
    (h : create graph steps options = .error e) :
    ∃ name ∈ graph.nodes.names, name ∉ steps.names ∧ e = .stepNotRegistered name := by
  unfold create at h
  split at h
  · rename_i missing hFind
    cases h
    have hMissing : steps.contains missing = false := by simpa using List.find?_some hFind
    refine ⟨missing, List.mem_of_find?_eq_some hFind, fun hMem => ?_, rfl⟩
    rw [← Declarations.contains_iff_mem_names, hMissing] at hMem
    cases hMem
  · cases h

theorem build_graph {shop : Workshop W} {graph : Graph} {options : EngineOptions} {engine : Engine W}
    (h : build shop graph options = .ok engine) : engine.graph = graph := by
  obtain ⟨steps, -, hCreate⟩ := bind_eq_ok_iff.mp h
  exact create_graph hCreate

/-- Steps that are built for a graph are all that its engine looks for. -/
theorem exists_create_of_build {shop : Workshop W} {graph : Graph} {steps : Steps W}
    (options : EngineOptions) (h : shop.build graph = .ok steps) :
    ∃ engine, create graph steps options = .ok engine := by
  cases hCreate : create graph steps options with
  | ok engine => exact ⟨engine, rfl⟩
  | error e =>
      obtain ⟨name, hDeclared, hMissing, -⟩ := create_error hCreate
      exact absurd ((Workshop.mem_names_of_build h name).mpr hDeclared) hMissing

theorem build_error {shop : Workshop W} {graph : Graph} {options : EngineOptions} {e : Error}
    (h : build shop graph options = .error e) : ∃ flaw, e = .invalid flaw := by
  unfold build at h
  cases hSteps : shop.build graph with
  | error cause =>
      rw [hSteps] at h
      cases h
      exact Workshop.build_error hSteps
  | ok steps =>
      obtain ⟨engine, hCreate⟩ := exists_create_of_build options hSteps
      rw [hSteps] at h
      cases hCreate.symm.trans h

section

variable {around : Surroundings W} {engine : Engine W} {context : Object} {start : W}

/-- A run that ends with an error was executing a step, and that step had failed. -/
theorem Stops.error_inv {visits : Visits} {e : Error}
    (h : Stops around engine context start visits (.error e)) :
    ∃ current w w' cause, Reaches around engine context start visits current w ∧
      Executes around engine context visits current w (.failed cause) w' ∧
        e = .stepFailed current cause.asStepMessage := by
  cases h with
  | failed prior last => exact ⟨_, _, _, _, prior, last, rfl⟩

end

/-- No run comes to a step that is not there. A compiled graph leads to declared steps and to the end, and
its decisions end a run exactly when they are for no declared step. So every engine over the graph finds the
steps that its runs come to, and the error of a run is that of the step which was executing: with the message
that the step gave it, or with the whole text of any other error. -/
theorem no_dangling_step {d : Description} {strict : Bool} {graph : Graph}
    (hGraph : Graph.compile d strict = .ok graph) :
    graph.nodes.names = d.steps.names ∧
    (∀ step route, graph.route? step = some route →
      ∀ target ∈ route.targets, target.Declared graph.nodes) ∧
    graph.nodes.contains graph.start = true ∧
    (∀ step s, (graph.next step s).termination? = none ↔
      ∃ name, (graph.next step s).target = .step name ∧ graph.nodes.contains name = true) ∧
    (∀ (shop : Workshop W) options name, build shop graph options ≠ .error (.stepNotRegistered name)) ∧
    ∀ (options : EngineOptions) (engine : Engine W),
      ((∃ steps, create graph steps options = .ok engine) ∨
        ∃ shop, build shop graph options = .ok engine) →
      ∀ (around : Surroundings W) (context : Object) (start : W),
        (∀ visits current w, Reaches around engine context start visits current w →
          ∃ step, engine.steps.get? current = some step) ∧
        (∀ name, (engine.run around context start).result ≠ .error (.stepNotRegistered name)) ∧
        ∀ e, (engine.run around context start).result = .error e →
          ∃ visits current w w' cause, Reaches around engine context start visits current w ∧
            Executes around engine context visits current w (.failed cause) w' ∧
            (∀ other message, cause = .stepFailed other message → e = .stepFailed current message) ∧
            ((∀ other message, cause ≠ .stepFailed other message) →
              e = .stepFailed current cause.message) := by
  obtain ⟨done, edges, hCompiled⟩ := Graph.compile_ok hGraph
  refine ⟨?_, fun step route hRoute target => hCompiled.route_declared hRoute,
    hCompiled.start_declared, hCompiled.termination?_eq_none_iff, ?_, ?_⟩
  · rw [hCompiled.nodes, Declarations.names_map]
  · intro shop options name hBuild
    obtain ⟨flaw, hFlaw⟩ := build_error hBuild
    cases hFlaw
  · intro options engine hEngine around context start
    have hSame : engine.graph = graph := by
      rcases hEngine with ⟨steps, hCreate⟩ | ⟨shop, hBuild⟩
      · exact create_graph hCreate
      · exact build_graph hBuild
    rw [← hSame] at hGraph
    have hError : ∀ e, (engine.run around context start).result = .error e →
        ∃ visits current w w' cause, Reaches around engine context start visits current w ∧
          Executes around engine context visits current w (.failed cause) w' ∧
            e = .stepFailed current cause.asStepMessage := by
      intro e hResult
      obtain ⟨visits, hStops⟩ := run_stops hGraph around context start
      rw [hResult] at hStops
      exact ⟨visits, hStops.error_inv⟩
    refine ⟨fun visits current w hReaches => hReaches.registered hGraph, ?_, ?_⟩
    · intro name hResult
      obtain ⟨visits, current, w, w', cause, -, -, hStep⟩ := hError _ hResult
      cases hStep
    · intro e hResult
      obtain ⟨visits, current, w, w', cause, hReaches, hExecutes, rfl⟩ := hError e hResult
      refine ⟨visits, current, w, w', cause, hReaches, hExecutes, ?_, ?_⟩
      · rintro other message rfl
        rfl
      · intro hOther
        rw [Error.asStepMessage_eq_message hOther]

/-- The second step fails and blames the first. -/
private def accusers : Steps Unit where
  entries := [("s1", .assign .empty),
    ("s2", .custom "test" fun _ w => (.failed (.stepFailed "s1" "quota exceeded"), w))]
  distinct := by decide

theorem no_dangling_step_accused :
    ∃ graph, Graph.compile Sample.twoStep false = .ok graph ∧
      ∃ engine : Engine Unit, create graph accusers .standard = .ok engine ∧
        (engine.run .still .empty ()).result = .error (.stepFailed "s2" "quota exceeded") ∧
        ∃ visits w w' cause, Reaches .still engine .empty () visits "s2" w ∧
          Executes .still engine .empty visits "s2" w (.failed cause) w' := by
  have hError : (traceOf? Sample.twoStep accusers .standard .still .empty ()).bind Trace.error? =
      some (.stepFailed "s2" "quota exceeded") := by decide +kernel
  obtain ⟨t, hTrace, hError⟩ := Option.bind_eq_some_iff.mp hError
  obtain ⟨engine, hGraph, hCreate, rfl⟩ := exists_engine_of_traceOf? hTrace
  have hResult := Trace.result_of_error? hError
  obtain ⟨-, -, -, -, -, hRuns⟩ := no_dangling_step hGraph
  obtain ⟨-, -, hFails⟩ := hRuns .standard engine (.inl ⟨_, hCreate⟩) .still .empty ()
  obtain ⟨visits, current, w, w', cause, hReaches, hExecutes, hSame, hOther⟩ := hFails _ hResult
  have hCurrent : current = "s2" := by
    by_cases hCause : ∃ step message, cause = .stepFailed step message
    · obtain ⟨step, message, hCause⟩ := hCause
      exact (Error.stepFailed.inj (hSame step message hCause)).1.symm
    · have hText := hOther fun step message h => hCause ⟨step, message, h⟩
      exact (Error.stepFailed.inj hText).1.symm
  subst hCurrent
  exact ⟨engine.graph, hGraph, engine, hCreate, hResult, visits, w, w', cause, hReaches, hExecutes⟩

end Engine

end Stepwise
