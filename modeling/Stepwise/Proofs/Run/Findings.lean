import Stepwise.Proofs.Process.Findings
import Stepwise.Proofs.Run.Events

/-! Findings hold of every run. A run only comes to steps that the routes reach from the start, and it only goes
by edges that have an effect; so no run executes a step, or takes an edge, about which something is found. -/
namespace Stepwise

theorem Target.name_ofName (name : String) : (ofName name).name = name := by
  unfold ofName
  split_ifs with hEnd
  · exact hEnd.symm
  · rfl

namespace Engine

variable {W : Type} {around : Surroundings W} {engine : Engine W} {context : Object} {start : W}
variable {visits : Visits} {current : String} {w : W}

/-- Every step to which a run comes is reached by the routes. -/
theorem Reaches.reached (h : Reaches around engine context start visits current w) :
    Reached (Graph.leads engine.graph.nodes) engine.graph.start current := by
  induction h with
  | start => exact .refl
  | next prior last hNext ih => exact ih.tail (Graph.leads_of_next hNext)

/-- A run that has not completed was at a step when it stopped. -/
theorem Stops.reaches_of_not_completed {r : Except Error Outcome}
    (h : Stops around engine context start visits r) (hOpen : ∀ o, r = .ok o → o.isCompleted = false) :
    ∃ w, Reaches around engine context start visits (engine.comesTo context visits) w := by
  cases h with
  | completed prior last hEnd => cases hOpen _ rfl
  | cancelledBefore prior hSeen => exact ⟨_, prior.current_eq ▸ prior⟩
  | cancelledDuring prior last => exact ⟨_, prior.current_eq ▸ prior⟩
  | aborted prior hUnseen hSpent => exact ⟨_, prior.current_eq ▸ prior⟩
  | failed prior last => exact ⟨_, prior.current_eq ▸ prior⟩

/-- A step that is reported to have begun is one to which the run has come. -/
theorem Stops.reaches_of_stepStarted {r : Except Error Outcome}
    (h : Stops around engine context start visits r) {step : String} {iteration : Nat}
    (hMem : .stepStarted step iteration ∈ (engine.run around context start).reports) :
    ∃ visits' w, Reaches around engine context start visits' step w := by
  obtain ⟨journal, ending, hJournal, hEnding, hReports⟩ := h.exists_journal
  rw [hReports, List.mem_append] at hMem
  rcases hMem with hEarly | hLate
  · rcases hJournal.mem_inv hEarly with hStart | ⟨before, delta, after, elapsed, hSplit, hVisit⟩
    · cases hStart
    · simp only [visitReports, List.mem_cons, List.not_mem_nil, or_false, reduceCtorEq,
        Report.stepStarted.injEq] at hVisit
      obtain ⟨v, -, hReaches, -⟩ := h.visited hSplit
      exact ⟨before, v, hVisit.1 ▸ hReaches⟩
  · obtain ⟨rfl, hOpen⟩ := hEnding.stepStarted_inv hLate
    exact ⟨visits, h.reaches_of_not_completed hOpen⟩

/-- A transition that is reported was decided after an execution of the step that it leaves. -/
theorem Stops.executes_of_transition {r : Except Error Outcome}
    (h : Stops around engine context start visits r) {source target : String} {reason : RouteReason}
    (hMem : .transition source target reason ∈ (engine.run around context start).reports) :
    ∃ before delta w w', Reaches around engine context start before source w ∧
      Executes around engine context before source w (.finished delta) w' ∧
      target = (engine.decisionAfter context before source delta).target.name ∧
      reason = (engine.decisionAfter context before source delta).reason := by
  obtain ⟨journal, ending, hJournal, hEnding, hReports⟩ := h.exists_journal
  rw [hReports, List.mem_append] at hMem
  rcases hJournal.mem_inv (hMem.resolve_right hEnding.transition_not_mem) with
    hStart | ⟨before, delta, after, elapsed, hSplit, hVisit⟩
  · cases hStart
  · simp only [visitReports, List.mem_cons, List.not_mem_nil, or_false, reduceCtorEq, false_or,
      Report.transition.injEq] at hVisit
    obtain ⟨rfl, hTarget, hReason⟩ := hVisit
    obtain ⟨v, v', hReaches, hExecutes⟩ := h.visited hSplit
    exact ⟨before, delta, v, v', hReaches, hExecutes, hTarget, hReason⟩

/-- What is found about a process holds of all its runs. No step about which something is found is begun, and
none stands in the path of an outcome. Every transition for a guard or a fallback follows an execution of its
source, and goes by an edge of the description: one that leaves the source for that reason in the state after
the execution, that leads to the target, and about which nothing is found. -/
theorem findings_sound {d : Description} {strict : Bool} {engine : Engine W}
    (hGraph : Graph.compile d strict = .ok engine.graph) (around : Surroundings W) (context : Object)
    (start : W) :
    let run := engine.run around context start
    (∀ step iteration, .stepStarted step iteration ∈ run.reports →
      ∀ f ∈ engine.graph.findings, f.element ≠ .step step) ∧
    (∀ o, run.result = .ok o → ∀ step ∈ o.path, ∀ f ∈ engine.graph.findings, f.element ≠ .step step) ∧
    ∀ source target reason, .transition source target reason ∈ run.reports →
      (reason = .fallback ∨ ∃ index text, reason = .guard index text) →
        ∃ visits delta w w', Reaches around engine context start visits source w ∧
          Executes around engine context visits source w (.finished delta) w' ∧
          ∃ before e after, d.edges = before ++ e :: after ∧ e.source = source ∧ e.target = target ∧
            d.Leaves source (Visits.state context (visits ++ [(source, delta)])) before e reason ∧
            ∀ f ∈ engine.graph.findings, ¬ f.IsAbout before.length := by
  obtain ⟨visits, hStops⟩ := run_stops hGraph around context start
  obtain ⟨done, edges, hCompiled⟩ := Graph.compile_ok hGraph
  have hReached : ∀ visits step w, Reaches around engine context start visits step w →
      ∀ f ∈ engine.graph.findings, f.element ≠ .step step :=
    fun _ _ _ hReaches f hf hElement => Graph.not_reached_of_finding hGraph hf hElement hReaches.reached
  refine ⟨?_, ?_, ?_⟩
  · intro step iteration hMem
    obtain ⟨visits', w, hReaches⟩ := hStops.reaches_of_stepStarted hMem
    exact hReached _ _ _ hReaches
  · intro o hResult step hStep
    rw [hResult] at hStops
    rw [hStops.outcome_eq.1, Visits.names] at hStep
    obtain ⟨⟨_, delta⟩, hVisit, rfl⟩ := List.mem_map.mp hStep
    obtain ⟨before, after, hSplit⟩ := List.append_of_mem hVisit
    obtain ⟨w, -, hReaches, -⟩ := hStops.visited hSplit
    exact hReached _ _ _ hReaches
  · intro source target reason hMem hReason
    obtain ⟨visits', delta, w, w', hReaches, hExecutes, rfl, rfl⟩ := hStops.executes_of_transition hMem
    obtain ⟨before, e, after, hSplit, hLeaves, hTarget⟩ := hCompiled.exists_leaves hReason
    have hName : e.target = (engine.decisionAfter context visits' source delta).target.name := by
      rw [decisionAfter, hTarget, Target.name_ofName]
    exact ⟨visits', delta, w, w', hReaches, hExecutes, before, e, after, hSplit, hLeaves.source_eq, hName,
      hLeaves, Graph.not_isAbout_of_leaves hGraph hSplit hLeaves⟩

/-- A blank condition, a second fallback, and a step to which nothing leads. -/
private def untidy : Description :=
  Description.startingAt "draft"
    |>.withStep "draft" (.ofKind "assign")
    |>.withStep "review" (.ofKind "assign")
    |>.withStep "archive" (.ofKind "assign")
    |>.withEdge (.guarded "draft" "archive" " ")
    |>.withEdge (.always "draft" "review")
    |>.withEdge (.always "draft" "archive")
    |>.withEdge (.guarded "review" terminalName "quality.ok")

private def untidySteps : Steps Unit where
  entries := [("draft", .assign .empty), ("review", .assign (Delta.empty.withQuality "ok" (.bool true))),
    ("archive", .assign .empty)]
  distinct := by decide

private def findingsIn : Except Error Graph → List Finding
  | .ok g => g.findings
  | .error _ => []

theorem findings_sound_untidy :
    ∃ engine : Engine Unit, Graph.compile untidy false = .ok engine.graph ∧
      engine.graph.findings = [.blankCondition 0, .shadowedFallback 2 "draft" 1,
        .unreachableStep "archive" "draft"] ∧
      (engine.run .still .empty ()).reports =
        [.runStarted "draft", .stepStarted "draft" 1, .stepCompleted "draft" 0 0,
          .transition "draft" "review" .fallback, .stepStarted "review" 2, .stepCompleted "review" 0 0,
          .transition "review" terminalName (.guard 0 "quality.ok"),
          .runFinished (.completed .terminalEdge) 2] ∧
      (∀ f ∈ engine.graph.findings, f.element ≠ .step "review") ∧
      ∃ before e after, untidy.edges = before ++ e :: after ∧ e.source = "draft" ∧ e.target = "review" ∧
        ∀ f ∈ engine.graph.findings, ¬ f.IsAbout before.length := by
  have hFound : findingsIn (Graph.compile untidy false) = [.blankCondition 0, .shadowedFallback 2 "draft" 1,
      .unreachableStep "archive" "draft"] := by decide +kernel
  have hRun : (traceOf? untidy untidySteps .standard .still .empty ()).map Trace.reports = some
      [.runStarted "draft", .stepStarted "draft" 1, .stepCompleted "draft" 0 0,
        .transition "draft" "review" .fallback, .stepStarted "review" 2, .stepCompleted "review" 0 0,
        .transition "review" terminalName (.guard 0 "quality.ok"),
        .runFinished (.completed .terminalEdge) 2] := by decide +kernel
  obtain ⟨t, hTrace, hReports⟩ := Option.map_eq_some_iff.mp hRun
  obtain ⟨engine, hGraph, -, rfl⟩ := exists_engine_of_traceOf? hTrace
  obtain ⟨hSteps, -, hTransitions⟩ := findings_sound hGraph .still .empty ()
  obtain ⟨-, -, -, -, -, -, before, e, after, hSplit, hSource, hTarget, -, hSpared⟩ :=
    hTransitions "draft" "review" .fallback (by simp [hReports]) (.inl rfl)
  rw [hGraph, findingsIn] at hFound
  exact ⟨engine, hGraph, hFound, hReports, hSteps "review" 2 (by simp [hReports]), before, e, after, hSplit,
    hSource, hTarget, hSpared⟩

end Engine

end Stepwise
