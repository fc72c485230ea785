import Mathlib.Algebra.Ring.Nat
import Stepwise.Process.Sample
import Stepwise.Proofs.Run.Walk

/-! What a run reports. Its start; for every visit that the step began, that it was completed, and where the
run went from there; and one of three endings. The reports follow the visits of the walk, so whatever holds
of the reports in each round holds of the whole record. -/
namespace Stepwise

namespace Report

def startedStep? : Report → Option String
  | .stepStarted step _ => some step
  | _ => none

def completedStep? : Report → Option String
  | .stepCompleted step _ _ => some step
  | _ => none

/-- The log records that a report announces. -/
def records : Report → Nat
  | .stepCompleted _ _ logRecords => logRecords
  | _ => 0

/-- Every transition leads to the step that is begun next, if one is. -/
def Chained (reports : List Report) : Prop :=
  ∀ before source target reason after, reports = before ++ .transition source target reason :: after →
    ∀ step ∈ after.findSome? startedStep?, step = target

theorem chained_cons_of_ne {r : Report} {reports : List Report}
    (hOther : ∀ source target reason, r ≠ .transition source target reason) (h : Chained reports) :
    Chained (r :: reports) := by
  rintro (_ | ⟨first, before⟩) source target reason after hSplit
  · exact absurd (List.cons.inj hSplit).1 (hOther source target reason)
  · exact h before source target reason after (List.cons.inj hSplit).2

theorem chained_cons_transition {source target : String} {reason : RouteReason} {reports : List Report}
    (hNext : ∀ step ∈ reports.findSome? startedStep?, step = target) (h : Chained reports) :
    Chained (.transition source target reason :: reports) := by
  rintro (_ | ⟨first, before⟩) source' target' reason' after hSplit
  · cases hSplit
    exact hNext
  · exact h before source' target' reason' after (List.cons.inj hSplit).2

theorem chained_nil : Chained [] := by
  intro before source target reason after hSplit
  simp at hSplit

end Report

theorem Trace.map_report_events {W : Type} (t : Trace W) (runId : String) :
    (t.events runId).map Event.report = t.reports := by
  rw [Trace.events, List.map_map]
  exact List.map_id _

namespace Engine

variable {W : Type}

section

variable (engine : Engine W) (context : Object)

/-- The step to which a run comes after some visits: the start, or where the last of them led. -/
def comesTo (visits : Visits) : String :=
  match visits.getLast? with
  | none => engine.graph.start
  | some (step, _) => (engine.graph.next step (Visits.state context visits)).target.name

/-- The reports of one more visit, which took some time and returned this delta. -/
def visitReports (visits : Visits) (delta : Delta) (elapsed : Nat) : List Report :=
  let step := engine.comesTo context visits
  let decision := engine.decisionAfter context visits step delta
  [.stepStarted step (visits.length + 1), .stepCompleted step elapsed delta.log.length,
    .transition step decision.target.name decision.reason]

/-- What a run has reported when it has some visits behind it and has not begun the next. -/
inductive Journal : Visits → List Report → Prop where
  | start : Journal [] [.runStarted engine.graph.start]
  | visit {visits : Visits} {reports : List Report} (prior : Journal visits reports) (delta : Delta)
      (elapsed : Nat) :
      Journal (visits ++ [(engine.comesTo context visits, delta)])
        (reports ++ engine.visitReports context visits delta elapsed)

/-- What a run with this result reports after its last visit. -/
inductive Ending (visits : Visits) : Except Error Outcome → List Report → Prop where
  | finished (o : Outcome) : Ending visits (.ok o) [.runFinished o.status visits.length]
  | interrupted {o : Outcome} (hCancelled : o.status = .cancelled) :
      Ending visits (.ok o)
        [.stepStarted (engine.comesTo context visits) (visits.length + 1),
          .runFinished .cancelled visits.length]
  | failed {e : Error} {message : String}
      (hError : e = .stepFailed (engine.comesTo context visits) message) :
      Ending visits (.error e)
        [.stepStarted (engine.comesTo context visits) (visits.length + 1),
          .stepFailed (engine.comesTo context visits) e.message, .runFailed e.message]

end

variable {around : Surroundings W} {engine : Engine W} {context : Object}
variable {visits : Visits} {current : String} {start w w' : W}

theorem comesTo_concat (visits : Visits) (current : String) (delta : Delta) :
    engine.comesTo context (visits ++ [(current, delta)]) =
      (engine.decisionAfter context visits current delta).target.name := by
  simp [comesTo, decisionAfter]

theorem Reaches.current_eq (h : Reaches around engine context start visits current w) :
    current = engine.comesTo context visits := by
  cases h with
  | start => rfl
  | next prior last hNext => exact (comesTo_concat _ _ _).symm

/-! ### The record of a run -/

/-- A visit that is completed is reported before the rest of the walk. -/
theorem Executes.exists_reports {delta : Delta}
    (h : Executes around engine context visits (engine.comesTo context visits) w (.finished delta) w') :
    ∃ elapsed, (rest around engine context visits (engine.comesTo context visits) w).reports =
      engine.visitReports context visits delta elapsed ++
        match (engine.decisionAfter context visits (engine.comesTo context visits) delta).termination? with
        | some reason => [.runFinished (.completed reason) (visits.length + 1)]
        | none =>
          (rest around engine context (visits ++ [(engine.comesTo context visits, delta)])
            (engine.comesTo context (visits ++ [(engine.comesTo context visits, delta)])) w').reports := by
  refine ⟨around.clock w' - around.clock (around.observe w).2, ?_⟩
  rw [h.rest_eq, comesTo_concat]
  dsimp only [round]
  cases (engine.decisionAfter context visits (engine.comesTo context visits) delta).termination? with
  | some reason => rfl
  | none => rfl

/-- Where a run has come to, it has reported its visits, and the rest of the walk reports what follows. -/
theorem Reaches.exists_journal (h : Reaches around engine context start visits current w) :
    ∃ journal, Journal engine context visits journal ∧
      (engine.run around context start).reports =
        journal ++ (rest around engine context visits current w).reports := by
  induction h with
  | start => exact ⟨_, .start, rfl⟩
  | next prior last hNext ih =>
      obtain ⟨journal, hJournal, hReports⟩ := ih
      obtain rfl := prior.current_eq
      obtain ⟨elapsed, hVisit⟩ := last.exists_reports
      refine ⟨_, hJournal.visit _ elapsed, ?_⟩
      rw [hReports, hVisit, hNext, comesTo_concat, List.append_assoc]

/-- Where a run stops, it has reported its visits and an ending that befits its result. -/
theorem Stops.exists_journal {r : Except Error Outcome}
    (h : Stops around engine context start visits r) :
    ∃ journal ending, Journal engine context visits journal ∧ Ending engine context visits r ending ∧
      (engine.run around context start).reports = journal ++ ending := by
  cases h with
  | completed prior last hEnd =>
      obtain ⟨journal, hJournal, hReports⟩ := prior.exists_journal
      obtain rfl := prior.current_eq
      obtain ⟨elapsed, hVisit⟩ := last.exists_reports
      refine ⟨_, _, hJournal.visit _ elapsed, .finished _, ?_⟩
      rw [hReports, hVisit, hEnd, List.append_assoc, List.length_append, List.length_singleton]
      rfl
  | cancelledBefore prior hSeen =>
      obtain ⟨journal, hJournal, hReports⟩ := prior.exists_journal
      exact ⟨journal, _, hJournal, .finished _, by rw [hReports, rest_of_cancelled hSeen]; rfl⟩
  | aborted prior hUnseen hSpent =>
      obtain ⟨journal, hJournal, hReports⟩ := prior.exists_journal
      exact ⟨journal, _, hJournal, .finished _, by rw [hReports, rest_of_spent hUnseen hSpent]; rfl⟩
  | cancelledDuring prior last =>
      obtain ⟨journal, hJournal, hReports⟩ := prior.exists_journal
      obtain rfl := prior.current_eq
      exact ⟨journal, _, hJournal, .interrupted rfl, by rw [hReports, last.rest_eq]; rfl⟩
  | failed prior last =>
      obtain ⟨journal, hJournal, hReports⟩ := prior.exists_journal
      obtain rfl := prior.current_eq
      exact ⟨journal, _, hJournal, .failed rfl, by rw [hReports, last.rest_eq]; rfl⟩

/-! ### What the reports tell -/

variable {journal ending : List Report} {r : Except Error Outcome}

/-- Apart from the start, what a journal holds are the reports of its visits. -/
theorem Journal.mem_inv (h : Journal engine context visits journal) {report : Report}
    (hMem : report ∈ journal) :
    report = .runStarted engine.graph.start ∨ ∃ before delta after elapsed,
      visits = before ++ (engine.comesTo context before, delta) :: after ∧
        report ∈ engine.visitReports context before delta elapsed := by
  induction h with
  | start => exact .inl (List.mem_singleton.mp hMem)
  | @visit visits reports prior delta elapsed ih =>
      rcases List.mem_append.mp hMem with hPrior | hVisit
      · rcases ih hPrior with hStart | ⟨before, delta', after, elapsed', rfl, hReport⟩
        · exact .inl hStart
        · exact .inr ⟨before, delta', _, elapsed', List.append_assoc _ _ _, hReport⟩
      · exact .inr ⟨visits, delta, [], elapsed, rfl, hVisit⟩

theorem Journal.completed_eq (h : Journal engine context visits journal) :
    journal.filterMap Report.completedStep? = visits.names := by
  induction h with
  | start => rfl
  | visit prior delta elapsed ih =>
      rw [List.filterMap_append, ih, Visits.names_concat]
      rfl

theorem Journal.sum_records (h : Journal engine context visits journal) :
    (journal.map Report.records).sum = (Visits.state context visits).log.length := by
  induction h with
  | start => rfl
  | visit prior delta elapsed ih =>
      rw [List.map_append, List.sum_append, ih, Visits.state_concat, State.apply, List.length_append]
      simp [visitReports, Report.records]

theorem Journal.not_final (h : Journal engine context visits journal) :
    ∀ report ∈ journal, report.isFinal = false := by
  induction h with
  | start => simp [Report.isFinal]
  | visit prior delta elapsed ih =>
      intro report hReport
      rcases List.mem_append.mp hReport with hPrior | hVisit
      · exact ih report hPrior
      · simp only [visitReports, List.mem_cons, List.not_mem_nil, or_false] at hVisit
        rcases hVisit with rfl | rfl | rfl <;> rfl

/-- The transitions of a journal lead on to what follows it, if that begins where the journal has come
to. -/
theorem Journal.chained (h : Journal engine context visits journal) {reports : List Report}
    (hNext : ∀ step ∈ reports.findSome? Report.startedStep?, step = engine.comesTo context visits)
    (hReports : Report.Chained reports) : Report.Chained (journal ++ reports) := by
  induction h generalizing reports with
  | start => exact Report.chained_cons_of_ne nofun hReports
  | visit prior delta elapsed ih =>
      rw [List.append_assoc]
      refine ih ?_ ?_
      · intro step hStep
        exact (Option.some.inj hStep).symm
      · refine Report.chained_cons_of_ne nofun (Report.chained_cons_of_ne nofun ?_)
        refine Report.chained_cons_transition ?_ hReports
        rw [← comesTo_concat]
        exact hNext

theorem Ending.started_eq (h : Ending engine context visits r ending) :
    ∀ step ∈ ending.findSome? Report.startedStep?, step = engine.comesTo context visits := by
  intro step hStep
  cases h with
  | finished o => cases hStep
  | interrupted hCancelled => exact (Option.some.inj hStep).symm
  | failed hError => exact (Option.some.inj hStep).symm

/-- A step that is begun and not completed is the one to which the run has come, and it ends the run. -/
theorem Ending.stepStarted_inv (h : Ending engine context visits r ending) {step : String} {iteration : Nat}
    (hMem : .stepStarted step iteration ∈ ending) :
    step = engine.comesTo context visits ∧ ∀ o, r = .ok o → o.isCompleted = false := by
  cases h with
  | finished o => simp at hMem
  | @interrupted o hCancelled =>
      simp only [List.mem_cons, List.not_mem_nil, or_false, reduceCtorEq, Report.stepStarted.injEq] at hMem
      refine ⟨hMem.1, ?_⟩
      rintro _ ⟨⟩
      rw [Outcome.isCompleted, hCancelled]
  | failed hError =>
      simp only [List.mem_cons, List.not_mem_nil, or_false, reduceCtorEq, Report.stepStarted.injEq] at hMem
      exact ⟨hMem.1, nofun⟩

theorem Ending.transition_not_mem (h : Ending engine context visits r ending) {source target : String}
    {reason : RouteReason} : .transition source target reason ∉ ending := by
  cases h <;> simp

theorem Ending.chained (h : Ending engine context visits r ending) : Report.Chained ending := by
  cases h with
  | finished o => exact Report.chained_cons_of_ne nofun Report.chained_nil
  | interrupted hCancelled =>
      exact Report.chained_cons_of_ne nofun (Report.chained_cons_of_ne nofun Report.chained_nil)
  | failed hError =>
      refine Report.chained_cons_of_ne nofun (Report.chained_cons_of_ne nofun ?_)
      exact Report.chained_cons_of_ne nofun Report.chained_nil

/-- An ending has one final report, its last. -/
theorem Ending.exists_last (h : Ending engine context visits r ending) :
    ∃ front last, ending = front ++ [last] ∧ last.isFinal = true ∧
      ∀ report ∈ front, report.isFinal = false := by
  cases h with
  | finished o => exact ⟨[], _, rfl, rfl, nofun⟩
  | interrupted hCancelled => exact ⟨[_], _, rfl, rfl, by simp [Report.isFinal]⟩
  | failed hError => exact ⟨[_, _], _, rfl, rfl, by simp [Report.isFinal]⟩

/-- Of all that a run reports, the last report and no other is final. -/
theorem Journal.exists_last (hJournal : Journal engine context visits journal)
    (hEnding : Ending engine context visits r ending) :
    ∃ front last, journal ++ ending = front ++ [last] ∧ last.isFinal = true ∧
      ∀ report ∈ front, report.isFinal = false := by
  obtain ⟨front, last, rfl, hLast, hFront⟩ := hEnding.exists_last
  refine ⟨journal ++ front, last, (List.append_assoc _ _ _).symm, hLast, fun report hReport => ?_⟩
  exact (List.mem_append.mp hReport).elim (hJournal.not_final report) (hFront report)

theorem Ending.completed_eq (h : Ending engine context visits r ending) :
    ending.filterMap Report.completedStep? = [] := by
  cases h <;> rfl

theorem Ending.sum_records (h : Ending engine context visits r ending) :
    (ending.map Report.records).sum = 0 := by
  cases h <;> rfl

theorem Ending.runFinished_inv (h : Ending engine context visits r ending) {status : RunStatus}
    {executed : Nat} (hMem : .runFinished status executed ∈ ending) :
    (∃ o, r = .ok o ∧ status = o.status) ∧ executed = visits.length := by
  cases h with
  | finished o =>
      cases List.mem_singleton.mp hMem
      exact ⟨⟨o, rfl, rfl⟩, rfl⟩
  | @interrupted o hCancelled =>
      simp only [List.mem_cons, List.not_mem_nil, or_false, reduceCtorEq, false_or] at hMem
      cases hMem
      exact ⟨⟨o, rfl, hCancelled.symm⟩, rfl⟩
  | failed hError => simp at hMem

/-- The events of a run, all under its own id: its start, the reports of its visits, and an ending. The one
final event is the last; every transition leads to the step begun next; a run that finishes tells its status
and how many steps were completed; and the completed steps announce every record of the final log. -/
theorem events_protocol {d : Description} {strict : Bool} {engine : Engine W}
    (hGraph : Graph.compile d strict = .ok engine.graph) (around : Surroundings W) (context : Object)
    (start : W) (runId : String) :
    let run := engine.run around context start
    let events := run.events runId
    (∃ visits journal ending, Stops around engine context start visits run.result ∧
      Journal engine context visits journal ∧ Ending engine context visits run.result ending ∧
      events = (journal ++ ending).map (⟨runId, ·⟩)) ∧
    (∃ front last, events = front ++ [last] ∧ last.isFinal = true ∧ ∀ e ∈ front, e.isFinal = false) ∧
    Report.Chained (events.map Event.report) ∧
    (∀ status executed, ⟨runId, .runFinished status executed⟩ ∈ events →
      (∃ o, run.result = .ok o ∧ status = o.status) ∧
        executed = ((events.map Event.report).filterMap Report.completedStep?).length) ∧
    ∀ o, run.result = .ok o →
      ((events.map Event.report).map Report.records).sum = o.state.log.length := by
  obtain ⟨visits, hStops⟩ := run_stops hGraph around context start
  obtain ⟨journal, ending, hJournal, hEnding, hReports⟩ := hStops.exists_journal
  dsimp only
  have hEvents : (engine.run around context start).events runId =
      (journal ++ ending).map (⟨runId, ·⟩) := by rw [Trace.events, hReports]
  rw [Trace.map_report_events, hReports]
  refine ⟨⟨visits, journal, ending, hStops, hJournal, hEnding, hEvents⟩, ?_,
    hJournal.chained hEnding.started_eq hEnding.chained, ?_, ?_⟩
  · obtain ⟨front, last, hSplit, hLast, hFront⟩ := hJournal.exists_last hEnding
    refine ⟨front.map (⟨runId, ·⟩), ⟨runId, last⟩, by rw [hEvents, hSplit, List.map_append]; rfl,
      hLast, ?_⟩
    intro e he
    obtain ⟨report, hReport, rfl⟩ := List.mem_map.mp he
    exact hFront report hReport
  · intro status executed hMem
    have hReport : .runFinished status executed ∈ journal ++ ending := by
      rw [hEvents] at hMem
      obtain ⟨report, hReport, hEq⟩ := List.mem_map.mp hMem
      cases hEq
      exact hReport
    rcases List.mem_append.mp hReport with hEarly | hLate
    · cases hJournal.not_final _ hEarly
    · obtain ⟨hStatus, rfl⟩ := hEnding.runFinished_inv hLate
      refine ⟨hStatus, ?_⟩
      rw [List.filterMap_append, hJournal.completed_eq, hEnding.completed_eq, List.append_nil,
        Visits.names, List.length_map]
  · intro o hResult
    rw [hResult] at hStops
    rw [List.map_append, List.sum_append, hJournal.sum_records, hEnding.sum_records,
      hStops.outcome_eq.2]
    rfl

/-- Surroundings that count how often a run looks whether it is cancelled, and cancel it at the fourth look:
while the second step executes. -/
private def hasty : Surroundings Nat := { Surroundings.still with
  observe looks := (looks == 3, looks + 1)
  clock looks := 5 * looks }

/-- The first step leaves two records in the log. -/
private def rally : Steps Nat where
  entries := [("ping", .assign ⟨.empty, .empty, .empty, [.empty, .empty]⟩), ("pong", .assign .empty)]
  distinct := by decide

theorem events_protocol_interrupted :
    ∃ engine : Engine Nat, Graph.compile Sample.cycle false = .ok engine.graph ∧
      (engine.run hasty .empty 0).reports =
        [.runStarted "ping", .stepStarted "ping" 1, .stepCompleted "ping" 5 2,
          .transition "ping" "pong" .fallback, .stepStarted "pong" 2, .runFinished .cancelled 1] ∧
      ∃ visits journal ending,
        Stops hasty engine .empty 0 visits (engine.run hasty .empty 0).result ∧
          Journal engine .empty visits journal ∧
          Ending engine .empty visits (engine.run hasty .empty 0).result ending ∧
          (engine.run hasty .empty 0).events "r" = (journal ++ ending).map (⟨"r", ·⟩) := by
  have hReports : (traceOf? Sample.cycle rally .standard hasty .empty 0).map Trace.reports = some
      [.runStarted "ping", .stepStarted "ping" 1, .stepCompleted "ping" 5 2,
        .transition "ping" "pong" .fallback, .stepStarted "pong" 2, .runFinished .cancelled 1] := by
    decide +kernel
  obtain ⟨t, hTrace, hReports⟩ := Option.map_eq_some_iff.mp hReports
  obtain ⟨engine, hGraph, -, rfl⟩ := exists_engine_of_traceOf? hTrace
  exact ⟨engine, hGraph, hReports, (events_protocol hGraph hasty .empty 0 "r").1⟩

end Engine

end Stepwise
