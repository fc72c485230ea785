import Stepwise.Run.Log
import Stepwise.Proofs.Json.Fields
import Stepwise.Proofs.Run.Events

/-! What the log of a run holds. Of all that a log receives, only the events of its own run matter, up to the
first final one; the level chooses among them by their kinds. So the logs of other runs, and lost events of
theirs, change nothing, and the log of a run that ended well tells its path. -/
namespace Stepwise

namespace Received

/-- Whether a log goes on after this. -/
def goesOn : Received → Bool
  | .event _ | .lagged _ => true
  | .closed | .cancelled => false

/-- An event of one run. -/
def eventOf? (runId : String) : Received → Option Event
  | .event e => if e.runId = runId then some e else none
  | .lagged _ | .closed | .cancelled => none

end Received

/-- The entry for an event, whatever the level. -/
def Event.logged (e : Event) : LogEntry :=
  ⟨e.runId, e.report.name, e.report.loggedStep?, e.report.detail⟩

namespace Report

/-- The step from which a transition leads. -/
def source? : Report → Option String
  | .transition source _ _ => some source
  | _ => none

/-- The step or the end to which a transition leads. -/
def target? : Report → Option String
  | .transition _ target _ => some target
  | _ => none

end Report

namespace RunLog

/-- The events of a run that its log receives before it has to stop. -/
def heard (runId : String) (items : List Received) : List Event :=
  (items.takeWhile Received.goesOn).filterMap (Received.eventOf? runId)

/-- Events up to the first final one, which is the last of its run. -/
def throughFinal (events : List Event) : List Event :=
  events.takeWhile (fun e => !e.isFinal) ++ (events.find? Event.isFinal).toList

/-- The kinds of events that a level admits: the summary of a run, then its steps, then its transitions. -/
def kindsAt (level : Nat) : List String :=
  ["run_started", "run_finished", "run_failed"] ++
    (if 2 ≤ level then ["step_started", "step_completed", "step_failed"] else []) ++
    if 3 ≤ level then ["transition"] else []

/-- The entries for events at a level. -/
def written (level : Nat) (events : List Event) : List LogEntry :=
  (events.filter fun e => (kindsAt level).contains e.report.name).map Event.logged

/-- The entries of one kind. -/
def ofKind (kind : String) (lines : List LogEntry) : List LogEntry :=
  lines.filter fun line => line.eventType == kind

/-! ### Levels -/

theorem level_admits_iff (level : Nat) (report : Report) :
    report.level = 1 ∨ report.level ≤ level ↔ (kindsAt level).contains report.name = true := by
  cases report <;> simp [Report.level, Report.name, kindsAt]

theorem contains_kindsAt_succ {level : Nat} {kind : String} (h : (kindsAt level).contains kind = true) :
    (kindsAt (level + 1)).contains kind = true := by
  rw [List.contains_iff_mem] at h ⊢
  simp only [kindsAt, List.mem_append] at h ⊢
  rcases h with (h | h) | h
  · exact .inl (.inl h)
  · split_ifs at h with hLevel
    · exact .inl (.inr (by rwa [if_pos (by omega)]))
    · cases h
  · split_ifs at h with hLevel
    · exact .inr (by rwa [if_pos (by omega)])
    · cases h

theorem entry?_eq (l : RunLog) (e : Event) :
    l.entry? e = if (kindsAt l.level).contains e.report.name then some e.logged else none := by
  unfold entry?
  simp only [level_admits_iff]
  rfl

theorem written_cons (level : Nat) (e : Event) (events : List Event) :
    written level (e :: events) =
      (if (kindsAt level).contains e.report.name then [e.logged] else []) ++ written level events := by
  unfold written
  rw [List.filter_cons]
  split_ifs <;> rfl

/-- A coarser level leaves finer kinds out and nothing else. -/
theorem written_eq_filter (level : Nat) (events : List Event) :
    written level events =
      (written (level + 1) events).filter fun line => (kindsAt level).contains line.eventType := by
  unfold written
  rw [List.filter_map, List.filter_filter]
  congr 1
  refine List.filter_congr fun e _ => ?_
  rw [Bool.eq_iff_iff, Bool.and_eq_true]
  exact ⟨fun h => ⟨h, contains_kindsAt_succ h⟩, And.left⟩

theorem ofKind_written {level : Nat} {kind : String} (h : (kindsAt level).contains kind = true)
    (events : List Event) :
    ofKind kind (written level events) =
      (events.filter fun e => e.report.name == kind).map Event.logged := by
  unfold ofKind written
  rw [List.filter_map, List.filter_filter]
  congr 1
  refine List.filter_congr fun e _ => ?_
  rw [Bool.eq_iff_iff, Bool.and_eq_true]
  refine ⟨And.left, fun hKind => ⟨hKind, ?_⟩⟩
  rwa [beq_iff_eq.mp hKind]

/-! ### One run among others -/

theorem heard_lagged (runId : String) (count : Nat) (items : List Received) :
    heard runId (.lagged count :: items) = heard runId items := rfl

theorem heard_event (runId : String) (e : Event) (items : List Received) :
    heard runId (.event e :: items) =
      if e.runId = runId then e :: heard runId items else heard runId items := by
  unfold heard
  rw [List.takeWhile_cons_of_pos rfl, List.filterMap_cons]
  split_ifs with hOwn <;> simp [Received.eventOf?, hOwn]

theorem throughFinal_cons (e : Event) (events : List Event) :
    throughFinal (e :: events) = e :: if e.isFinal then [] else throughFinal events := by
  unfold throughFinal
  cases hFinal : e.isFinal <;> simp [hFinal]

/-- A log holds the entries of its run's events, up to the first final one, that its level admits. -/
theorem entries_eq (l : RunLog) (runId : String) (items : List Received) :
    l.entries runId items = written l.level (throughFinal (heard runId items)) := by
  induction items with
  | nil => rfl
  | cons item rest ih =>
      cases item with
      | lagged count => rw [entries, heard_lagged, ih]
      | closed => rfl
      | cancelled => rfl
      | event e =>
          rw [entries, heard_event, ih]
          by_cases hOwn : e.runId = runId
          · rw [if_neg (not_not.mpr hOwn), if_pos hOwn, throughFinal_cons, written_cons, entry?_eq]
            congr 1
            · split_ifs <;> rfl
            · split_ifs <;> rfl
          · rw [if_pos hOwn, if_neg hOwn]

theorem runId_of_mem_heard {runId : String} {items : List Received} {e : Event}
    (h : e ∈ heard runId items) : e.runId = runId := by
  obtain ⟨item, -, hItem⟩ := List.mem_filterMap.mp h
  cases item with
  | event e' =>
      rw [Received.eventOf?] at hItem
      split_ifs at hItem with hOwn
      cases hItem
      exact hOwn
  | lagged | closed | cancelled => cases hItem

/-- Events of one run that arrive alone are all heard. -/
theorem heard_map_event {runId : String} {events : List Event} (h : ∀ e ∈ events, e.runId = runId) :
    heard runId (events.map .event) = events := by
  induction events with
  | nil => rfl
  | cons e rest ih =>
      rw [List.forall_mem_cons] at h
      rw [List.map_cons, heard_event, if_pos h.1, ih h.2]

/-- What comes after the last event of a run does not count. -/
theorem throughFinal_of_isPrefix {front events : List Event} {last : Event} (hLast : last.isFinal = true)
    (hFront : ∀ e ∈ front, e.isFinal = false) (h : front ++ [last] <+: events) :
    throughFinal events = front ++ [last] := by
  obtain ⟨later, rfl⟩ := h
  induction front with
  | nil => simp [throughFinal_cons, hLast]
  | cons e front ih =>
      rw [List.forall_mem_cons] at hFront
      rw [List.cons_append, List.cons_append, throughFinal_cons, hFront.1, ih hFront.2]
      rfl

end RunLog

/-! ### The log of a run that ended well -/

namespace Report

/-- What reports of one kind show is what can be picked from all reports, if nothing can be picked from other
kinds. -/
theorem map_filter_name {α β : Type} {kind : String} {view : Report → α} {pick : Report → Option β}
    {put : β → α}
    (h : ∀ report, (if report.name == kind then some (view report) else none) = (pick report).map put)
    (reports : List Report) :
    (reports.filter fun report => report.name == kind).map view = (reports.filterMap pick).map put := by
  rw [List.map_filterMap, ← List.filterMap_eq_map', List.filterMap_filter]
  simp only [h]

theorem map_loggedStep?_completed (reports : List Report) :
    (reports.filter fun report => report.name == "step_completed").map loggedStep? =
      (reports.filterMap completedStep?).map some :=
  map_filter_name (fun report => by cases report <;> rfl) reports

theorem map_loggedStep?_transition (reports : List Report) :
    (reports.filter fun report => report.name == "transition").map loggedStep? =
      (reports.filterMap source?).map some :=
  map_filter_name (fun report => by cases report <;> rfl) reports

theorem detail_transition_to (source target : String) (reason : RouteReason) :
    (detail (.transition source target reason)).get? "to" = some (.string target) := by
  have hOther : "to" ≠ "reason" := by decide
  exact (Json.lookup_insertField_of_ne _ _ hOther).trans (Json.lookup_insertField_self _ _ _)

theorem map_detail_to_transition (reports : List Report) :
    (reports.filter fun report => report.name == "transition").map (fun report => report.detail.get? "to") =
      (reports.filterMap target?).map fun target => some (.string target) := by
  refine map_filter_name (fun report => ?_) reports
  cases report with
  | transition source target reason => exact congrArg some (detail_transition_to source target reason)
  | _ => rfl

theorem detail_runFinished_executed (status : RunStatus) (executed : Nat) :
    (detail (.runFinished status executed)).get? "steps_executed" = some (.number (.int executed)) :=
  Json.lookup_insertField_self _ _ _

end Report

namespace Engine

variable {W : Type} {engine : Engine W} {context : Object} {visits : Visits}
variable {journal ending : List Report} {r : Except Error Outcome}

theorem Journal.exists_cons (h : Journal engine context visits journal) :
    ∃ rest, journal = .runStarted engine.graph.start :: rest := by
  induction h with
  | start => exact ⟨[], rfl⟩
  | visit prior delta elapsed ih =>
      obtain ⟨rest, rfl⟩ := ih
      exact ⟨_, List.cons_append⟩

theorem Journal.sources_eq (h : Journal engine context visits journal) :
    journal.filterMap Report.source? = visits.names := by
  induction h with
  | start => rfl
  | visit prior delta elapsed ih =>
      rw [List.filterMap_append, ih, Visits.names_concat]
      rfl

/-- Each transition leads to the next visit, and the last one to where the run has come. -/
theorem Journal.targets_eq (h : Journal engine context visits journal) :
    journal.filterMap Report.target? = (visits.names ++ [engine.comesTo context visits]).tail := by
  induction h with
  | start => rfl
  | visit prior delta elapsed ih =>
      rw [List.filterMap_append, ih, Visits.names_concat, comesTo_concat]
      rw [List.tail_append_of_ne_nil (List.concat_ne_nil _ _)]
      rfl

theorem Ending.sources_eq (h : Ending engine context visits r ending) :
    ending.filterMap Report.source? = [] := by
  cases h <;> rfl

theorem Ending.targets_eq (h : Ending engine context visits r ending) :
    ending.filterMap Report.target? = [] := by
  cases h <;> rfl

/-- The ending of a run that ended well says so in its last report. -/
theorem Ending.exists_concat {o : Outcome} (h : Ending engine context visits (.ok o) ending) :
    ∃ front, ending = front ++ [.runFinished o.status visits.length] := by
  cases h with
  | finished => exact ⟨[], rfl⟩
  | interrupted hCancelled =>
      rw [hCancelled]
      exact ⟨[_], rfl⟩

end Engine

namespace RunLog

theorem map_ofKind_written {α : Type} {level : Nat} {kind : String}
    (h : (kindsAt level).contains kind = true) (runId : String) (reports : List Report)
    (view : LogEntry → α) :
    (ofKind kind (written level (reports.map (⟨runId, ·⟩)))).map view =
      (reports.filter fun report => report.name == kind).map
        fun report => view (Event.logged ⟨runId, report⟩) := by
  rw [ofKind_written h, List.filter_map, List.map_map, List.map_map]
  rfl

/-- The lines of a log tell how a run came to its outcome: they begin with its start and end with its finish.
With the steps among them they tell its path, and with the transitions also how it went on from each step to
the next. -/
structure Tells (level : Nat) (lines : List LogEntry) (o : Outcome) : Prop where
  first : ∃ line, lines.head? = some line ∧ line.eventType = "run_started"
  last : ∃ line, lines.getLast? = some line ∧ line.eventType = "run_finished" ∧
    line.detail.get? "steps_executed" = some (.number (.int o.stepsExecuted))
  path : 2 ≤ level → (ofKind "step_completed" lines).map LogEntry.step = o.path.map some
  executed : 2 ≤ level → o.stepsExecuted = (ofKind "step_completed" lines).length
  transitions : 3 ≤ level → ∀ k line, (ofKind "transition" lines)[k]? = some line →
    line.step = o.path[k]? ∧
      ∀ next, o.path[k + 1]? = some next → line.detail.get? "to" = some (.string next)

section

variable {W : Type} {engine : Engine W} {context : Object} {visits : Visits}
variable {journal ending : List Report} {o : Outcome}

/-- The transitions of a run that ended well lead from each step of its path to the next one. -/
theorem transitions_of_journal (hJournal : engine.Journal context visits journal)
    (hEnding : engine.Ending context visits (.ok o) ending) (hPath : o.path = visits.names) {level : Nat}
    (hLevel : 3 ≤ level) (runId : String) {k : Nat} {line : LogEntry}
    (hLine : (ofKind "transition" (written level ((journal ++ ending).map (⟨runId, ·⟩))))[k]? = some line) :
    line.step = o.path[k]? ∧
      ∀ next, o.path[k + 1]? = some next → line.detail.get? "to" = some (.string next) := by
  have hKind : (kindsAt level).contains "transition" = true := by simp [kindsAt, hLevel]
  have hSources := (map_ofKind_written hKind runId (journal ++ ending) LogEntry.step).trans
    (Report.map_loggedStep?_transition _)
  rw [List.filterMap_append, hJournal.sources_eq, hEnding.sources_eq, List.append_nil, ← hPath] at hSources
  have hTargets := (map_ofKind_written hKind runId (journal ++ ending) fun line => line.detail.get? "to").trans
    (Report.map_detail_to_transition _)
  rw [List.filterMap_append, hJournal.targets_eq, hEnding.targets_eq, List.append_nil, ← hPath] at hTargets
  have hSource := congrArg (fun steps => steps[k]?) hSources
  have hTarget := congrArg (fun targets => targets[k]?) hTargets
  simp only [List.getElem?_map, hLine, Option.map_some] at hSource hTarget
  refine ⟨?_, fun next hNext => ?_⟩
  · obtain ⟨step, hStep, hEq⟩ := Option.map_eq_some_iff.mp hSource.symm
    rw [hStep, ← hEq]
  · have hBelow : k + 1 < o.path.length := (List.getElem?_eq_some_iff.mp hNext).1
    rw [List.getElem?_tail, List.getElem?_append_left hBelow, hNext] at hTarget
    exact Option.some.inj hTarget

theorem tells_of_journal (hJournal : engine.Journal context visits journal)
    (hEnding : engine.Ending context visits (.ok o) ending) (hPath : o.path = visits.names) (level : Nat)
    (runId : String) : Tells level (written level ((journal ++ ending).map (⟨runId, ·⟩))) o := by
  have hPaths : 2 ≤ level →
      (ofKind "step_completed" (written level ((journal ++ ending).map (⟨runId, ·⟩)))).map
        LogEntry.step = o.path.map some := by
    intro hLevel
    have hKind : (kindsAt level).contains "step_completed" = true := by simp [kindsAt, hLevel]
    rw [map_ofKind_written hKind, hPath, ← hJournal.completed_eq,
      ← List.append_nil (journal.filterMap _), ← hEnding.completed_eq, ← List.filterMap_append]
    exact Report.map_loggedStep?_completed _
  have hExecuted : o.stepsExecuted = visits.length := by
    rw [Outcome.stepsExecuted, hPath, Visits.names, List.length_map]
  refine ⟨?_, ?_, hPaths, fun hLevel => ?_,
    fun hLevel k line hLine => transitions_of_journal hJournal hEnding hPath hLevel runId hLine⟩
  · obtain ⟨rest, rfl⟩ := hJournal.exists_cons
    rw [List.cons_append, List.map_cons, written_cons, if_pos (by simp [kindsAt, Report.name])]
    exact ⟨_, rfl, rfl⟩
  · obtain ⟨front, rfl⟩ := hEnding.exists_concat
    refine ⟨Event.logged ⟨runId, .runFinished o.status visits.length⟩, ?_, rfl, ?_⟩
    · simp [written, kindsAt, Report.name]
    · rw [hExecuted]
      exact Report.detail_runFinished_executed _ _
  · have hLength := congrArg List.length (hPaths hLevel)
    simpa [Outcome.stepsExecuted] using hLength.symm

end

/-- The log of a run holds the entries that its level admits for the events of that run, up to the first
final one or to the end of the log, in order and each once. So it is what it would be if the events of the run
came alone, and a coarser level only leaves finer kinds out. If all events of a run that ended well are
heard, the log tells how the run came to its outcome. -/
theorem audit_trail {W : Type} (dir : String) (level : Nat) (runId : String) (items : List Received) :
    let lines := entries ⟨dir, level⟩ runId items
    lines = written level (throughFinal (heard runId items)) ∧
    lines = entries ⟨dir, level⟩ runId ((heard runId items).map .event) ∧
    lines = (entries ⟨dir, level + 1⟩ runId items).filter
      (fun line => (kindsAt level).contains line.eventType) ∧
    ∀ {d : Description} {strict : Bool} {engine : Engine W},
      Graph.compile d strict = .ok engine.graph →
      ∀ (around : Surroundings W) (context : Object) (start : W) (o : Outcome),
        (engine.run around context start).result = .ok o →
        (engine.run around context start).events runId <+: heard runId items →
        Tells level lines o := by
  dsimp only
  refine ⟨entries_eq _ _ _, ?_, ?_, ?_⟩
  · rw [entries_eq, entries_eq, heard_map_event fun e => runId_of_mem_heard]
  · rw [entries_eq, entries_eq, ← written_eq_filter]
  · intro d strict engine hGraph around context start o hResult hHeard
    obtain ⟨visits, hStops⟩ := Engine.run_stops hGraph around context start
    obtain ⟨journal, ending, hJournal, hEnding, hReports⟩ := hStops.exists_journal
    rw [hResult] at hStops hEnding
    have hEvents : (engine.run around context start).events runId =
        (journal ++ ending).map (⟨runId, ·⟩) := by rw [Trace.events, hReports]
    have hThrough : throughFinal (heard runId items) = (journal ++ ending).map (⟨runId, ·⟩) := by
      obtain ⟨front, last, hSplit, hLast, hFront⟩ := hJournal.exists_last hEnding
      rw [hEvents, hSplit, List.map_append] at hHeard
      rw [hSplit, List.map_append]
      refine throughFinal_of_isPrefix hLast (fun e he => ?_) hHeard
      obtain ⟨report, hReport, rfl⟩ := List.mem_map.mp he
      exact hFront report hReport
    rw [entries_eq, hThrough]
    exact tells_of_journal hJournal hEnding hStops.outcome_eq.1 level runId

private def visitors : Steps Unit where
  entries := [("a", .assign .empty), ("b", .assign .empty), ("c", .assign .empty)]
  distinct := by decide

/-- Before each event another run ends and events are lost; behind all of them the log is told to stop, and
one more event comes. -/
private def amid (events : List Event) : List Received :=
  (events.flatMap fun e => [.event ⟨"other", .runFinished .cancelled 0⟩, .lagged 2, .event e]) ++
    [.cancelled, .event ⟨"r", .runFailed "late"⟩]

theorem audit_trail_amid :
    ∃ engine : Engine Unit, Graph.compile Sample.routing false = .ok engine.graph ∧
      ∃ o, (engine.run .still .empty ()).result = .ok o ∧ o.path = ["a", "c"] ∧
        (engine.run .still .empty ()).events "r" <+:
          heard "r" (amid ((engine.run .still .empty ()).events "r")) ∧
        Tells 3 (entries ⟨"runs", 3⟩ "r" (amid ((engine.run .still .empty ()).events "r"))) o := by
  have hRecord : (Engine.traceOf? Sample.routing visitors .standard .still .empty ()).map
      (fun t => (t.path?, t.reports)) = some (some ["a", "c"],
      [.runStarted "a", .stepStarted "a" 1, .stepCompleted "a" 0 0, .transition "a" "c" .fallback,
        .stepStarted "c" 2, .stepCompleted "c" 0 0, .transition "c" "__end__" .fallback,
        .runFinished (.completed .terminalEdge) 2]) := by decide +kernel
  obtain ⟨t, hTrace, hRecord⟩ := Option.map_eq_some_iff.mp hRecord
  obtain ⟨hPath, hReports⟩ := Prod.mk.inj hRecord
  obtain ⟨engine, hGraph, -, rfl⟩ := Engine.exists_engine_of_traceOf? hTrace
  obtain ⟨o, hResult, hPath⟩ := Trace.exists_outcome_of_path? hPath
  have hHeard : (engine.run .still .empty ()).events "r" <+:
      heard "r" (amid ((engine.run .still .empty ()).events "r")) := by
    rw [Trace.events, hReports]
    decide +kernel
  obtain ⟨-, -, -, hTells⟩ := audit_trail (W := Unit) "runs" 3 "r"
    (amid ((engine.run .still .empty ()).events "r"))
  exact ⟨engine, hGraph, o, hResult, hPath, hHeard, hTells hGraph .still .empty () o hResult hHeard⟩

end RunLog

end Stepwise
