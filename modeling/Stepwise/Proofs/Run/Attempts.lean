import Stepwise.Proofs.Guard.Numeral
import Stepwise.Proofs.Guard.Spelling
import Stepwise.Proofs.Json.Fields
import Stepwise.Proofs.Process.Routing
import Stepwise.Proofs.Run.Retention
import Stepwise.Proofs.Step.Builtin

/-! Loops that a count of attempts bounds. Judges with the default rule count their reviews under
`quality.attempts`, all of them together; if no other step writes there, the count is the number of reviews. A
judge whose first guard ends the run when the count reaches a limit therefore reviews at most that often. -/
namespace Stepwise

/-! ### The count -/

/-- How a state tells a number of reviews: not at all until there is one. -/
def Judge.tally (reviews : Nat) : Option Json :=
  if reviews = 0 then none else some (.number (.int reviews))

theorem Judge.attempts_of_tally {s : State} {reviews : Nat} (h : s.quality.get? "attempts" = tally reviews)
    (hSmall : reviews < 2 ^ 63) : attempts s = reviews := by
  rw [attempts, h, tally]
  split_ifs with hZero
  · rw [hZero]
    rfl
  · have hHigh : (reviews : Int) ≤ Int.pow 2 63 - 1 := by
      have hPow : Int.pow 2 63 = ((2 ^ 63 : Nat) : Int) := by decide
      rw [hPow]
      omega
    have hLow : -Int.pow 2 63 ≤ (reviews : Int) := Int.le_trans (by decide) (Int.natCast_nonneg _)
    rw [Option.map_some, Option.getD_some, attemptsOf, clampInt64, min_eq_left hHigh, max_eq_right hLow]

theorem Judge.get?_defaultDelta (j : Judge) (s : State) :
    (j.defaultDelta s).quality.get? "attempts" = some (.number (.int (attempts s + 1))) :=
  Object.get?_insert_self _ _ _

namespace State

/-- An entry that a delta does not have stays as it is. -/
theorem get?_quality_apply_of_none {s : State} {d : Delta} {key : String} (h : d.quality.get? key = none) :
    (s.apply d).quality.get? key = s.quality.get? key :=
  Json.lookup_mergeFields_of_none s.quality.fields d.quality.canonical.sorted h

/-- An entry of a delta that is no object replaces what was there. -/
theorem get?_quality_apply_of_some {s : State} {d : Delta} {key : String} {value : Json}
    (h : d.quality.get? key = some value) (hPlain : value.isObject = false) :
    (s.apply d).quality.get? key = some value := by
  have hMerged : (Json.mergeFields s.quality.fields d.quality.fields).lookup key = _ :=
    Json.lookup_mergeFields_of_some d.quality.canonical.sorted h
  rw [Json.updated_of_plain _ hPlain] at hMerged
  exact hMerged

end State

/-! ### The guard -/

namespace Guard.Grammar

/-- The condition that the count is at least a limit. -/
def atLeast (limit : Nat) : Disjunction :=
  .one (.one (.test (.chain (.more (.path ⟨.quality, ["attempts"]⟩) .ge
    (.one (.literal (.number (.int limit))))))))

theorem lexes_atLeast {limit : Nat} (h : limit < 2 ^ 64) :
    Lexes false ("quality.attempts >= " ++ toString limit).toList (atLeast limit).lexemes := by
  have hPath : Path.text ⟨.quality, ["attempts"]⟩ ++ (" " ++ Comparison.ge.spelling ++ " ") =
      "quality.attempts >= " := by decide +kernel
  have hLimit : Lexes false (toString limit).toList [.number (.int limit)] :=
    lexes_toString (Int.le_trans (by decide) (Int.natCast_nonneg limit)) (by omega)
  rw [← hPath]
  exact lexes_comparison (by decide +kernel) .ge hLimit

theorem atLeast_holds {limit reviews : Nat} {s : State}
    (h : s.quality.get? "attempts" = some (.number (.int reviews))) (hReached : limit ≤ reviews) :
    (atLeast limit).tree.holds s = true := by
  have hPath : Path.resolve ⟨.quality, ["attempts"]⟩ s = .number (.int reviews) := by
    rw [Path.resolve, State.lookup?_singleton, State.namespaceOf, h]
    rfl
  have hGe : Comparison.ge.holds (.number (.int reviews)) (.number (.int limit)) = true := by
    have hOrder : order? (.number (.int reviews)) (.number (.int limit)) =
        some (compare (reviews : Int) limit) := rfl
    rw [Comparison.holds, hOrder]
    rcases Nat.lt_or_eq_of_le hReached with hMore | rfl
    · have hGt : compare (reviews : Int) limit = .gt := compare_gt_iff_gt.mpr (Int.ofNat_lt.mpr hMore)
      rw [hGt]
      rfl
    · have hEq : compare (limit : Int) limit = .eq := compare_eq_iff_eq.mpr rfl
      rw [hEq]
      rfl
  have hHolds := comparison_holds ⟨.quality, ["attempts"]⟩ .ge (.number (.int limit)) s
  rw [hPath] at hHolds
  exact hHolds.trans hGe

end Guard.Grammar

/-- The first guard of the step reads `quality.attempts >= limit` and leads to the end. -/
def Description.GivesUpAfter (d : Description) (step : String) (limit : Nat) : Prop :=
  ∃ e, (d.edges.find? fun e => e.guards step) = some e ∧ e.target = terminalName ∧
    e.condition.map Text.trim = some ("quality.attempts >= " ++ toString limit)

theorem Description.GivesUpAfter.fires {d : Description} {step : String} {limit reviews : Nat} {s : State}
    (h : d.GivesUpAfter step limit) (hLimit : limit < 2 ^ 64)
    (hCount : s.quality.get? "attempts" = some (.number (.int reviews))) (hReached : limit ≤ reviews) :
    ∃ e, (d.edges.find? fun e => e.fires step s) = some e ∧ e.target = terminalName := by
  obtain ⟨e, hFirst, hEnd, hText⟩ := h
  obtain ⟨text, hCondition, hTrim⟩ := Option.map_eq_some_iff.mp hText
  obtain ⟨hGuards, before, after, hEdges, hBefore⟩ := List.find?_eq_some_iff_append.mp hFirst
  have hChars : Text.trimChars text.toList = ("quality.attempts >= " ++ toString limit).toList := by
    rw [← hTrim, Text.trim, String.toList_ofList]
  have hLexes : Guard.Lexes false text.toList (Guard.Grammar.atLeast limit).lexemes :=
    Guard.lexes_trimChars_iff.mp (hChars ▸ Guard.Grammar.lexes_atLeast hLimit)
  have hCompile := Condition.compile_of_lexes hLexes (Nat.zero_le _)
  have hHolds : Condition.textHolds text s = true :=
    (Condition.textHolds_of_compile hCompile s).trans (Guard.Grammar.atLeast_holds hCount hReached)
  have hFires : e.fires step s = true := by
    rw [Edge.guards, Bool.and_eq_true] at hGuards
    rw [Edge.fires, hGuards.1, hCondition, Option.any_some, hHolds]
    rfl
  refine ⟨e, List.find?_eq_some_iff_append.mpr ⟨hFires, before, after, hEdges, ?_⟩, hEnd⟩
  intro other hOther
  have hWaits := hBefore other hOther
  rw [Bool.not_eq_true', ← Bool.not_eq_true] at hWaits ⊢
  exact fun hOtherFires => hWaits (Edge.guards_of_fires hOtherFires)

theorem Graph.Compiled.ends_of_fires {d : Description} {g : Graph} {done : Condition}
    {edges : List CompiledEdge} (h : Compiled d g done edges) {step : String} {s : State} {e : Edge}
    (hFires : (d.edges.find? fun e => e.fires step s) = some e) (hEnd : e.target = terminalName) :
    (g.next step s).termination? ≠ none := by
  have hSource : e.source = step := by
    have hFound := List.find?_some hFires
    rw [Edge.fires, Bool.and_eq_true] at hFound
    exact beq_iff_eq.mp hFound.1
  have hDeclared : d.steps.contains step = true :=
    hSource ▸ (h.wellFormed.edges e (List.mem_of_find?_eq_some hFires)).source
  have hGuard := CompiledEdge.firstGuard?_of_compileAll h.edgesCompile step s 0
  have hHead := List.find?_eq_head?_dropWhile_not (fun e : Edge => e.fires step s) d.edges
  rw [hFires] at hHead
  obtain ⟨rest, hDrop⟩ := List.head?_eq_some_iff.mp hHead.symm
  rw [Description.firing?, hDrop] at hGuard
  rw [next, h.route?_eq, if_pos hDeclared]
  split_ifs
  · rintro ⟨⟩
  · dsimp only [Route.decide, Route.ofEdges]
    rw [hGuard]
    dsimp only
    rw [hEnd]
    rintro ⟨⟩

namespace Engine

variable {W : Type}

/-- Whether the step is a judge with the default rule. -/
def judges (engine : Engine W) (step : String) : Bool :=
  match engine.steps.get? step with
  | some (.judge j) => j.rule.isNone
  | _ => false

/-- How many of the visits were reviews by the default rule. -/
def reviews (engine : Engine W) (visits : Visits) : Nat :=
  visits.countP fun visit => engine.judges visit.1

section

variable {around : Surroundings W} {engine : Engine W} {context : Object} {start w w' : W}
variable {visits : Visits} {current : String}

theorem reviews_concat (visits : Visits) (step : String) (delta : Delta) :
    engine.reviews (visits ++ [(step, delta)]) =
      engine.reviews visits + if engine.judges step then 1 else 0 := by
  simp [reviews, List.countP_append, List.countP_singleton]

theorem reviews_le_length (visits : Visits) : engine.reviews visits ≤ visits.length :=
  List.countP_le_length

/-- A judge with the default rule is counted each time it occurs. -/
theorem count_le_reviews {step : String} (h : engine.judges step = true) (visits : Visits) :
    visits.names.count step ≤ engine.reviews visits := by
  induction visits using List.reverseRecOn with
  | nil => exact Nat.le_refl _
  | append_singleton visits visit ih =>
      obtain ⟨name, delta⟩ := visit
      rw [Visits.names_concat, List.count_append, List.count_singleton, reviews_concat]
      by_cases hSame : name = step
      · subst hSame
        simp only [beq_self_eq_true, h, if_true]
        omega
      · simp only [beq_eq_false_iff_ne.mpr hSame, Bool.false_eq_true, if_false]
        omega

theorem exists_of_judges {step : String} (h : engine.judges step = true) :
    ∃ j : Judge, engine.steps.get? step = some (.judge j) ∧ j.rule = none := by
  unfold judges at h
  split at h
  · exact ⟨_, ‹_›, Option.isNone_iff_eq_none.mp h⟩
  · cases h

/-- A review by the default rule returns the count with one more. -/
theorem Executes.get?_of_judges {delta : Delta}
    (h : Executes around engine context visits current w (.finished delta) w')
    (hJudges : engine.judges current = true) :
    delta.quality.get? "attempts" =
      some (.number (.int (Judge.attempts (Visits.state context visits) + 1))) := by
  obtain ⟨-, before, step, -, hStep, hAttempt⟩ := h
  obtain ⟨j, hJudge, hRule⟩ := exists_of_judges hJudges
  cases hStep.symm.trans hJudge
  have hReview := Step.execute_of_attempt hAttempt
  rw [Step.execute, Judge.review, hRule] at hReview
  cases hReview
  exact j.get?_defaultDelta _

/-- A visit keeps the count: a review adds one, and no other visit writes there. -/
theorem Executes.tally_concat {delta : Delta}
    (h : Executes around engine context visits current w (.finished delta) w')
    (hOther : engine.judges current = false → delta.quality.get? "attempts" = none)
    (hSmall : engine.reviews visits < 2 ^ 63)
    (hTally : (Visits.state context visits).quality.get? "attempts" = Judge.tally (engine.reviews visits)) :
    (Visits.state context (visits ++ [(current, delta)])).quality.get? "attempts" =
      Judge.tally (engine.reviews (visits ++ [(current, delta)])) := by
  rw [Visits.state_concat, reviews_concat]
  cases hJudges : engine.judges current with
  | false =>
      rw [State.get?_quality_apply_of_none (hOther hJudges), hTally]
      rfl
  | true =>
      rw [State.get?_quality_apply_of_some (h.get?_of_judges hJudges) rfl,
        Judge.attempts_of_tally hTally hSmall, if_pos rfl, Judge.tally, if_neg (Nat.succ_ne_zero _)]
      rfl

/-- At every point of a run the count is the number of reviews so far. -/
theorem Stops.tally_of_prefix {r : Except Error Outcome}
    (h : Stops around engine context start visits r) (hLength : visits.length < 2 ^ 63)
    (hOther : ∀ visit ∈ visits, engine.judges visit.1 = false → visit.2.quality.get? "attempts" = none)
    {before after : Visits} (hSplit : visits = before ++ after) :
    (Visits.state context before).quality.get? "attempts" = Judge.tally (engine.reviews before) := by
  induction before using List.reverseRecOn generalizing after with
  | nil => rfl
  | append_singleton before visit ih =>
      obtain ⟨step, delta⟩ := visit
      rw [List.append_assoc, List.singleton_append] at hSplit
      obtain ⟨v, v', -, hExecutes⟩ := h.visited hSplit
      refine hExecutes.tally_concat (fun hJudges => ?_) ?_ (ih hSplit)
      · refine hOther (step, delta) ?_ hJudges
        rw [hSplit]
        exact List.mem_append_right _ List.mem_cons_self
      · have hReviews : engine.reviews before ≤ before.length := reviews_le_length before
        rw [hSplit, List.length_append] at hLength
        omega

/-- Where a run has come to after a visit, that visit did not end it. -/
theorem Reaches.continued {before : Visits} {step : String} {delta : Delta}
    (h : Reaches around engine context start (before ++ [(step, delta)]) current w) :
    (engine.graph.next step (Visits.state context (before ++ [(step, delta)]))).termination? = none := by
  generalize hVisits : before ++ [(step, delta)] = visits at h
  cases h with
  | start => simp at hVisits
  | next prior last hNext =>
      obtain ⟨rfl, hLast⟩ := List.append_inj' hVisits rfl
      cases hLast
      exact hNext

/-- Before a further visit, a judge that gives up after some reviews has reviewed less often. -/
theorem Stops.count_lt {d : Description} {strict : Bool} {r : Except Error Outcome}
    (hGraph : Graph.compile d strict = .ok engine.graph) (h : Stops around engine context start visits r)
    (hLength : visits.length < 2 ^ 63)
    (hOther : ∀ visit ∈ visits, engine.judges visit.1 = false → visit.2.quality.get? "attempts" = none)
    {step : String} {limit : Nat} (hJudges : engine.judges step = true) (hPos : 1 ≤ limit)
    (hLimit : limit < 2 ^ 64) (hGuard : d.GivesUpAfter step limit) {before after : Visits}
    (hSplit : visits = before ++ after) (hMore : after ≠ []) : before.names.count step < limit := by
  obtain ⟨done, edges, hCompiled⟩ := Graph.compile_ok hGraph
  induction before using List.reverseRecOn generalizing after with
  | nil => exact hPos
  | append_singleton before visit ih =>
      obtain ⟨name, delta⟩ := visit
      have hEarlier := ih (hSplit.trans (List.append_assoc ..)) (List.cons_ne_nil _ _)
      by_cases hSame : name = step
      · subst hSame
        have hTally := h.tally_of_prefix hLength hOther hSplit
        obtain ⟨next, others, rfl⟩ := List.exists_cons_of_ne_nil hMore
        obtain ⟨v, v', hReaches, -⟩ := h.visited hSplit
        -- Were the limit reached, the guard would have ended the run with this visit.
        refine Nat.lt_of_le_of_lt (count_le_reviews hJudges _) (Nat.lt_of_not_le fun hReached => ?_)
        rw [Judge.tally, if_neg (by omega)] at hTally
        obtain ⟨e, hFires, hEnd⟩ := hGuard.fires hLimit hTally hReached
        exact hCompiled.ends_of_fires hFires hEnd hReaches.continued
      · rw [Visits.names_concat, List.count_append, List.count_singleton,
          beq_eq_false_iff_ne.mpr hSame]
        exact hEarlier

/-- A judge that gives up after some reviews reviews at most that often. -/
theorem Stops.count_le {d : Description} {strict : Bool} {r : Except Error Outcome}
    (hGraph : Graph.compile d strict = .ok engine.graph) (h : Stops around engine context start visits r)
    (hLength : visits.length < 2 ^ 63)
    (hOther : ∀ visit ∈ visits, engine.judges visit.1 = false → visit.2.quality.get? "attempts" = none)
    {step : String} {limit : Nat} (hJudges : engine.judges step = true) (hPos : 1 ≤ limit)
    (hGuard : d.GivesUpAfter step limit) : visits.names.count step ≤ limit := by
  by_cases hLimit : limit < 2 ^ 64
  · rcases visits.eq_nil_or_concat with rfl | ⟨before, last, rfl⟩
    · exact Nat.zero_le _
    · have hEarlier := h.count_lt hGraph hLength hOther hJudges hPos hLimit hGuard
        (List.concat_eq_append ..) (List.cons_ne_nil _ _)
      rw [List.concat_eq_append, Visits.names, List.map_append, List.count_append]
      have hLast : List.count step (List.map Prod.fst [last]) ≤ 1 := List.count_le_length
      rw [Visits.names] at hEarlier
      omega
  · have hCount : visits.names.count step ≤ visits.names.length := List.count_le_length
    rw [Visits.names, List.length_map] at hCount
    rw [Visits.names]
    omega

end

/-- A loop of reviews that attempts bound comes to its end. If no step of a run writes `quality.attempts` but
the judges with the default rule, then at every point of the run the count is the number of their reviews so
far, and absent before the first. So a judge whose first guard is `quality.attempts >= limit` and leads to the
end occurs at most `limit` times in the path, whatever the other steps and edges do. The count is an integer
of 64 bits; a path that a machine can hold is shorter than the greatest of those. -/
theorem reviews_bounded {d : Description} {strict : Bool} {engine : Engine W}
    (hGraph : Graph.compile d strict = .ok engine.graph) (around : Surroundings W) (context : Object)
    (start : W) :
    (∃ visits, Stops around engine context start visits (engine.run around context start).result) ∧
    ∀ visits r, Stops around engine context start visits r → visits.length < 2 ^ 63 →
      (∀ visit ∈ visits, engine.judges visit.1 = false → visit.2.quality.get? "attempts" = none) →
      (∀ before after, visits = before ++ after →
        (Visits.state context before).quality.get? "attempts" =
          if engine.reviews before = 0 then none else some (.number (.int (engine.reviews before)))) ∧
      (∀ o, r = .ok o → o.path = visits.names) ∧
      ∀ step limit, engine.judges step = true → 1 ≤ limit → d.GivesUpAfter step limit →
        visits.names.count step ≤ limit := by
  refine ⟨run_stops hGraph around context start, fun visits r h hLength hOther => ⟨?_, ?_, ?_⟩⟩
  · exact fun before after hSplit => h.tally_of_prefix hLength hOther hSplit
  · rintro o rfl
    exact h.outcome_eq.1
  · exact fun step limit hJudges hPos hGuard => h.count_le hGraph hLength hOther hJudges hPos hGuard

/-- A writer whose drafts are always too short. -/
private def newsroom : Steps Unit where
  entries := [("writer", .assign (Delta.empty.withArtifact "draft" (.string "short"))),
    ("reviewer", .judge (.withDefaults "reviewer"))]
  distinct := by decide

theorem reviews_bounded_newsroom :
    ∃ engine : Engine Unit, Graph.compile Sample.reviewLoop false = .ok engine.graph ∧
      engine.judges "reviewer" = true ∧
      ∃ visits, Stops .still engine .empty () visits (engine.run .still .empty ()).result ∧
        visits.names.count "reviewer" ≤ 3 := by
  have hRuns : (traceOf? Sample.reviewLoop newsroom .standard .still .empty ()).isSome = true := by
    decide +kernel
  have hGuard : Sample.reviewLoop.GivesUpAfter "reviewer" 3 :=
    ⟨.guarded "reviewer" terminalName "quality.attempts >= 3", rfl, rfl, by decide +kernel⟩
  obtain ⟨t, hTrace⟩ := Option.isSome_iff_exists.mp hRuns
  obtain ⟨engine, hGraph, hCreate, -⟩ := exists_engine_of_traceOf? hTrace
  obtain ⟨-, hSteps, hBudget⟩ := create_ok hCreate
  obtain ⟨⟨visits, hStops⟩, hAll⟩ := reviews_bounded hGraph .still .empty ()
  have hJudges : engine.judges "reviewer" = true := by
    rw [judges, hSteps]
    rfl
  have hLength : visits.length < 2 ^ 63 := by
    obtain ⟨done, edges, hCompiled⟩ := Graph.compile_ok hGraph
    have hLimit : engine.maxSteps = 1000 := by
      rw [hBudget, hCompiled.maxSteps]
      rfl
    have hWithin := hStops.length_le
    omega
  have hOther : ∀ visit ∈ visits, engine.judges visit.1 = false →
      visit.2.quality.get? "attempts" = none := by
    rintro ⟨name, delta⟩ hMem hNot
    obtain ⟨before, after, hSplit⟩ := List.append_of_mem hMem
    obtain ⟨v, v', -, -, w, step, -, hStep, hAttempt⟩ := hStops.visited hSplit
    have hExecute := Step.execute_of_attempt hAttempt
    rw [judges, hStep] at hNot
    rw [hSteps, Declarations.get?_eq_some_iff] at hStep
    rcases List.mem_pair.mp hStep with hWriter | hReviewer
    · cases hWriter
      cases hExecute
      rfl
    · cases hReviewer
      cases hNot
  exact ⟨engine, hGraph, hJudges, visits, hStops,
    (hAll visits _ hStops hLength hOther).2.2 "reviewer" 3 hJudges (by decide) hGuard⟩

end Engine

end Stepwise
