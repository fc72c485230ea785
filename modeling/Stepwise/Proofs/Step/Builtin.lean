import Stepwise.Proofs.Json.Fields
import Stepwise.Proofs.Step.Registry

/-! How the steps that descriptions can declare end. A built step is of its declared kind. Its execution fails
only if a function that it calls fails, and the two functions that are always there do not; requests that go
wrong end in a delta like any others. What such a step does to the surroundings it does by looking, asking and
pausing, and only cancellation interrupts it. -/
namespace Stepwise

variable {W : Type}

/-! ### Surroundings -/

namespace Surroundings

/-- What looks, requests and pauses can make of some surroundings. -/
inductive Leads (around : Surroundings W) (start : W) : W → Prop where
  | start : Leads around start start
  | observe {w : W} (prior : Leads around start w) : Leads around start (around.observe w).2
  | complete {w : W} (prior : Leads around start w) (model prompt : String) :
      Leads around start (around.complete model prompt w).2
  | pause {w : W} (prior : Leads around start w) (ms : Nat) : Leads around start (around.pause ms w).2

/-- From these surroundings on, a look, a request or a pause may tell that the run is cancelled. -/
def Cancels (around : Surroundings W) (start : W) : Prop :=
  ∃ w, around.Leads start w ∧ ((around.observe w).1 = true ∨
    (∃ model prompt, (around.complete model prompt w).1 = none) ∨ ∃ ms, (around.pause ms w).1 = false)

section

variable {around : Surroundings W} {u v w : W}

theorem Leads.of_observe {seen : Bool} (h : around.observe v = (seen, w)) : around.Leads v w := by
  have hOn : around.Leads v (around.observe v).2 := .observe .start
  rwa [h] at hOn

theorem Leads.of_complete {model prompt : String} {reply : Option (Except Error String)}
    (h : around.complete model prompt v = (reply, w)) : around.Leads v w := by
  have hOn : around.Leads v (around.complete model prompt v).2 := .complete .start _ _
  rwa [h] at hOn

theorem Leads.of_pause {ms : Nat} {waited : Bool} (h : around.pause ms v = (waited, w)) :
    around.Leads v w := by
  have hOn : around.Leads v (around.pause ms v).2 := .pause .start _
  rwa [h] at hOn

theorem Leads.trans (h : around.Leads u v) (h' : around.Leads v w) : around.Leads u w := by
  induction h' with
  | start => exact h
  | observe _ ih => exact ih.observe
  | complete _ model prompt ih => exact ih.complete model prompt
  | pause _ ms ih => exact ih.pause ms

theorem Cancels.of_observe (h : around.observe v = (true, w)) : around.Cancels v :=
  ⟨v, .start, .inl (congrArg Prod.fst h)⟩

theorem Cancels.of_complete {model prompt : String} (h : around.complete model prompt v = (none, w)) :
    around.Cancels v :=
  ⟨v, .start, .inr (.inl ⟨model, prompt, congrArg Prod.fst h⟩)⟩

theorem Cancels.of_pause {ms : Nat} (h : around.pause ms v = (false, w)) : around.Cancels v :=
  ⟨v, .start, .inr (.inr ⟨ms, congrArg Prod.fst h⟩)⟩

theorem Cancels.of_leads (h : around.Cancels w) (hLeads : around.Leads v w) : around.Cancels v := by
  obtain ⟨u, hOn, hSeen⟩ := h
  exact ⟨u, hLeads.trans hOn, hSeen⟩

end

/-- How an execution may end that does not fail. -/
def Ends (around : Surroundings W) (w : W) : Execution × W → Prop
  | (.finished _, w') => around.Leads w w'
  | (.interrupted, _) => around.Cancels w
  | (.failed _, _) => False

end Surroundings

/-- In any surroundings and any state, the step does not fail. -/
def Step.NeverFails (step : Step W) : Prop :=
  ∀ (around : Surroundings W) (s : State) (w : W), around.Ends w (step.execute around s w)

/-- The function has a delta for every state. -/
def StepFunction.Total (function : StepFunction) : Prop :=
  ∀ s, ∃ delta, function s = .ok delta

theorem Functions.total_of_builtin {name : String} {function : StepFunction}
    (h : Functions.builtin.get? name = some function) : function.Total := by
  rw [builtin, Declarations.get?_insert, Declarations.get?_insert] at h
  split_ifs at h
  · cases h
    exact fun s => ⟨_, rfl⟩
  · cases h
    exact fun s => ⟨_, rfl⟩
  · cases h

/-! ### Executions by kind -/

namespace Step

/-- An attempt that ends with a delta was not cut short, but executed the step. -/
theorem execute_of_attempt {around : Surroundings W} {step : Step W} {s : State} {w w' : W} {delta : Delta}
    (h : step.attempt around s w = (.finished delta, w')) :
    step.execute around s (around.observe w).2 = (.finished delta, w') := by
  rw [attempt] at h
  cases hLook : around.observe w with
  | mk seen ready =>
      rw [hLook] at h
      cases seen with
      | true => cases h
      | false => exact h

theorem neverFails_assign (delta : Delta) : (assign delta : Step W).NeverFails :=
  fun _ _ _ => .start

theorem ends_ended (around : Surroundings W) (w : W) {result : Except Error Delta}
    (h : ∃ delta, result = .ok delta) : around.Ends w (ended result, w) := by
  obtain ⟨delta, rfl⟩ := h
  exact .start

theorem neverFails_deterministic (name : String) {function : StepFunction} (h : function.Total) :
    (deterministic name function : Step W).NeverFails := by
  intro around s w
  obtain ⟨delta, hDelta⟩ := h s
  exact ends_ended around w ⟨_, by rw [hDelta]; rfl⟩

theorem neverFails_judge {j : Judge} (h : ∀ rule, j.rule = some rule → rule.Total) :
    (judge j : Step W).NeverFails := by
  intro around s w
  refine ends_ended around w ?_
  rw [Judge.review]
  cases hRule : j.rule with
  | none => exact ⟨_, rfl⟩
  | some rule =>
      obtain ⟨delta, hDelta⟩ := h rule hRule s
      refine ⟨delta.withLog j.ruleRecord, ?_⟩
      dsimp only
      rw [hDelta]
      rfl

end Step

namespace Completion

variable {around : Surroundings W} {c : Completion} {prompt : String} {w w' : W}

/-- Requests end with an answer or the last error, unless one of them or a pause between two of them is cut
short. -/
theorem leads_of_request {retries attempt : Nat} {reply : Option (Except Error String)}
    (h : request around c prompt retries attempt w = (reply, w')) :
    (reply.isSome = true → around.Leads w w') ∧ (reply = none → around.Cancels w) := by
  fun_induction request around c prompt retries attempt w with
  | case1 retries attempt w v hAsked =>
      cases h
      exact ⟨nofun, fun _ => .of_complete hAsked⟩
  | case2 retries attempt w text v hAsked | case3 attempt w e v hAsked =>
      cases h
      exact ⟨fun _ => .of_complete hAsked, nofun⟩
  | case4 attempt w e v retries hAsked u hPause ih =>
      have hPaused := (Surroundings.Leads.of_complete hAsked).trans (.of_pause hPause)
      obtain ⟨hLeads, hCancels⟩ := ih h
      exact ⟨fun hSome => hPaused.trans (hLeads hSome), fun hNone => (hCancels hNone).of_leads hPaused⟩
  | case5 attempt w e v retries hAsked u hPause =>
      cases h
      exact ⟨nofun, fun _ => (Surroundings.Cancels.of_pause hPause).of_leads (.of_complete hAsked)⟩

theorem neverFails (c : Completion) : (Step.completion c : Step W).NeverFails := by
  intro around s w
  rw [Step.execute, execute]
  cases hRequest : request around c (Prompt.render c.template s) c.retries 0 w with
  | mk reply w' =>
      obtain ⟨hLeads, hCancels⟩ := leads_of_request hRequest
      cases reply with
      | none => exact hCancels rfl
      | some answer => exact hLeads rfl

/-- The delta of an execution is made of what the request came to. -/
theorem exists_reply_of_execute {s : State} {delta : Delta}
    (h : (Step.completion c).execute around s w = (.finished delta, w')) :
    ∃ reply, delta = c.deltaFor reply := by
  unfold Step.execute execute at h
  dsimp only at h
  split at h
  · cases h
    exact ⟨_, rfl⟩
  · cases h

theorem get?_recordFields_kind (c : Completion) (status : String) :
    (c.recordFields status).get? "kind" = some (.string "llm") := by
  rw [recordFields, Object.get?_ofList (by simp)]
  rfl

/-- Whatever the answer, the delta has one record, and it tells that a model was asked. -/
theorem log_deltaFor (c : Completion) (reply : Except Error String) :
    ∃ record, (c.deltaFor reply).log = [record] ∧ record.get? "kind" = some (.string "llm") := by
  have hSuccess (output : Value) :
      ∃ record, (c.success output).log = [record] ∧ record.get? "kind" = some (.string "llm") :=
    ⟨_, rfl, c.get?_recordFields_kind "success"⟩
  have hDegraded (detail : String) :
      ∃ record, (c.degraded detail).log = [record] ∧ record.get? "kind" = some (.string "llm") := by
    refine ⟨_, rfl, ?_⟩
    rw [Delta.recordOf, Value.object?_object, Option.getD_some, Object.get?_insert_of_ne _ _ (by decide)]
    exact c.get?_recordFields_kind "error"
  unfold deltaFor
  split
  · exact hDegraded _
  · split_ifs
    · split
      · exact hSuccess _
      · exact hDegraded _
    · exact hSuccess _

end Completion

/-! ### Built steps -/

namespace Workshop

/-- The built-in functions and nothing else, with or without a client. -/
def builtin (hasClient : Bool) : Workshop W := { plain with hasClient }

theorem get?_of_functionNamed {functions : Functions} {step key name : String} {function : StepFunction}
    (h : functionNamed functions step key name = .ok function) : functions.get? name = some function := by
  unfold functionNamed at h
  split at h
  · cases h
    assumption
  · cases h

theorem get?_of_calledFunction {functions : Functions} {step : String} {params : Object}
    {function : StepFunction} (h : calledFunction functions step params = .ok function) :
    ∃ name, functions.get? name = some function := by
  obtain ⟨name?, -, h⟩ := bind_eq_ok_iff.mp h
  cases name? with
  | none => cases h
  | some name => exact ⟨name, get?_of_functionNamed h⟩

/-- The rule of a judge is a function that its declaration names. -/
theorem get?_of_ofParams {functions : Functions} {step : String} {params : Object} {j : Judge}
    (h : Judge.ofParams functions step params = .ok j) {rule : StepFunction} (hRule : j.rule = some rule) :
    ∃ name, functions.get? name = some rule := by
  obtain ⟨artifact, -, h⟩ := bind_eq_ok_iff.mp h
  obtain ⟨minLength, -, h⟩ := bind_eq_ok_iff.mp h
  obtain ⟨purpose, -, h⟩ := bind_eq_ok_iff.mp h
  obtain ⟨name?, -, h⟩ := bind_eq_ok_iff.mp h
  cases name? with
  | none =>
      cases h
      cases hRule
  | some name =>
      obtain ⟨found, hFound, h⟩ := bind_eq_ok_iff.mp h
      obtain ⟨function, hFunction, rfl⟩ := map_eq_ok_iff.mp hFound
      cases h
      cases hRule
      exact ⟨name, get?_of_functionNamed hFunction⟩

/-- What is built without overrides, by the declared kind. -/
inductive Built (functions : Functions) : (kind : String) → Step W → Prop where
  | deterministic (name : String) {called : String} {function : StepFunction}
      (h : functions.get? called = some function) :
      Built functions "deterministic" (.deterministic name function)
  | judge (j : Judge) (h : ∀ rule, j.rule = some rule → ∃ called, functions.get? called = some rule) :
      Built functions "judge" (.judge j)
  | assign (delta : Delta) : Built functions "assign" (.assign delta)
  | llm (c : Completion) : Built functions "llm" (.completion c)

theorem Built.exists_completion {functions : Functions} {kind : String} {step : Step W}
    (h : Built functions kind step) (hKind : kind = "llm") : ∃ c, step = .completion c := by
  cases h with
  | llm c => exact ⟨c, rfl⟩
  | deterministic | judge | assign => exact absurd hKind (by decide)

theorem built_of_buildStep {shop : Workshop W} {name : String} {spec : StepSpec} {step : Step W}
    (hPlain : shop.overrides.get? name = none) (h : shop.buildStep name spec = .ok step) :
    Built shop.functions spec.kind step := by
  unfold buildStep at h
  rw [hPlain] at h
  dsimp only at h
  generalize spec.kind = kind at h
  split at h
  · obtain ⟨function, hFunction, rfl⟩ := map_eq_ok_iff.mp h
    obtain ⟨called, hCalled⟩ := get?_of_calledFunction hFunction
    exact .deterministic name hCalled
  · obtain ⟨j, hJudge, rfl⟩ := map_eq_ok_iff.mp h
    exact .judge j fun rule hRule => get?_of_ofParams hJudge hRule
  · obtain ⟨delta, -, rfl⟩ := map_eq_ok_iff.mp h
    exact .assign delta
  · split_ifs at h
    · obtain ⟨c, -, rfl⟩ := map_eq_ok_iff.mp h
      exact .llm c
    · cases h
  · cases h

theorem Built.neverFails {kind : String} {step : Step W} (h : Built .builtin kind step) :
    step.NeverFails := by
  cases h with
  | deterministic name h => exact Step.neverFails_deterministic name (Functions.total_of_builtin h)
  | judge j h =>
      refine Step.neverFails_judge fun rule hRule => ?_
      obtain ⟨called, hCalled⟩ := h rule hRule
      exact Functions.total_of_builtin hCalled
  | assign delta => exact Step.neverFails_assign delta
  | llm c => exact c.neverFails

end Workshop

end Stepwise
