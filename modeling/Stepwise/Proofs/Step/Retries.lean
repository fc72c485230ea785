import Mathlib.Algebra.BigOperators.Group.Finset.Basic
import Stepwise.Proofs.Except
import Stepwise.Proofs.Step.Builtin

/-! How often a step asks its model, and when. In any surroundings that cut no pause short, requests that fail
lead to the next one or to the end of the retries. Against a client whose answers are given in advance, the whole
execution is computed: which requests are made, at what times, with which waits between them, and which answer
is used. From it follows how many failures a step makes up for, and what number of retries in its parameters
that takes. -/
namespace Stepwise.Completion

/-! ### A client with given answers -/

/-- Something that a step did around it. -/
inductive Act where
  /-- A request that began at a time. -/
  | asked (model prompt : String) (time : Nat)
  | waited (ms : Nat)
deriving DecidableEq

/-- The time, and what was done so far. -/
structure Transcript where
  now : Nat
  acts : List Act

def Act.isAsked : Act → Bool
  | .asked _ _ _ => true
  | .waited _ => false

/-- How often the client was called. -/
def Transcript.calls (t : Transcript) : Nat :=
  t.acts.countP Act.isAsked

/-- Surroundings in which the answers of the client are given, and how long each of them takes. Nothing
cancels the run. -/
def answering (answers : Nat → Except Error String) (takes : Nat → Nat) : Surroundings Transcript where
  observe t := (false, t)
  clock t := t.now
  complete model prompt t :=
    (some (answers t.calls), ⟨t.now + takes t.calls, t.acts ++ [.asked model prompt t.now]⟩)
  pause ms t := (true, ⟨t.now + ms, t.acts ++ [.waited ms]⟩)

/-! ### The schedule of the attempts -/

variable (c : Completion) (prompt : String) (takes : Nat → Nat) (start : Nat)

/-- The wait between a request and the next one. -/
def wait (i : Nat) : Nat :=
  c.backoff * min (2 ^ i) (2 ^ 32 - 1)

/-- When a request begins, if all requests before it fail. -/
def callTime (i : Nat) : Nat :=
  start + ∑ k ∈ Finset.range i, (takes k + c.wait k)

/-- So many requests, with the wait after each. -/
def attempts (n : Nat) : List Act :=
  (List.range n).flatMap fun i => [.asked c.model prompt (c.callTime takes start i), .waited (c.wait i)]

theorem pauseAfter_eq_wait (i : Nat) : pauseAfter c.backoff i = c.wait i := by
  have hCap : min (Nat.pow 2 (min i 32)) (Nat.pow 2 32 - 1) = min (2 ^ i) (2 ^ 32 - 1) := by
    rcases Nat.le_total i 32 with hLow | hHigh
    · rw [Nat.min_eq_left hLow]
      rfl
    · have hPow : 2 ^ 32 ≤ 2 ^ i := Nat.pow_le_pow_right Nat.two_pos hHigh
      rw [Nat.min_eq_right hHigh, Nat.min_eq_right (Nat.sub_le _ _), Nat.min_eq_right]
      · rfl
      · omega
  rw [pauseAfter, wait, hCap]

theorem callTime_succ (i : Nat) :
    c.callTime takes start (i + 1) = c.callTime takes start i + takes i + c.wait i := by
  rw [callTime, callTime, Finset.sum_range_succ, Nat.add_assoc, Nat.add_assoc]

theorem attempts_succ (n : Nat) :
    c.attempts prompt takes start (n + 1) = c.attempts prompt takes start n ++
      [.asked c.model prompt (c.callTime takes start n), .waited (c.wait n)] := by
  rw [attempts, List.range_succ, List.flatMap_append, List.flatMap_singleton, ← attempts]

theorem countP_attempts (n : Nat) : (c.attempts prompt takes start n).countP Act.isAsked = n := by
  induction n with
  | zero => rfl
  | succ n ih =>
      rw [attempts_succ, List.countP_append, ih]
      rfl

/-- As long as the pauses double, they add up to one less than a power. -/
theorem callTime_of_le (hTakes : ∀ k, takes k = 0) {i : Nat} (hi : i ≤ 32) :
    c.callTime takes start i = start + c.backoff * (2 ^ i - 1) := by
  induction i with
  | zero => rfl
  | succ i ih =>
      have hPow : 2 ^ i ≤ 2 ^ 31 := Nat.pow_le_pow_right Nat.two_pos (by omega)
      have hWait : c.wait i = c.backoff * 2 ^ i := by
        rw [wait, Nat.min_eq_left]
        omega
      have hOne : 1 ≤ 2 ^ i := Nat.one_le_two_pow
      rw [callTime_succ, ih (by omega), hTakes, hWait, Nat.add_zero, Nat.add_assoc, ← Nat.mul_add]
      congr 2
      omega

/-! ### Executions -/

section

variable {W : Type} (around : Surroundings W) (w : W)

/-- The surroundings before a request of a number, when all requests before it fail. -/
def ready : Nat → W
  | 0 => w
  | n + 1 => (around.pause (pauseAfter c.backoff n) (around.complete c.model prompt (ready n)).2).2

/-- What the client answers to a request of a number, when all requests before it fail; none if that request
is cut short. -/
def answerTo (n : Nat) : Option (Except Error String) :=
  (around.complete c.model prompt (c.ready prompt around w n)).1

variable {c prompt around w} {v : W}

theorem request_of_ok {text : String} (h : around.complete c.model prompt w = (some (.ok text), v))
    (retries attempt : Nat) : request around c prompt retries attempt w = (some (.ok text), v) := by
  rw [request.eq_def]
  simp only [h]

theorem request_of_error {e : Error} (h : around.complete c.model prompt w = (some (.error e), v))
    (attempt : Nat) : request around c prompt 0 attempt w = (some (.error e), v) := by
  rw [request.eq_def]
  simp only [h]

theorem request_again {e : Error} {u : W} (h : around.complete c.model prompt w = (some (.error e), v))
    {attempt : Nat} (hPause : around.pause (pauseAfter c.backoff attempt) v = (true, u)) (retries : Nat) :
    request around c prompt (retries + 1) attempt w = request around c prompt retries (attempt + 1) u := by
  rw [request.eq_def]
  simp only [h, hPause]

variable (hPause : ∀ ms v, (around.pause ms v).1 = true)

include hPause

/-- Requests that fail leave the step where it asks again, with fewer retries. -/
theorem request_of_failures {n : Nat} (hFail : ∀ i < n, ∃ e, c.answerTo prompt around w i = some (.error e))
    (retries : Nat) :
    request around c prompt (n + retries) 0 w =
      request around c prompt retries n (c.ready prompt around w n) := by
  induction n generalizing retries with
  | zero =>
      rw [Nat.zero_add]
      rfl
  | succ n ih =>
      obtain ⟨e, he⟩ := hFail n (Nat.lt_succ_self n)
      cases hAsked : around.complete c.model prompt (c.ready prompt around w n) with
      | mk reply v =>
          obtain rfl : reply = some (.error e) := by rw [← he, answerTo, hAsked]
          have hWaited : around.pause (pauseAfter c.backoff n) v = (true, c.ready prompt around w (n + 1)) :=
            Prod.ext (hPause _ v) (by rw [ready, hAsked])
          rw [Nat.add_right_comm, Nat.add_assoc, ih (fun i hi => hFail i (Nat.lt_succ_of_lt hi)),
            request_again hAsked hWaited]

variable {s : State} {n : Nat}

/-- An execution ends with the first request that succeeds. -/
theorem execute_of_ok {text : String}
    (hFail : ∀ i < n, ∃ e, c.answerTo (Prompt.render c.template s) around w i = some (.error e))
    (hLe : n ≤ c.retries)
    (hText : around.complete c.model (Prompt.render c.template s)
      (c.ready (Prompt.render c.template s) around w n) = (some (.ok text), v)) :
    c.execute around s w = (.finished (c.deltaFor (.ok text)), v) := by
  obtain ⟨left, hLeft⟩ := Nat.exists_eq_add_of_le hLe
  rw [execute, hLeft, request_of_failures hPause hFail, request_of_ok hText]

/-- An execution in which no request succeeds ends with the last one. -/
theorem execute_of_error {e : Error}
    (hFail : ∀ i < c.retries, ∃ e, c.answerTo (Prompt.render c.template s) around w i = some (.error e))
    (he : around.complete c.model (Prompt.render c.template s)
      (c.ready (Prompt.render c.template s) around w c.retries) = (some (.error e), v)) :
    c.execute around s w = (.finished (c.degraded e.message), v) := by
  have hAgain := request_of_failures hPause hFail 0
  rw [Nat.add_zero] at hAgain
  rw [execute, hAgain, request_of_error he]
  rfl

end

/-! ### Executions against given answers -/

/-- What has happened when the request of a number begins. -/
def transcript (n : Nat) : Transcript :=
  ⟨c.callTime takes start n, c.attempts prompt takes start n⟩

/-- What has happened when the request of a number is answered. -/
def answered (n : Nat) : Transcript :=
  ⟨c.callTime takes start n + takes n,
    c.attempts prompt takes start n ++ [.asked c.model prompt (c.callTime takes start n)]⟩

theorem calls_answered (n : Nat) : (c.answered prompt takes start n).calls = n + 1 := by
  rw [answered, Transcript.calls, List.countP_append, countP_attempts]
  rfl

section

variable {answers : Nat → Except Error String}

theorem complete_transcript (n : Nat) :
    (answering answers takes).complete c.model prompt (c.transcript prompt takes start n) =
      (some (answers n), c.answered prompt takes start n) := by
  have hCalls : (c.transcript prompt takes start n).calls = n := c.countP_attempts prompt takes start n
  simp only [answering, hCalls]
  rfl

theorem pause_answered (n : Nat) :
    (answering answers takes).pause (pauseAfter c.backoff n) (c.answered prompt takes start n) =
      (true, c.transcript prompt takes start (n + 1)) := by
  rw [pauseAfter_eq_wait, transcript, callTime_succ, attempts_succ]
  simp only [answering, answered, List.append_assoc]
  rfl

theorem ready_answering (n : Nat) :
    c.ready prompt (answering answers takes) ⟨start, []⟩ n = c.transcript prompt takes start n := by
  induction n with
  | zero => rfl
  | succ n ih => rw [ready, ih, complete_transcript, pause_answered]

theorem complete_ready_answering (n : Nat) :
    (answering answers takes).complete c.model prompt (c.ready prompt (answering answers takes) ⟨start, []⟩ n) =
      (some (answers n), c.answered prompt takes start n) := by
  rw [ready_answering, complete_transcript]

theorem failures_answering {n : Nat} (hFail : ∀ i < n, ∃ e, answers i = .error e) :
    ∀ i < n, ∃ e, c.answerTo prompt (answering answers takes) ⟨start, []⟩ i = some (.error e) := by
  intro i hi
  obtain ⟨e, he⟩ := hFail i hi
  exact ⟨e, by rw [answerTo, complete_ready_answering, he]⟩

theorem execute_answering_of_ok {n : Nat} {text : String} (hFail : ∀ i < n, ∃ e, answers i = .error e)
    (hLe : n ≤ c.retries) (hText : answers n = .ok text) (s : State) :
    c.execute (answering answers takes) s ⟨start, []⟩ =
      (.finished (c.deltaFor (.ok text)), c.answered (Prompt.render c.template s) takes start n) :=
  execute_of_ok (fun _ _ => rfl) (c.failures_answering _ takes start hFail) hLe
    (hText ▸ c.complete_ready_answering _ takes start n)

theorem execute_answering_of_error {e : Error} (hFail : ∀ i < c.retries, ∃ e, answers i = .error e)
    (he : answers c.retries = .error e) (s : State) :
    c.execute (answering answers takes) s ⟨start, []⟩ =
      (.finished (c.degraded e.message), c.answered (Prompt.render c.template s) takes start c.retries) :=
  execute_of_error (fun _ _ => rfl) (c.failures_answering _ takes start hFail)
    (he ▸ c.complete_ready_answering _ takes start c.retries)

end

/-- The client is called exactly as often as needed. If one of the answers that the retries allow is a success,
the execution uses the first one and no answer behind it; if not, it makes as many requests as there are retries
and one more, and reports the last failure. Every request has the same model and the same prompt, and between
two of them is a wait that doubles up to its limit; so when answers take no time, each of the first 33 requests
begins as many times the backoff after the first as a power of two less one. -/
theorem execute_retries (s : State) (answers : Nat → Except Error String) :
    let prompt := Prompt.render c.template s
    let run := c.execute (answering answers takes) s ⟨start, []⟩
    let made n := c.attempts prompt takes start n ++ [.asked c.model prompt (c.callTime takes start n)]
    (∀ j text, j ≤ c.retries → (∀ i < j, ∃ e, answers i = .error e) → answers j = .ok text →
      run.1 = .finished (c.deltaFor (.ok text)) ∧ run.2.calls = j + 1 ∧ run.2.acts = made j) ∧
    (∀ e, (∀ i < c.retries, ∃ e, answers i = .error e) → answers c.retries = .error e →
      run.1 = .finished (c.degraded e.message) ∧ run.2.calls = c.retries + 1 ∧ run.2.acts = made c.retries) ∧
    ((∀ k, takes k = 0) → ∀ i ≤ 32, c.callTime takes start i = start + c.backoff * (2 ^ i - 1)) := by
  intro prompt run made
  refine ⟨fun j text hLe hFail hText => ?_, fun e hFail he => ?_, fun hTakes i => c.callTime_of_le _ _ hTakes⟩
  · have hRun : run = _ := c.execute_answering_of_ok takes start hFail hLe hText s
    rw [hRun]
    exact ⟨rfl, c.calls_answered _ _ _ _, rfl⟩
  · have hRun : run = _ := c.execute_answering_of_error takes start hFail he s
    rw [hRun]
    exact ⟨rfl, c.calls_answered _ _ _ _, rfl⟩

/-- A step with two retries waits once as long as the backoff and once twice as long. -/
theorem execute_retries_third :
    let c : Completion := { withDefaults "ask" "hi \x7bcontext.who\x7d" with retries := 2, backoff := 10 }
    let s := State.ofContext (Object.empty.insert "who" (.string "there"))
    let answers : Nat → Except Error String
      | 0 => .error (.completion "down")
      | 1 => .error (.completion "busy")
      | _ => .ok "fine"
    let run := c.execute (answering answers fun _ => 0) s ⟨0, []⟩
    run.1 = .finished (c.success (.string "fine")) ∧ run.2.acts =
      [.asked "simulated" "hi there" 0, .waited 10, .asked "simulated" "hi there" 10, .waited 20,
        .asked "simulated" "hi there" 30] := by
  intro c s answers run
  obtain ⟨hSucceeds, -, -⟩ := c.execute_retries (fun _ => 0) 0 s answers
  have hFail : ∀ i < 2, ∃ e, answers i = .error e := by
    intro i hi
    match i with
    | 0 => exact ⟨_, rfl⟩
    | 1 => exact ⟨_, rfl⟩
  obtain ⟨hDelta, -, hActs⟩ := hSucceeds 2 "fine" (Nat.le_refl 2) hFail rfl
  refine ⟨hDelta, hActs.trans ?_⟩
  decide +kernel

/-! ### Declared retries -/

theorem count?_eq_some {value : Json} {n : Nat} (h : Parameters.count? value = some n) :
    value = .number (.int n) ∧ n < 2 ^ 64 := by
  obtain ⟨k, hCount, hBound⟩ := Option.bind_eq_some_iff.mp h
  split_ifs at hBound with hLt
  cases hBound
  cases value with
  | number x =>
      cases x with
      | int i =>
          cases i with
          | ofNat k =>
              cases hCount
              exact ⟨rfl, hLt⟩
          | negSucc k => cases hCount
      | float x => cases hCount
  | null | bool | string | array | object => cases hCount

/-- The step makes up for as many failures as that, and for no more. -/
def Honours (c : Completion) (retries : Nat) : Prop :=
  ∀ (s : State) (answers : Nat → Except Error String) (takes : Nat → Nat) (start : Nat),
    let run := (Step.completion c).execute (answering answers takes) s ⟨start, []⟩
    (∀ j text, j ≤ retries → (∀ i < j, ∃ e, answers i = .error e) → answers j = .ok text →
      run.1 = .finished (c.deltaFor (.ok text)) ∧ run.2.calls = j + 1) ∧
    (∀ e, (∀ i < retries, ∃ e, answers i = .error e) → answers retries = .error e →
      run.1 = .finished (c.degraded e.message) ∧ run.2.calls = retries + 1)

/-- A step cannot honour two numbers: a client that never succeeds tells them apart. -/
theorem Honours.unique {c : Completion} {retries other : Nat} (h : c.Honours retries)
    (hOther : c.Honours other) : retries = other := by
  have hDown (n : Nat) : ∀ i < n, ∃ e : Error, (Except.error (.completion "") : Except Error String) = .error e :=
    fun _ _ => ⟨_, rfl⟩
  have hCalls := (h .empty (fun _ => .error (.completion "")) (fun _ => 0) 0).2 _ (hDown retries) rfl
  have hCallsOther := (hOther .empty (fun _ => .error (.completion "")) (fun _ => 0) 0).2 _ (hDown other) rfl
  exact Nat.succ.inj (hCalls.2.symm.trans hCallsOther.2)

end Stepwise.Completion
