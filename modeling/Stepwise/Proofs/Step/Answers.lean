import Mathlib.Data.Nat.Find
import Mathlib.Logic.Basic
import Stepwise.Proofs.Json.Merging
import Stepwise.Proofs.Step.Retries

/-! What a step that asks a model leaves behind. Its requests end with one answer, and that is usable or it is
not. From a usable one the step hands on an output and nothing else; any other comes to an error that guards
can see, with its cause in the log. What is handed on is merged into the state like every update, so of an
object that was there under the same key something may show through. -/
namespace Stepwise.Completion

variable (c : Completion)

/-! ### The last answer -/

/-- The answer with which the requests end: the first success, or the failure after which no retry is left. -/
def LastAnswer (answers : Nat → Option (Except Error String)) (reply : Except Error String) : Prop :=
  ∃ n ≤ c.retries, (∀ i < n, ∃ e, answers i = some (.error e)) ∧ answers n = some reply ∧
    (n = c.retries ∨ ∃ text, reply = .ok text)

variable {c} in
theorem LastAnswer.unique {answers : Nat → Option (Except Error String)} {reply reply' : Except Error String}
    (h : c.LastAnswer answers reply) (h' : c.LastAnswer answers reply') : reply = reply' := by
  obtain ⟨n, hLe, hFail, hReply, hEnd⟩ := h
  obtain ⟨n', hLe', hFail', hReply', hEnd'⟩ := h'
  -- an answer before the last one of either is a failure, so it is not the last one of the other
  have hNotBefore : ∀ {i k reply}, i < k → k ≤ c.retries → (∀ j < k, ∃ e, answers j = some (.error e)) →
      answers i = some reply → ¬(i = c.retries ∨ ∃ text, reply = .ok text) := by
    rintro i k reply hBefore hBound hErrors hAnswer (rfl | ⟨text, rfl⟩)
    · omega
    · obtain ⟨e, he⟩ := hErrors i hBefore
      cases he.symm.trans hAnswer
  rcases Nat.lt_trichotomy n n' with hBefore | rfl | hBehind
  · exact absurd hEnd (hNotBefore hBefore hLe' hFail' hReply)
  · exact Option.some.inj (hReply.symm.trans hReply')
  · exact absurd hEnd' (hNotBefore hBehind hLe hFail hReply')

section

variable {W : Type} (around : Surroundings W)

/-- When no pause is cut short, an execution ends with the delta for the last answer. -/
theorem execute_of_lastAnswer (hPause : ∀ ms v, (around.pause ms v).1 = true) (s : State) (w : W)
    {reply : Except Error String}
    (h : c.LastAnswer (c.answerTo (Prompt.render c.template s) around w) reply) :
    ((Step.completion c).execute around s w).1 = .finished (c.deltaFor reply) := by
  obtain ⟨n, hLe, hFail, hReply, hEnd⟩ := h
  rw [Step.execute]
  cases reply with
  | ok text => rw [execute_of_ok hPause hFail hLe (Prod.ext hReply rfl)]
  | error e =>
      have hFailed : ¬ ∃ text : String, Except.error e = .ok text := by
        rintro ⟨_, h⟩
        cases h
      obtain rfl : n = c.retries := hEnd.resolve_right hFailed
      rw [execute_of_error hPause hFail (Prod.ext hReply rfl)]
      rfl

end

/-! ### Answers with and without use -/

/-- The output of an answer: its text, or what its text says where JSON is asked for. -/
inductive Usable : Except Error String → Value → Prop where
  | text (text : String) (h : c.jsonOutput = false) : Usable (.ok text) (.string text)
  | json {text : String} {d : Document} (h : c.jsonOutput = true) (hRead : Json.read text = .ok d) :
      Usable (.ok text) d.toValue

variable {c}

theorem deltaFor_of_usable {reply : Except Error String} {output : Value} (h : c.Usable reply output) :
    c.deltaFor reply = c.success output := by
  cases h with
  | text text h => simp only [deltaFor, h, Bool.false_eq_true, if_false]
  | json h hRead => simp only [deltaFor, h, if_true, hRead]

variable (c)

/-! ### What a delta tells -/

/-- The log has one record. It is of a request of this step, with this status, and has a detail if one is
given here. -/
def Logs (delta : Delta) (status : String) (detail : Option String) : Prop :=
  ∃ record, delta.log = [record] ∧ record.get? "agent" = some (.string c.name) ∧
    record.get? "kind" = some (.string "llm") ∧ record.get? "status" = some (.string status) ∧
    record.get? "detail" = detail.map .string

/-- The delta has one artifact, the output, and a record of success. -/
structure HandsOn (output : Value) (delta : Delta) : Prop where
  context : delta.context = .empty
  artifacts : delta.artifacts.fields = [(c.outputKey, output.json)]
  quality : delta.quality = .empty
  log : c.Logs delta "success" none

/-- The delta has an error, which names the model and the cause, and a record of the cause. -/
structure Degrades (cause : String) (delta : Delta) : Prop where
  context : delta.context = .empty
  artifacts : delta.artifacts = .empty
  quality : ∃ message, delta.quality.fields = [("error", .string message)] ∧
    c.model.toList <:+: message.toList ∧ cause.toList <:+: message.toList
  log : c.Logs delta "error" (some cause)

variable {c} {delta : Delta}

theorem Logs.unique {status status' : String} {detail detail' : Option String}
    (h : c.Logs delta status detail) (h' : c.Logs delta status' detail') :
    status = status' ∧ detail = detail' := by
  obtain ⟨record, hLog, -, -, hStatus, hDetail⟩ := h
  obtain ⟨record', hLog', -, -, hStatus', hDetail'⟩ := h'
  cases hLog.symm.trans hLog'
  constructor
  · cases hStatus.symm.trans hStatus'
    rfl
  · exact Option.map_injective (fun _ _ => Json.string.inj) (hDetail.symm.trans hDetail')

theorem HandsOn.unique {output output' : Value} (h : c.HandsOn output delta) (h' : c.HandsOn output' delta) :
    output = output' := by
  have hSame := h.artifacts.symm.trans h'.artifacts
  rw [List.cons.injEq, Prod.mk.injEq] at hSame
  exact Value.ext_json hSame.1.2

theorem Degrades.unique {cause cause' : String} (h : c.Degrades cause delta) (h' : c.Degrades cause' delta) :
    cause = cause' :=
  Option.some.inj (h.log.unique h'.log).2

variable (c)

/-- Only the key of the output is touched. What it held before is updated by the output. -/
theorem get?_artifacts_apply_success (s : State) (output : Value) (key : String) :
    (s.apply (c.success output)).artifacts.get? key =
      if key = c.outputKey then some (Json.updated (s.artifacts.get? c.outputKey) output.json)
      else s.artifacts.get? key := by
  split_ifs with hKey
  · rw [hKey]
    exact Json.lookup_insertField_self _ _ s.artifacts.fields
  · exact Json.lookup_insertField_of_ne _ s.artifacts.fields hKey

/-- The next step finds the output of the last answer merged into what stood under its key. An object is merged
into an object; otherwise the output stands there alone. So the next step sees the output itself exactly when
nothing of what was there before shows through it. The rest of the state is the same, but for one more record
in the log. -/
theorem output_reaches_next_step {W : Type} (around : Surroundings W)
    (hPause : ∀ ms v, (around.pause ms v).1 = true) (s : State) (w : W) {reply : Except Error String}
    (hReply : c.LastAnswer (c.answerTo (Prompt.render c.template s) around w) reply) {output : Value}
    (hOutput : c.Usable reply output) :
    ∃ delta, ((Step.completion c).execute around s w).1 = .finished delta ∧
      let before := s.artifacts.get? c.outputKey
      let after := (s.apply delta).artifacts.get? c.outputKey
      (∀ old update : Object, before = some old.toJson → output = .object update →
        after = some (old.merge update).toJson) ∧
      ((output.json.isObject = false ∨ ∀ old, before = some old → old.isObject = false) →
        after = some output.json) ∧
      (after = some output.json ↔ ∀ old, before = some old → ¬ old.ShowsThrough output.json) ∧
      (∀ key ≠ c.outputKey, (s.apply delta).artifacts.get? key = s.artifacts.get? key) ∧
      (s.apply delta).context = s.context ∧ (s.apply delta).quality = s.quality ∧
      ∃ record, (s.apply delta).log = s.log ++ [record] := by
  refine ⟨c.success output, ?_, ?_⟩
  · rw [c.execute_of_lastAnswer around hPause s w hReply, deltaFor_of_usable hOutput]
  intro before after
  have hAfter : after = some (Json.updated before output.json) := by
    rw [show after = _ from c.get?_artifacts_apply_success s output c.outputKey, if_pos rfl]
  have hExact : after = some output.json ↔ ∀ old, before = some old → ¬ old.ShowsThrough output.json := by
    rw [hAfter, Option.some.injEq]
    cases hBefore : before with
    | none => exact iff_of_true (Json.updated_none _) nofun
    | some old =>
        rw [Json.updated_eq_iff (s.artifacts.canonical.lookup hBefore) output.canonical]
        exact ⟨fun h _ hOld => Option.some.inj hOld ▸ h, fun h => h old rfl⟩
  refine ⟨?_, fun hPlain => hExact.mpr fun old hOld => ?_, hExact, fun key hKey => ?_, rfl, rfl, ⟨_, rfl⟩⟩
  · rintro old update hOld rfl
    rw [hAfter, hOld]
    rfl
  · exact Json.not_showsThrough_of_plain (hPlain.symm.imp (fun h => h old hOld) id)
  · rw [c.get?_artifacts_apply_success s output key, if_neg hKey]

/-- A state in which the step has left an object before. -/
private def answeredBefore : State :=
  { State.empty with artifacts := Object.empty.insert "ask" (.object (Object.empty.insert "tone" (.int 3))) }

/-- A text takes the place of an earlier object. -/
theorem output_reaches_next_step_text :
    let c := withDefaults "ask" "hi"
    let around := answering (fun _ => .ok "fine") fun _ => 0
    (∀ ms v, (around.pause ms v).1 = true) ∧
      c.LastAnswer (c.answerTo (Prompt.render c.template answeredBefore) around ⟨0, []⟩) (.ok "fine") ∧
      c.Usable (.ok "fine") (.string "fine") ∧
      ∃ delta, ((Step.completion c).execute around answeredBefore ⟨0, []⟩).1 = .finished delta ∧
        (answeredBefore.apply delta).artifacts.get? "ask" = some (.string "fine") := by
  intro c around
  have hPause : ∀ ms v, (around.pause ms v).1 = true := fun _ _ => rfl
  have hReply : c.LastAnswer (c.answerTo (Prompt.render c.template answeredBefore) around ⟨0, []⟩) (.ok "fine") :=
    ⟨0, Nat.le_refl 0, nofun, rfl, .inl rfl⟩
  have hOutput : c.Usable (.ok "fine") (.string "fine") := .text "fine" rfl
  obtain ⟨delta, hDelta, -, hReplaced, -⟩ :=
    c.output_reaches_next_step around hPause answeredBefore ⟨0, []⟩ hReply hOutput
  exact ⟨hPause, hReply, hOutput, delta, hDelta, hReplaced (.inl rfl)⟩

/-- An object does not take the place of an earlier one: after an answer without any fields the next step still
sees the fields of the answer before. -/
theorem earlier_answer_shows_through :
    let c := { withDefaults "ask" "hi" with jsonOutput := true }
    let around := answering (fun _ => .ok "\x7b\x7d") fun _ => 0
    c.LastAnswer (c.answerTo (Prompt.render c.template answeredBefore) around ⟨0, []⟩) (.ok "\x7b\x7d") ∧
      c.Usable (.ok "\x7b\x7d") (.object .empty) ∧
      ∃ delta, ((Step.completion c).execute around answeredBefore ⟨0, []⟩).1 = .finished delta ∧
        (answeredBefore.apply delta).artifacts.get? "ask" ≠ some (Value.object .empty).json ∧
        (answeredBefore.apply delta).artifacts.get? "ask" = answeredBefore.artifacts.get? "ask" := by
  intro c around
  have hReply : c.LastAnswer (c.answerTo (Prompt.render c.template answeredBefore) around ⟨0, []⟩)
      (.ok "\x7b\x7d") := ⟨0, Nat.le_refl 0, nofun, rfl, .inl rfl⟩
  have hRead : Json.read "\x7b\x7d" = .ok (.object []) := by cbv
  have hOutput : c.Usable (.ok "\x7b\x7d") (.object .empty) := .json rfl hRead
  have hDelta := c.execute_of_lastAnswer around (fun _ _ => rfl) answeredBefore ⟨0, []⟩ hReply
  rw [deltaFor_of_usable hOutput] at hDelta
  have hBefore : answeredBefore.artifacts.get? "ask" = some (.object [("tone", .number (.int 3))]) := by
    rw [answeredBefore, Object.get?_insert_self]
    rfl
  have hAfter : (answeredBefore.apply (c.success (.object .empty))).artifacts.get? "ask" =
      answeredBefore.artifacts.get? "ask" := by
    rw [c.get?_artifacts_apply_success, show c.outputKey = "ask" from rfl, if_pos rfl, hBefore]
    rfl
  refine ⟨hReply, hOutput, _, hDelta, fun hOnly => ?_, hAfter⟩
  cases (hBefore.symm.trans hAfter.symm).trans hOnly

end Stepwise.Completion
