import Stepwise.Run.Log
import Stepwise.Proofs.Json.Fields

/-! What a long error leaves in a log. A text is cut by a search that goes back byte by byte. The search ends at
a boundary between characters, since the start of the text is one, and it leaves nothing out that would still
have fitted, since no character takes more than four bytes. -/
namespace Stepwise

namespace Text

/-- The longest start of a text, in whole characters, that takes at most so many bytes. -/
structure Fills (bytes : Nat) (text kept : String) : Prop where
  start : ∃ rest, text = kept ++ rest
  fits : kept.utf8ByteSize ≤ bytes
  longest : ∀ start rest, text = start ++ rest → start.utf8ByteSize ≤ bytes →
    ∃ more, kept = start ++ more

/-- Of two starts of a text the smaller one is a start of the other. -/
theorem exists_append_of_starts {start rest kept more : String} (h : start ++ rest = kept ++ more)
    (hSize : start.utf8ByteSize ≤ kept.utf8ByteSize) : ∃ between, kept = start ++ between := by
  have hList := congrArg String.toList h
  rw [String.toList_append, String.toList_append] at hList
  rcases List.append_eq_append_iff.mp hList with ⟨between, hKept, -⟩ | ⟨between, hStart, -⟩
  · exact ⟨String.ofList between, String.toList_inj.mp (by simp [hKept])⟩
  · have hEq : start = kept ++ String.ofList between := String.toList_inj.mp (by simp [hStart])
    have hEmpty : String.ofList between = "" := by
      rw [← String.utf8ByteSize_eq_zero_iff]
      rw [hEq, String.utf8ByteSize_append] at hSize
      omega
    exact ⟨"", by rw [hEq, hEmpty, String.append_empty, String.append_empty]⟩

theorem Fills.eq_of_le {bytes : Nat} {text kept : String} (h : Fills bytes text kept)
    (hSize : text.utf8ByteSize ≤ bytes) : kept = text := by
  obtain ⟨rest, hText⟩ := h.start
  obtain ⟨more, hKept⟩ := h.longest text "" String.append_empty.symm hSize
  rw [hKept, String.append_assoc, eq_comm, String.append_eq_left_iff, String.append_eq_empty_iff] at hText
  rw [hKept, hText.1, String.append_empty]

/-- The next character would not have fitted. -/
theorem Fills.lt_add_four {bytes : Nat} {text kept : String} (h : Fills bytes text kept)
    (hSize : bytes < text.utf8ByteSize) : bytes < kept.utf8ByteSize + 4 := by
  obtain ⟨rest, hText⟩ := h.start
  cases hRest : rest.toList with
  | nil =>
      rw [String.toList_eq_nil_iff] at hRest
      rw [hText, hRest, String.append_empty] at hSize
      exact absurd h.fits (Nat.not_le.mpr hSize)
  | cons c later =>
      have hNext : text = kept.push c ++ String.ofList later :=
        String.toList_inj.mp (by simp [hText, hRest])
      by_contra hLoss
      have hFour := c.utf8Size_le_four
      obtain ⟨more, hKept⟩ := h.longest _ _ hNext (by rw [String.utf8ByteSize_push]; omega)
      have hByte := c.utf8Size_pos
      have hSizes := congrArg String.utf8ByteSize hKept
      rw [String.utf8ByteSize_append, String.utf8ByteSize_push] at hSizes
      omega

theorem fills_truncate (bytes : Nat) (text : String) : Fills bytes text (truncate bytes text) := by
  have hEq := truncate?_eq bytes text
  unfold truncate? at hEq
  split at hEq
  · next hFits =>
      rw [← Option.some.inj hEq]
      exact ⟨⟨"", String.append_empty.symm⟩, hFits, fun start rest hText _ => ⟨rest, hText⟩⟩
  · obtain ⟨stop, hStop, hLe, hAt, hNone⟩ := exists_boundary? text bytes
    obtain ⟨kept, rest, hKept, hText, hSize⟩ := exists_before? hAt
    rw [hStop, Option.bind_some, hKept] at hEq
    rw [← Option.some.inj hEq]
    refine ⟨⟨rest, hText⟩, hSize ▸ hLe, fun start later hStart hFits => ?_⟩
    have hBoundary : (String.Pos.Raw.mk start.utf8ByteSize).IsValid text :=
      String.Pos.Raw.isValid_iff_exists_append.mpr ⟨start, later, hStart, rfl⟩
    have hBefore : start.utf8ByteSize ≤ kept.utf8ByteSize := by
      rw [hSize]
      exact Nat.le_of_not_lt fun hLater => hNone _ hLater hFits hBoundary
    exact exists_append_of_starts (hStart.symm.trans hText) hBefore

example : truncate? 2 "héllo" = some "h" := by decide +kernel

end Text

namespace RunLog

/-- Each line of a log is the entry for an event of its run. -/
theorem exists_event_of_mem_entries {l : RunLog} {runId : String} {items : List Received} {line : LogEntry}
    (h : line ∈ l.entries runId items) :
    ∃ report, .event ⟨runId, report⟩ ∈ items ∧ l.entry? ⟨runId, report⟩ = some line := by
  induction items with
  | nil => cases h
  | cons item rest ih =>
      have later (h : line ∈ l.entries runId rest) :
          ∃ report, .event ⟨runId, report⟩ ∈ item :: rest ∧ l.entry? ⟨runId, report⟩ = some line := by
        obtain ⟨report, hMem, hEntry⟩ := ih h
        exact ⟨report, List.mem_cons_of_mem item hMem, hEntry⟩
      cases item with
      | lagged count => exact later h
      | closed | cancelled => cases h
      | event e =>
          rw [entries] at h
          split at h
          · exact later h
          · next hOwn =>
              rw [List.mem_append, Option.mem_toList] at h
              rcases h with hHere | hThere
              · obtain rfl := not_not.mp hOwn
                exact ⟨e.report, List.mem_cons_self, hHere⟩
              · split at hThere
                · cases hThere
                · exact later hThere

/-- A line about a failed step shows what is left of its error. -/
theorem exists_of_stepFailed {l : RunLog} {runId : String} {items : List Received} {line : LogEntry}
    (h : line ∈ l.entries runId items) (hType : line.eventType = "step_failed") :
    ∃ step error, .event ⟨runId, .stepFailed step error⟩ ∈ items ∧ line.step = some step ∧
      line.detail.get? "error" = some (.string (Text.truncate Report.maxErrorBytes error)) := by
  obtain ⟨report, hMem, hEntry⟩ := exists_event_of_mem_entries h
  unfold entry? at hEntry
  split at hEntry
  · obtain rfl := Option.some.inj hEntry
    cases report with
    | stepFailed step error => exact ⟨step, error, hMem, rfl, Json.lookup_insertField_self _ _ _⟩
    | _ => simp [Report.name] at hType
  · cases hEntry

/-- The search for a place to cut a text never leads past its start. It finds the longest start of the text, in
whole characters, that takes at most so many bytes: the text itself if it fits, and otherwise one that is less
than four bytes short of them. Each line about a failed step shows the error of its event in this way. -/
theorem truncation_keeps_characters :
    (∀ bytes text, ∃ kept, Text.truncate? bytes text = some kept ∧ Text.Fills bytes text kept ∧
      (text.utf8ByteSize ≤ bytes → kept = text) ∧
      (bytes < text.utf8ByteSize → bytes - kept.utf8ByteSize < 4)) ∧
    ∀ (l : RunLog) (runId : String) (items : List Received), ∀ line ∈ l.entries runId items,
      line.eventType = "step_failed" →
        ∃ step error kept, .event ⟨runId, .stepFailed step error⟩ ∈ items ∧ line.step = some step ∧
          line.detail.get? "error" = some (.string kept) ∧ Text.Fills 500 error kept ∧
          (error.utf8ByteSize ≤ 500 → kept = error) ∧
          (500 < error.utf8ByteSize → 500 - kept.utf8ByteSize < 4) := by
  have hCut (bytes : Nat) (text : String) :
      (text.utf8ByteSize ≤ bytes → Text.truncate bytes text = text) ∧
        (bytes < text.utf8ByteSize → bytes - (Text.truncate bytes text).utf8ByteSize < 4) := by
    have hFills := Text.fills_truncate bytes text
    refine ⟨hFills.eq_of_le, fun hSize => ?_⟩
    have hLoss := hFills.lt_add_four hSize
    omega
  refine ⟨fun bytes text => ?_, fun l runId items line hLine hType => ?_⟩
  · exact ⟨_, Text.truncate?_eq bytes text, Text.fills_truncate bytes text, hCut bytes text⟩
  · obtain ⟨step, error, hEvent, hStep, hError⟩ := exists_of_stepFailed hLine hType
    exact ⟨step, error, _, hEvent, hStep, hError, Text.fills_truncate _ error, hCut _ error⟩

/-- The five hundredth byte of this error is in the middle of its last character. -/
theorem truncation_keeps_characters_accented :
    let error := String.ofList (List.replicate 499 'a' ++ ['é'])
    let items : List Received := [.lagged 3, .event ⟨"r", .stepFailed "ask" error⟩]
    ∃ line ∈ entries ⟨"runs", 2⟩ "r" items, line.eventType = "step_failed" ∧ 500 < error.utf8ByteSize ∧
      ∃ kept, line.detail.get? "error" = some (.string kept) ∧ Text.Fills 500 error kept ∧
        500 - kept.utf8ByteSize < 4 := by
  intro error items
  let line : LogEntry := ⟨"r", "step_failed", some "ask", Report.detail (.stepFailed "ask" error)⟩
  have hLine : line ∈ entries ⟨"runs", 2⟩ "r" items := List.mem_singleton_self line
  have hSize : 500 < error.utf8ByteSize := by decide +kernel
  obtain ⟨step, error', kept, hEvent, -, hKept, hFills, -, hLoss⟩ :=
    truncation_keeps_characters.2 ⟨"runs", 2⟩ "r" items line hLine rfl
  obtain ⟨-, rfl⟩ : step = "ask" ∧ error' = error := by simpa [items] using hEvent
  exact ⟨line, hLine, rfl, hSize, kept, hKept, hFills, hLoss hSize⟩

end RunLog

end Stepwise
