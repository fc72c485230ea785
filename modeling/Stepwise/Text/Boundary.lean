/-!
Texts cut at a number of bytes. A cut falls between two characters, so from an offset inside of a character it
goes back, byte by byte, to where the character starts.
-/

namespace Stepwise.Text

/-- The last offset up to the given one at which a character starts or the text ends. There is none if the
way back leads past the start of the text. -/
def boundary? (text : String) : (offset : Nat) → Option Nat
  | 0 => if (String.Pos.Raw.mk 0).isValid text then some 0 else none
  | offset + 1 =>
    if (String.Pos.Raw.mk (offset + 1)).isValid text then some (offset + 1) else boundary? text offset

/-- The text in front of an offset, which may not be inside of a character. -/
def before? (text : String) (offset : Nat) : Option String :=
  if h : (String.Pos.Raw.mk offset).IsValid text then some (text.sliceTo ⟨⟨offset⟩, h⟩).copy else none

/-- A text that takes more bytes than these ends at the last boundary that they reach. -/
def truncate? (bytes : Nat) (text : String) : Option String :=
  if text.utf8ByteSize ≤ bytes then some text else (boundary? text bytes).bind (before? text)

/-- The start of a text is a boundary, so the way back ends there at the latest. -/
theorem exists_boundary? (text : String) (offset : Nat) :
    ∃ stop, boundary? text offset = some stop ∧ stop ≤ offset ∧ (String.Pos.Raw.mk stop).IsValid text ∧
      ∀ later, stop < later → later ≤ offset → ¬ (String.Pos.Raw.mk later).IsValid text := by
  induction offset with
  | zero =>
      refine ⟨0, by simp [boundary?], Nat.le_refl 0, String.Pos.Raw.isValid_zero, fun later hLater hLe => ?_⟩
      omega
  | succ offset ih =>
      by_cases hValid : (String.Pos.Raw.mk (offset + 1)).IsValid text
      · refine ⟨offset + 1, by simp [boundary?, hValid], Nat.le_refl _, hValid, fun later hLater hLe => ?_⟩
        omega
      · obtain ⟨stop, hStop, hLe, hAt, hNone⟩ := ih
        refine ⟨stop, ?_, Nat.le_succ_of_le hLe, hAt, fun later hLater hLast => ?_⟩
        · simp [boundary?, hValid, hStop]
        · rcases Nat.lt_or_eq_of_le hLast with hBelow | rfl
          · exact hNone later hLater (Nat.le_of_lt_succ hBelow)
          · exact hValid

/-- A boundary has a text in front of it. -/
theorem exists_before? {text : String} {offset : Nat} (h : (String.Pos.Raw.mk offset).IsValid text) :
    ∃ start rest, before? text offset = some start ∧ text = start ++ rest ∧
      start.utf8ByteSize = offset := by
  have hSplits := String.Pos.splits (s := text) ⟨⟨offset⟩, h⟩
  refine ⟨_, _, dif_pos h, hSplits.eq_append, ?_⟩
  exact congrArg String.Pos.Raw.byteIdx hSplits.offset_eq_rawEndPos.symm

theorem isSome_truncate? (bytes : Nat) (text : String) : (truncate? bytes text).isSome = true := by
  unfold truncate?
  split
  · rfl
  · obtain ⟨stop, hStop, -, hAt, -⟩ := exists_boundary? text bytes
    obtain ⟨start, rest, hStart, -, -⟩ := exists_before? hAt
    rw [hStop, Option.bind_some, hStart, Option.isSome_some]

/-- A text, or as much of it as these bytes hold. -/
def truncate (bytes : Nat) (text : String) : String :=
  (truncate? bytes text).get (isSome_truncate? bytes text)

theorem truncate?_eq (bytes : Nat) (text : String) : truncate? bytes text = some (truncate bytes text) :=
  (Option.some_get _).symm

end Stepwise.Text
