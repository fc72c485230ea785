import Stepwise.Proofs.Config.Expansion

/-! What a configuration says to variables that are not set. References to them are written back as they are, so
a text with closed references is read as it stands. A reference that runs to the end of the text is written
back too, but with a brace that the text does not have. -/
namespace Stepwise.Config

/-- The name stands where a reference is opened, and goes on to the next brace that closes or to the end. -/
def Mentions (text name : String) : Prop :=
  ∃ front behind, text = front ++ ("$\x7b" ++ name ++ behind) ∧ '\x7d' ∉ name.toList ∧
    (behind = "" ∨ ∃ rest, behind = "\x7d" ++ rest)

theorem Mentions.prepend {text name : String} (h : Mentions text name) (before : String) :
    Mentions (before ++ text) name := by
  obtain ⟨front, behind, rfl, hName, hEnd⟩ := h
  exact ⟨before ++ front, behind, String.append_assoc.symm, hName, hEnd⟩

theorem mentions_of_mem_names {t : Template} {name : String} (h : name ∈ t.names) (more : String) :
    Mentions (t.text ++ more) name := by
  induction t with
  | literal text plain => cases h
  | reference before plain first closed rest ih =>
      have hText : (Template.reference before plain first closed rest).text ++ more =
          before ++ ("$\x7b" ++ first ++ ("\x7d" ++ (rest.text ++ more))) := by
        simp [Template.text, Template.fill, String.append_assoc]
      rw [hText]
      rcases List.mem_cons.mp h with rfl | hRest
      · exact ⟨before, _, rfl, closed, .inr ⟨_, rfl⟩⟩
      · have hMentions := (ih hRest).prepend (before ++ ("$\x7b" ++ first ++ "\x7d"))
        simpa only [String.append_assoc] using hMentions

/-- Each reference has the name that the text mentions in its place. -/
theorem mentions_of_mem_references {text name : String} (h : name ∈ references text) : Mentions text name := by
  rcases exists_template_or_open text with ⟨t, rfl⟩ | ⟨t, last, hLast, rfl⟩
  · rw [references_text] at h
    simpa using mentions_of_mem_names h ""
  · rw [references_text_append t _ fun _ => by simp, references_open hLast, List.mem_append,
      List.mem_singleton] at h
    rcases h with hClosed | rfl
    · exact mentions_of_mem_names hClosed _
    · exact ⟨t.text, "", by rw [String.append_empty], hLast, .inl rfl⟩

/-- References to unset variables are written back. -/
theorem expansion_of_unset {env : Environment} {t : Template} (h : ∀ name ∈ t.names, env name = none) :
    t.expansion env = t.text :=
  t.fill_congr fun name hName => by rw [h name hName, Option.getD_none]

section

variable {env : Environment} {text : String}

theorem expand_of_closes (hUnset : ∀ name ∈ references text, env name = none) (hCloses : Closes text) :
    expand env text = text := by
  obtain ⟨t, rfl⟩ := (closes_iff text).mp hCloses
  rw [references_text] at hUnset
  rw [expand_text, expansion_of_unset hUnset]

/-- The last reference takes all that follows, and is closed when it is written back. -/
theorem expand_of_not_closes (hUnset : ∀ name ∈ references text, env name = none) (hOpen : ¬ Closes text) :
    expand env text = text ++ "\x7d" := by
  rcases exists_template_or_open text with ⟨t, rfl⟩ | ⟨t, last, hLast, rfl⟩
  · exact absurd (closes_text t) hOpen
  · rw [references_text_append t _ fun _ => by simp, references_open hLast] at hUnset
    have hNames : ∀ name ∈ t.names, env name = none := fun name h => hUnset name (List.mem_append_left _ h)
    have hName : env last = none := hUnset last (List.mem_append_right _ List.mem_cons_self)
    rw [expand_text_append env t _ fun _ => by simp, expansion_of_unset hNames, expand_open env hLast, hName]
    simp only [Option.getD_none, referenceText, String.append_assoc]

end

/-- If no variable is set to which a text refers, then the text stays as it is, and it is read as it stands,
provided that a brace follows wherever a reference is opened. Otherwise a brace is put behind it. -/
theorem unset_references_stay (env : Environment) (text : String) :
    (∀ name ∈ references text, Mentions text name) ∧
    ((∀ name ∈ references text, env name = none) →
      (Closes text → expand env text = text ∧
        ∀ path, ofFile env path (.content text) = ofExpanded text) ∧
      (¬ Closes text → expand env text = text ++ "\x7d" ∧
        ∀ path, ofFile env path (.content text) = ofExpanded (text ++ "\x7d"))) := by
  refine ⟨fun name => mentions_of_mem_references, fun hUnset => ⟨fun hCloses => ?_, fun hOpen => ?_⟩⟩
  · have hSame := expand_of_closes hUnset hCloses
    exact ⟨hSame, fun path => congrArg ofExpanded hSame⟩
  · have hBrace := expand_of_not_closes hUnset hOpen
    exact ⟨hBrace, fun path => congrArg ofExpanded hBrace⟩

/-- A name may hold an opened reference and the name of a variable that is set. -/
theorem unset_references_stay_nested :
    let env : Environment := fun name => if name = "B" then some "x" else none
    let text := "# $\x7bA$\x7bB\x7d$\x7b\x7d$"
    let longer := text ++ "$\x7bA\n"
    (∀ name ∈ references text, env name = none) ∧ Closes text ∧ expand env text = text ∧
      (∀ name ∈ references longer, env name = none) ∧ ¬ Closes longer ∧
      expand env longer = longer ++ "\x7d" := by
  intro env text longer
  let t : Template := .reference "# " (by decide) "A$\x7bB" (by decide) <|
    .reference "" (by decide) "" (by decide) <| .literal "$" (by decide)
  have hText : t.text = text := by decide +kernel
  have hCloses : Closes text := hText ▸ closes_text t
  have hOpen : ¬ Closes longer := by
    have hSplit : longer = t.text ++ ("$\x7b" ++ "A\n") := by decide +kernel
    rw [hSplit]
    exact not_closes_open t (by decide)
  have hUnset : ∀ name ∈ references text, env name = none := by decide +kernel
  have hLonger : ∀ name ∈ references longer, env name = none := by decide +kernel
  have hSame := (((unset_references_stay env text).2 hUnset).1 hCloses).1
  exact ⟨hUnset, hCloses, hSame, hLonger, hOpen, (((unset_references_stay env longer).2 hLonger).2 hOpen).1⟩

/-- A reference in a comment is not closed. -/
private def commented : String := "# see $\x7bLOG_DIR\n[log]\nlevel = 2\n"

private def levelRead (read : Except Error Config) : Option Nat :=
  match read with
  | .ok config => some config.log.level
  | .error _ => none

/-- The brace behind the text is on a line of its own, so a text that could be read no longer can. -/
theorem unclosed_reference_grows :
    let env : Environment := fun _ => none
    (∀ name, Mentions commented name → env name = none) ∧ expand env commented ≠ commented ∧
      levelRead (ofExpanded commented) = some 2 ∧
      levelRead (ofFile env "waypoint.toml" (.content commented)) = none := by
  refine ⟨fun name _ => rfl, ?_, ?_, ?_⟩
  · decide +kernel
  · decide +kernel
  · decide +kernel

end Stepwise.Config
