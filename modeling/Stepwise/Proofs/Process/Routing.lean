import Mathlib.Data.List.TakeWhile
import Stepwise.Proofs.Process.Compilation

/-! The routing table answers what its description says. `Description.choose` reads the successor of a step
off the list of described edges, as they stand there; compiling groups those edges by their source, drops
blank conditions and keeps one fallback for each step, and none of that changes an answer. -/
namespace Stepwise

/-- Whether a text is a condition, not a blank one, that holds in a state. -/
def Condition.textHolds (text : String) (s : State) : Bool :=
  Text.trim text != "" &&
    match compile text with
    | .ok c => c.holds s
    | .error _ => false

namespace Edge

/-- Whether the edge leaves a step under a condition that is not blank. -/
def guards (e : Edge) (step : String) : Bool :=
  e.source == step && e.condition.any fun text => Text.trim text != ""

/-- Whether the edge leaves a step under a condition that holds. -/
def fires (e : Edge) (step : String) (s : State) : Bool :=
  e.source == step && e.condition.any fun text => Condition.textHolds text s

/-- Whether the edge leaves a step under no condition. -/
def isFallbackOf (e : Edge) (step : String) : Bool :=
  e.source == step && e.condition.isNone

theorem isFallbackOf_iff {e : Edge} {step : String} :
    e.isFallbackOf step = true ↔ e.source = step ∧ e.condition = none := by
  rw [isFallbackOf, Bool.and_eq_true, beq_iff_eq, Option.isNone_iff_eq_none]

theorem isFallbackOf_eq_false_iff {e : Edge} {step : String} :
    e.isFallbackOf step = false ↔ (e.source = step → e.condition ≠ none) := by
  rw [← Bool.not_eq_true, isFallbackOf_iff, not_and]

theorem guards_of_fires {e : Edge} {step : String} {s : State} (h : e.fires step s = true) :
    e.guards step = true := by
  unfold fires at h
  unfold guards
  rw [Bool.and_eq_true] at h ⊢
  refine ⟨h.1, ?_⟩
  rw [Option.any_eq_true] at h ⊢
  obtain ⟨text, hText, hHolds⟩ := h.2
  rw [Condition.textHolds, Bool.and_eq_true] at hHolds
  exact ⟨text, hText, hHolds.1⟩

end Edge

namespace Description

def isDone (d : Description) (s : State) : Bool :=
  d.header.doneCondition.any fun text => Condition.textHolds text s

/-- The decision of the first edge that fires. Its index counts the guards of the step that stand before
that edge, and `before` of them before the list. -/
def firing? (before : Nat) (edges : List Edge) (step : String) (s : State) : Option Decision :=
  match edges.dropWhile fun e => !e.fires step s with
  | [] => none
  | e :: _ =>
    let earlier := edges.takeWhile fun e => !e.fires step s
    some ⟨.ofName e.target,
      .guard (before + earlier.countP fun e => e.guards step) (Text.trim (e.condition.getD ""))⟩

/-- The successor of a step, read off the description: the end if the process is done; else where the first
edge leads whose condition holds; else where the first edge without a condition leads, wherever it stands;
else the end. -/
def choose (d : Description) (step : String) (s : State) : Decision :=
  if d.isDone s then ⟨.terminal, .doneCondition⟩
  else
    match firing? 0 d.edges step s, d.edges.find? fun e => e.isFallbackOf step with
    | some decision, _ => decision
    | none, some e => ⟨.ofName e.target, .fallback⟩
    | none, none => ⟨.terminal, .noSuccessor⟩

theorem firing?_eq_none (before : Nat) {edges : List Edge} {step : String} {s : State}
    (h : ∀ e ∈ edges, e.fires step s = false) : firing? before edges step s = none := by
  have hWait : (edges.dropWhile fun e => !e.fires step s) = [] := by
    rw [List.dropWhile_eq_nil_iff]
    intro e he
    simp [h e he]
  rw [firing?, hWait]

end Description

namespace Condition

theorem textHolds_of_compile {text : String} {c : Condition} (h : compile text = .ok c) (s : State) :
    textHolds text s = c.holds s := by
  unfold textHolds
  rw [h]
  cases hBlank : (Text.trim text).isEmpty with
  | true =>
      have hEmpty : c.isEmpty = true := (compile_ok h).2.trans hBlank
      simp [holds_of_isEmpty hEmpty]
  | false =>
      have hText : Text.trim text ≠ "" := by simpa [String.isEmpty_iff] using hBlank
      simp [hText]

end Condition

namespace CompiledEdge

/-- A compiled edge is a guard of a step exactly when the edge is one, with the same end, text and
truth. -/
theorem guardOf?_of_compile {index : Nat} {e : Edge} {c : CompiledEdge}
    (h : compile index e = .ok c) (step : String) :
    (e.guards step = false ∧ guardOf? step c = none) ∨
      (e.guards step = true ∧ ∃ guarded, guardOf? step c = some guarded ∧ guarded.index = index ∧
        guarded.target = .ofName e.target ∧
        guarded.condition.source = Text.trim (e.condition.getD "") ∧
        ∀ s, guarded.condition.holds s = e.fires step s) := by
  obtain ⟨hIndex, hSource, hTarget⟩ := compile_ok h
  cases hCondition : e.condition with
  | none =>
      left
      simp [Edge.guards, guardOf?, hCondition, condition_eq_none h hCondition]
  | some text =>
      obtain ⟨condition, hCompile, hSome⟩ := condition_eq_some h hCondition
      obtain ⟨hText, hEmpty⟩ := Condition.compile_ok hCompile
      have hGuard : guardOf? step c =
          if e.guards step then some ⟨condition, .ofName e.target, index⟩ else none := by
        simp [guardOf?, Edge.guards, hSome, hCondition, hSource, hTarget, hIndex, hEmpty]
      cases hGuards : e.guards step with
      | false => exact .inl ⟨rfl, by rw [hGuard, hGuards]; rfl⟩
      | true =>
          refine .inr ⟨rfl, _, by rw [hGuard, hGuards]; rfl, rfl, rfl, hText, fun s => ?_⟩
          have hLeaves : (e.source == step) = true := (Bool.and_eq_true _ _ ▸ hGuards).1
          simp [Edge.fires, hCondition, hLeaves, Condition.textHolds_of_compile hCompile]

/-- The first guard of a step that holds is the first of its edges that fires. -/
theorem firstGuard?_of_compileAll {edges : List Edge} : ∀ {index : Nat} {cs : List CompiledEdge},
    compileAll index edges = .ok cs → ∀ (step : String) (s : State) (before : Nat),
      Route.firstGuard? s before (cs.filterMap (guardOf? step)) =
        Description.firing? before edges step s := by
  induction edges with
  | nil =>
      intro index cs h step s before
      cases compileAll_nil h
      rfl
  | cons e rest ih =>
      intro index cs h step s before
      obtain ⟨c, cs', rfl, hFirst, hRest⟩ := compileAll_cons h
      rcases guardOf?_of_compile hFirst step with ⟨hNot, hNone⟩ | ⟨hGuard, guarded, hSome, hParts⟩
      · have hWaits : e.fires step s = false := by
          rw [← Bool.not_eq_true]
          exact fun hFires => by simp [Edge.guards_of_fires hFires] at hNot
        rw [List.filterMap_cons_none hNone, ih hRest]
        simp [Description.firing?, hWaits, hNot]
      · obtain ⟨-, hTarget, hText, hHolds⟩ := hParts
        rw [List.filterMap_cons_some hSome, Route.firstGuard?, hHolds s]
        cases hFires : e.fires step s with
        | true => simp [Description.firing?, hFires, hTarget, hText]
        | false =>
            have hCount : ∀ k, before + 1 + k = before + (k + 1) := fun k => by omega
            rw [if_neg Bool.false_ne_true, ih hRest]
            simp [Description.firing?, hFires, hGuard, hCount]

theorem isFallbackOf_of_compile {index : Nat} {e : Edge} {c : CompiledEdge} (h : compile index e = .ok c)
    (step : String) : isFallbackOf step c = e.isFallbackOf step := by
  have hNone : c.condition.isNone = e.condition.isNone := by
    cases hCondition : e.condition with
    | none => exact congrArg Option.isNone (condition_eq_none h hCondition)
    | some text =>
        obtain ⟨condition, -, hSome⟩ := condition_eq_some h hCondition
        exact congrArg Option.isNone hSome
  rw [isFallbackOf, Edge.isFallbackOf, (compile_ok h).2.1, hNone]

/-- The fallback of a step is its first edge without a condition. -/
theorem find?_isFallbackOf_of_compileAll {edges : List Edge} :
    ∀ {index : Nat} {cs : List CompiledEdge}, compileAll index edges = .ok cs → ∀ step : String,
      (cs.find? (isFallbackOf step)).map CompiledEdge.target =
        (edges.find? fun e => e.isFallbackOf step).map fun e => .ofName e.target := by
  induction edges with
  | nil =>
      intro index cs h step
      cases compileAll_nil h
      rfl
  | cons e rest ih =>
      intro index cs h step
      obtain ⟨c, cs', rfl, hFirst, hRest⟩ := compileAll_cons h
      rw [List.find?_cons, List.find?_cons, isFallbackOf_of_compile hFirst]
      cases e.isFallbackOf step with
      | true => simp [(compile_ok hFirst).2.2]
      | false => exact ih hRest step

end CompiledEdge

namespace Graph

variable {d : Description} {g : Graph} {done : Condition} {edges : List CompiledEdge}

theorem Compiled.holds_done (h : Compiled d g done edges) (s : State) :
    g.done.holds s = d.isDone s := by
  have hDone := h.doneCompiles
  unfold compileDone at hDone
  rw [h.done, Description.isDone]
  split at hDone
  · rename_i hNone
    cases hDone
    rw [hNone]
    rfl
  · rename_i text hSome
    rw [hSome]
    cases hCompile : Condition.compile text with
    | error fault =>
        rw [hCompile] at hDone
        cases hDone
    | ok c =>
        rw [hCompile] at hDone
        cases hDone
        exact (Condition.textHolds_of_compile hCompile s).symm

/-- No edge leaves what is no declared step. -/
theorem Compiled.source_ne (h : Compiled d g done edges) {step : String}
    (hStep : d.steps.contains step = false) {e : Edge} (he : e ∈ d.edges) :
    (e.source == step) = false := by
  rw [beq_eq_false_iff_ne]
  rintro rfl
  rw [(h.wellFormed.edges e he).source] at hStep
  cases hStep

/-- What a compiled graph decides is what its description says, for declared steps and all other names. -/
theorem next_eq_choose {d : Description} {strict : Bool} {g : Graph}
    (h : Graph.compile d strict = .ok g) (step : String) (s : State) :
    g.next step s = d.choose step s := by
  obtain ⟨done, edges, hg⟩ := compile_ok h
  rw [next, Description.choose, hg.holds_done s, hg.route?_eq step]
  cases d.isDone s with
  | true => rfl
  | false =>
      cases hStep : d.steps.contains step with
      | true =>
          have hGuards := CompiledEdge.firstGuard?_of_compileAll hg.edgesCompile step s 0
          have hFallback := CompiledEdge.find?_isFallbackOf_of_compileAll hg.edgesCompile step
          simp only [Bool.false_eq_true, if_false, if_true, Route.decide, Route.ofEdges, hGuards,
            hFallback]
          cases Description.firing? 0 d.edges step s with
          | some decision => rfl
          | none => cases d.edges.find? fun e => e.isFallbackOf step <;> rfl
      | false =>
          have hFiring : Description.firing? 0 d.edges step s = none :=
            Description.firing?_eq_none 0 fun e he => by simp [Edge.fires, hg.source_ne hStep he]
          have hFallback : (d.edges.find? fun e => e.isFallbackOf step) = none := by
            rw [List.find?_eq_none]
            intro e he
            simp [Edge.isFallbackOf, hg.source_ne hStep he]
          simp [hFiring, hFallback]

/-- Edges of two steps mixed, with a blank condition and a fallback before the guards. -/
private def triage : Description :=
  Description.startingAt " triage "
    |>.withDoneCondition "quality.closed"
    |>.withStep "triage" (.ofKind "judge")
    |>.withStep "answer" (.ofKind "llm")
    |>.withStep "escalate" (.ofKind "assign")
    |>.withEdge (.guarded "triage" "answer" " ")
    |>.withEdge (.always "triage" "answer")
    |>.withEdge (.guarded "answer" "triage" "quality.unclear")
    |>.withEdge (.guarded "triage" terminalName "context.spam")
    |>.withEdge (.guarded "triage" "escalate" " quality.urgent == True ")
    |>.withEdge (.toEnd "escalate")

private def urgent : State := { State.empty with quality := .ofList [("urgent", .bool true)] }

theorem next_eq_choose_triage :
    ∃ g, Graph.compile triage false = .ok g ∧
      g.next "triage" urgent = triage.choose "triage" urgent ∧
      triage.choose "triage" urgent = ⟨.step "escalate", .guard 1 "quality.urgent == True"⟩ := by
  have hCompiles : (Graph.compile triage false).isOk = true := by decide +kernel
  cases h : Graph.compile triage false with
  | error e =>
      rw [h] at hCompiles
      cases hCompiles
  | ok g => exact ⟨g, rfl, next_eq_choose h "triage" urgent, by decide +kernel⟩

end Graph

end Stepwise
