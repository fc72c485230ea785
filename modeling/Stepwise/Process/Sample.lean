import Stepwise.Process.Description

/-!
Small processes that show what descriptions look like. They end by their done condition, by an edge, never,
or after three reviews.
-/

namespace Stepwise.Sample

private def fieldOf (key : String) (value : Value) : Value :=
  .object (.ofList [(key, value)])

/-- Two steps in a row; the second one makes the done condition hold. -/
def twoStep : Description :=
  Description.startingAt "s1"
    |>.withName "two-step"
    |>.withDoneCondition "quality.status == 'done'"
    |>.withStep "s1" (StepSpec.ofKind "assign" |>.withParam "artifacts" (fieldOf "x" (.string "first")))
    |>.withStep "s2"
      (StepSpec.ofKind "assign" |>.withParam "quality" (fieldOf "status" (.string "done")))
    |>.withEdge (.always "s1" "s2")
    |>.withEdge (.toEnd "s2")

/-- A guard chooses between two steps that both end. -/
def routing : Description :=
  Description.startingAt "a"
    |>.withName "routing"
    |>.withStep "a" (.ofKind "assign")
    |>.withStep "b" (.ofKind "assign")
    |>.withStep "c" (.ofKind "assign")
    |>.withEdge (.guarded "a" "b" "quality.ok == True")
    |>.withEdge (.always "a" "c")
    |>.withEdge (.toEnd "b")
    |>.withEdge (.toEnd "c")

/-- Two steps that follow each other for ever. -/
def cycle : Description :=
  Description.startingAt "ping"
    |>.withName "cycle"
    |>.withStep "ping" (.ofKind "assign")
    |>.withStep "pong" (.ofKind "assign")
    |>.withEdge (.always "ping" "pong")
    |>.withEdge (.always "pong" "ping")

/-- A writer and a reviewer, who gives up after three attempts. -/
def reviewLoop : Description :=
  Description.startingAt "writer"
    |>.withName "review-loop"
    |>.withDoneCondition "quality.review_status == 'approved'"
    |>.withStep "writer" (StepSpec.ofKind "llm"
      |>.withParam "prompt_template" (.string "Write a short piece about \x7bcontext.topic\x7d.")
      |>.withParam "purpose" (.string "draft")
      |>.withParam "output_key" (.string "draft"))
    |>.withStep "reviewer" (StepSpec.ofKind "judge"
      |>.withParam "artifact" (.string "draft")
      |>.withParam "min_length" (.nat 40))
    |>.withEdge (.always "writer" "reviewer")
    |>.withEdge (.guarded "reviewer" terminalName "quality.attempts >= 3")
    |>.withEdge (.always "reviewer" "writer")

/-- The lines of the same process in YAML. -/
private def reviewLoopLines : List String :=
  ["",
    "process:",
    "  name: review-loop",
    "  start: writer",
    "  done_condition: \"quality.review_status == 'approved'\"",
    "steps:",
    "  writer:",
    "    kind: llm",
    "    prompt_template: \"Write a short piece about \x7bcontext.topic\x7d.\"",
    "    purpose: draft",
    "    output_key: draft",
    "  reviewer:",
    "    kind: judge",
    "    artifact: draft",
    "    min_length: 40",
    "edges:",
    "  - from: writer",
    "    to: reviewer",
    "  - from: reviewer",
    "    to: __end__",
    "    condition: \"quality.attempts >= 3\"",
    "  - from: reviewer",
    "    to: writer"]

/-- The same process in YAML. -/
def reviewLoopText : String :=
  String.join (reviewLoopLines.map (· ++ "\n"))

end Stepwise.Sample
