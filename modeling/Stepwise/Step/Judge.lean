import Stepwise.Step.Basic
import Stepwise.Text.Blank
import Stepwise.Json.Printer

/-!
Reviews. The default rule approves an artifact whose text is long enough and counts its attempts, so that a
guard on the count bounds a loop of reviews.
-/

namespace Stepwise

structure Judge where
  name : String
  /-- The artifact to review. -/
  artifact : String
  /-- The artifact must have more characters than this. -/
  minLength : Nat
  purpose : Option String
  /-- A function in place of the default rule. -/
  rule : Option StepFunction

namespace Judge

def withDefaults (name : String) : Judge := ⟨name, "draft", 200, none, none⟩

/-- The length of an artifact; only texts and objects have one. -/
def lengthOf? : Json → Option Nat
  | .string s => some s.length
  | .object fields => some (Json.object fields).compact.length
  | _ => none

def approves (j : Judge) (s : State) : Bool :=
  match (s.artifacts.get? j.artifact).bind lengthOf? with
  | some length => j.minLength < length
  | none => false

/-- The bounds of signed 64-bit integers. -/
def clampInt64 (n : Int) : Int :=
  max (-(Int.pow 2 63)) (min n (Int.pow 2 63 - 1))

private def isInt64 (n : Int) : Bool :=
  -(Int.pow 2 63) ≤ n && n < Int.pow 2 63

/-- A signed 64-bit integer in decimal digits. -/
private def int64? (text : List Char) : Option Int :=
  let (negative, digits) := match text with
    | '-' :: rest => (true, rest)
    | '+' :: rest => (false, rest)
    | _ => (false, text)
  if !digits.isEmpty && digits.all fun c => '0' ≤ c && c ≤ '9' then
    let size := digits.foldl (fun n c => n * 10 + (c.toNat - '0'.toNat)) 0
    let value : Int := if negative then -(size : Int) else size
    if isInt64 value then some value else none
  else none

/-- How often the reviewer has judged so far. A number counts without its fraction and a text if it is an
integer; anything else counts as none. -/
def attemptsOf : Json → Int
  | .number (.int n) => clampInt64 n
  | .number (.float x) => clampInt64 x.truncate
  | .string s => (int64? (Text.trimChars s.toList)).getD 0
  | _ => 0

def attempts (s : State) : Int :=
  ((s.quality.get? "attempts").map attemptsOf).getD 0

/-- The verdict, and one attempt more than before. A count is a signed 64-bit integer and is taken to stay
below the greatest one: there the sum is no count any more, and no result is promised. -/
def defaultDelta (j : Judge) (s : State) : Delta :=
  let status := if j.approves s then "approved" else "revise"
  Delta.empty
    |>.withQuality "review_status" (.string status)
    |>.withQuality "attempts" (.int (attempts s + 1))
    |>.withLog (.object (.ofList
      [("agent", .string j.name), ("kind", .string "judge"), ("rule", .string "default")]))

/-- The record of a review by a rule of its own. -/
def ruleRecord (j : Judge) : Value :=
  let purpose := match j.purpose with
    | some text => Value.string text
    | none => .null
  .object (.ofList
    [("agent", .string j.name), ("kind", .string "judge"), ("purpose", purpose)])

def review (j : Judge) (s : State) : Except Error Delta :=
  match j.rule with
  | none => .ok (j.defaultDelta s)
  | some rule => (rule s).map (·.withLog j.ruleRecord)

end Judge

end Stepwise
