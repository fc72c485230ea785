import Stepwise.Step.Kinds

/-!
Surroundings for rehearsals: a clock that only pauses move, a client that answers from a script, and a time at
which the run is cancelled.
-/

namespace Stepwise.Rehearsal

/-- A request that a client has received. -/
structure Call where
  model : String
  prompt : String
  /-- The time since the first request. -/
  sinceFirst : Nat

/-- An answer or the message of a failure. -/
abbrev Reply := Except String String

inductive Client where
  /-- Repeats the prompt. -/
  | simulated
  /-- Gives the replies in order and then the last one again and again. -/
  | script (replies : List Reply)

structure Session where
  now : Nat
  cancelled : Bool
  /-- When the run will be cancelled. -/
  cancelAt : Option Nat
  client : Client
  /-- The time of the first request. -/
  firstCall : Option Nat
  /-- The requests so far, latest first. -/
  calls : List Call
  /-- How often each rehearsed step was executed. -/
  executed : List (String × Nat)

namespace Session

def start (client : Client) : Session := ⟨0, false, none, client, none, [], []⟩

private def replyOf (client : Client) (model prompt : String) : Except Error String × Client :=
  match client with
  | .simulated => (.ok (Completion.simulatedAnswer model prompt), client)
  | .script [] => (.error (.completion "script is empty"), client)
  | .script [reply] => (reply.mapError .completion, client)
  | .script (reply :: rest) => (reply.mapError .completion, .script rest)

/-- Every request is answered at once, so none is pending when the run is cancelled. -/
def complete (model prompt : String) (s : Session) : Option (Except Error String) × Session :=
  let (reply, client) := replyOf s.client model prompt
  let first := s.firstCall.getD s.now
  (some reply, { s with
    client, firstCall := some first, calls := ⟨model, prompt, s.now - first⟩ :: s.calls })

/-- Let time pass up to an end, or for ever if there is none. A run that is to be cancelled before the end
is cancelled at its time. -/
def passTime (until? : Option Nat) (s : Session) : Bool × Session :=
  match s.cancelAt, until? with
  | some time, some finish =>
    if time < finish then (false, { s with now := max s.now time, cancelled := true, cancelAt := none })
    else (true, { s with now := finish })
  | some time, none => (false, { s with now := max s.now time, cancelled := true, cancelAt := none })
  | none, some finish => (true, { s with now := finish })
  | none, none => (false, s)

/-- The longest pause in milliseconds, which is thirty years of 365 days. -/
def longestPause : Nat := 30 * 365 * 24 * 60 * 60 * 1000

/-- Let some milliseconds pass; a longer pause than the longest ends after that. -/
def pause (ms : Nat) (s : Session) : Bool × Session :=
  s.passTime (some (s.now + min ms longestPause))

/-- Count an execution of a step; the number of earlier ones comes with it. -/
def count (step : String) (s : Session) : Nat × Session :=
  let before := (s.executed.lookup step).getD 0
  (before, { s with executed := (step, before + 1) :: s.executed.filter fun e => e.1 != step })

def surroundings : Surroundings Session where
  observe s := (s.cancelled, s)
  clock := Session.now
  complete := complete
  pause := pause

end Session

/-- A step whose behaviour is written down. -/
inductive Part where
  /-- Returns the deltas in order and then the last one again and again. -/
  | deltas (deltas : List Delta)
  | fail (message : String)
  | error (error : Error)
  /-- Cancels the run and returns a delta. -/
  | cancel (delta : Delta)
  /-- Never ends. -/
  | pending
  | sleep (ms : Nat) (delta : Delta)

namespace Part

def kind : Part → String
  | deltas _ | error _ | cancel _ => "test"
  | fail _ | pending | sleep _ _ => "custom"

/-- Play a part; `id` tells the executions of one step from those of others. -/
def play (id : String) (part : Part) (s : Session) : Execution × Session :=
  match part with
  | deltas ds =>
    let (before, s) := s.count id
    (.finished (ds[min before (ds.length - 1)]?.getD .empty), s)
  | fail message => (.failed (.io message), s)
  | error e => (.failed e, s)
  | cancel d => (.finished d, { s with cancelled := true })
  | pending => (.interrupted, (s.passTime none).2)
  | sleep ms d =>
    match s.pause ms with
    | (true, s) => (.finished d, s)
    | (false, s) => (.interrupted, s)

def toStep (id : String) (part : Part) : Step Session :=
  .custom part.kind fun _ s => part.play id s

end Part

/-- A function that returns a delta, with a value of the context copied to an artifact, or an error. -/
def fixedFunction (delta : Delta) (copy : Option (String × String)) (error? : Option Error) :
    StepFunction := fun s =>
  match error?, copy with
  | some e, _ => .error e
  | none, some (source, target) =>
    .ok (delta.withArtifact target ((s.context.value? source).getD .null))
  | none, none => .ok delta

end Stepwise.Rehearsal
