import Stepwise.CommandLine.Request
import Stepwise.Config
import Stepwise.Process.Source
import Stepwise.Run.Engine
import Stepwise.Run.Log
import Stepwise.Step.Build

/-!
What the program answers to a request, given the files and the environment that it finds.
-/

namespace Stepwise.CommandLine

/-- The contents of files by their paths. -/
abbrev Files := String → FileResult

/-- Surroundings in which no model is needed. No request fails, so a run never waits, and nobody cancels
it. -/
def offline : Surroundings Unit where
  observe w := (false, w)
  clock _ := 0
  complete model prompt w := (some (.ok (Completion.simulatedAnswer model prompt)), w)
  pause _ w := (true, w)

/-! ### Failures -/

inductive Failure where
  | error (error : Error)
  | badConfig (path : String) (error : Error)
  | unreadableContext (path message : String)
  | malformedContext (message : String)
  /-- The context file holds a value that is no object. -/
  | noObject (path : String) (found : Json)

/-- The message of what a system call answers for a file that does not exist. -/
def noSuchFile : String := "No such file or directory (os error 2)"

/-- Messages of what stands behind an error and is not told by it alone. -/
def causesOf : Error → List String
  | .invalidCondition _ fault => [fault.message]
  | .io message | .json message => [message]
  | _ => []

namespace Failure

def message : Failure → String
  | .error e => e.message
  | .badConfig path _ => s!"loading {path}"
  | .unreadableContext path _ => s!"reading context file {path}"
  | .malformedContext message => message
  | .noObject path found =>
    s!"context file {path} must hold a JSON object, found {found.compact}"

def causes : Failure → List String
  | .error e => causesOf e
  | .badConfig _ e => e.message :: causesOf e
  | .unreadableContext _ message => [message]
  | .malformedContext _ | .noObject _ _ => []

/-- The lines of a cause; the number is left out for a single one. -/
def causeLines (number : Option Nat) (cause : String) : List String :=
  let margin := match number with
    | some n =>
      let digits := toString n
      "".pushn ' ' (5 - digits.length) ++ digits ++ ": "
    | none => "    "
  match cause.splitOn "\n" with
  | [] => []
  | first :: rest => (margin ++ first) :: rest.map ("".pushn ' ' margin.length ++ ·)

def report (f : Failure) : List String :=
  s!"Error: {f.message}" :: match f.causes with
    | [] => []
    | [cause] => ["", "Caused by:"] ++ causeLines none cause
    | causes =>
      ["", "Caused by:"] ++ causes.zipIdx.flatMap fun (cause, n) => causeLines (some n) cause

end Failure

/-! ### Answers -/

inductive Answer where
  | text (lines : List String)
  | run (trace : Trace Unit) (log : LogConfig) (asJson : Bool)

private def loadGraph (files : Files) (path : String) (strict : Bool) : Except Failure Graph :=
  (do Graph.compile (← Description.ofFile path (files path)) strict).mapError .error

/-- The object in a context file. -/
def readContext (path : String) : FileResult → Except Failure Object
  | .missing => .error (.unreadableContext path noSuchFile)
  | .unreachable message | .failed message => .error (.unreadableContext path message)
  | .content text =>
    match Json.read text with
    | .error problem => .error (.malformedContext problem)
    | .ok d =>
      match d.toValue.object? with
      | some context => .ok context
      | none => .error (.noObject path d.toValue.json)

private def createEngine (config : EngineConfig) (maxSteps : Option Nat) (g : Graph) :
    Except Error (Engine Unit) :=
  Engine.build ⟨.builtin, true, .empty⟩ g ⟨config.maxSteps, maxSteps⟩

/-- Carry a request out. Configuration, process and context are read in this order. -/
def Request.answer (files : Files) (env : Environment) (r : Request) : Except Failure Answer := do
  let config ← (Config.ofFileOrDefault env r.config (files r.config)).mapError (.badConfig r.config)
  match r.command with
  | .validate process strict =>
    let g ← loadGraph files process (strict || config.engine.strict)
    return .text (g.findings.map ("warning: " ++ ·.text) ++
      [s!"{process}: valid ({g.nodes.size} steps, start '{g.start}')"])
  | .graph process => return .text (← loadGraph files process config.engine.strict).lines
  | .run process context maxSteps asJson =>
    let g ← loadGraph files process config.engine.strict
    let initial ← match context with
      | some path => readContext path (files path)
      | none => .ok .empty
    let engine ← (createEngine config.engine maxSteps g).mapError .error
    return .run (engine.run offline initial ()) config.log asJson

/-- The files that a request reads. -/
def Request.files (r : Request) : List String :=
  r.config :: match r.command with
    | .validate process _ | .graph process => [process]
    | .run process context _ _ => process :: context.toList

/-- The place and the entries of the log of a run, if one is kept. -/
def Answer.log? (env : Environment) (runId : String) : Answer → Option (RunLog × List LogEntry)
  | .run trace config _ =>
    if config.enabled then
      let log := RunLog.ofConfig config env
      some (log, log.entries runId ((trace.events runId).map .event))
    else none
  | .text _ => none

/-! ### Responses -/

/-- What the program writes, and the code with which it ends. -/
structure Response where
  exitCode : Nat
  output : List String
  complaint : List String

def usage : String :=
  "usage: waypoint [-c FILE] [-v] (validate [--strict] | graph | run [--context FILE] " ++
    "[--max-steps N] [--json]) PROCESS"

def Stop.response : Stop → Response
  | .misuse => ⟨2, [], [usage]⟩
  | .help => ⟨0, [usage], []⟩
  | .version => ⟨0, ["waypoint 0.3.0"], []⟩

/-- A run that does not reach the end of its process has an exit code of its own. -/
def Answer.response (runId : String) (elapsedMs : Nat) : Answer → Response
  | .text lines => ⟨0, lines, []⟩
  | .run trace _ asJson =>
    match trace.result with
    | .error e => ⟨1, [], (Failure.error e).report⟩
    | .ok o =>
      ⟨if o.isCompleted then 0 else 2,
        if asJson then [(o.toJson runId elapsedMs).pretty] else o.lines runId elapsedMs, []⟩

def Failure.response (f : Failure) : Response := ⟨1, [], f.report⟩

end Stepwise.CommandLine
