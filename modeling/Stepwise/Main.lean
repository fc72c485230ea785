import Std.Time.Format
import Stepwise.CommandLine.Answer

/-!
The command line: reads files and variables, has the request answered, and writes what comes of it.
-/

namespace Stepwise.CommandLine

/-- What a failure of the system says; its number may come with a sign. -/
private def failure (code : UInt32) (details : String) : FileResult :=
  let number := if code < 0x80000000 then code else 0 - code
  let message (text : String) := s!"{text} (os error {number})"
  match number.toNat with
  | 13 => .failed (message "Permission denied")
  | 20 => .unreachable (message "Not a directory")
  | 21 => .failed (message "Is a directory")
  | 36 => .unreachable (message "File name too long")
  | _ => .failed (message details)

private def readFile (path : String) : IO FileResult := do
  try
    return .content (← IO.FS.readFile path)
  catch
    | .noFileOrDirectory _ _ _ => return .missing
    | .inappropriateType _ code details | .permissionDenied _ code details
    | .invalidArgument _ code details => return failure code details
    | .userError _ => return .failed "stream did not contain valid UTF-8"
    | e => return .failed (toString e)

/-- The values of those variables on which a request depends. -/
private def readEnvironment (config : FileResult) : IO Environment := do
  let names := match config with
    | .content text => "HOME" :: Config.references text
    | _ => ["HOME"]
  let values ← names.filterMapM fun name => do
    return (← IO.getEnv name).map fun value => (name, value)
  return fun name => values.lookup name

private def hexDigits (b : UInt8) : List Char :=
  [Nat.digitChar (b.toNat / 16), Nat.digitChar (b.toNat % 16)]

/-- A random identifier of version four. -/
private def newRunId : IO String := do
  let bytes ← IO.getRandomBytes 16
  let marked := bytes.toList.zipIdx.map fun (b, i) =>
    if i = 6 then b &&& 0x0f ||| 0x40 else if i = 8 then b &&& 0x3f ||| 0x80 else b
  let digits := marked.flatMap hexDigits
  let group (start size : Nat) := String.ofList ((digits.drop start).take size)
  return "-".intercalate [group 0 8, group 8 4, group 12 4, group 16 4, group 20 12]

open Std.Time in
private def now (format : String) : IO String := do
  return (DateTime.ofTimestamp (← Timestamp.now) TimeZone.ZoneRules.UTC).format format

private def writeLog (runId : String) (log : RunLog) (entries : List LogEntry) : IO String := do
  let path := log.path runId (← now "uuuuMMdd_HHmmss")
  IO.FS.createDirAll (log.folder runId)
  let timestamp ← now "uuuu-MM-dd'T'HH:mm:ss.SSSSSSSSSxxx"
  IO.FS.writeFile path (String.join (entries.map fun e => e.line timestamp ++ "\n"))
  return path

private def writeResponse (r : Response) : IO UInt32 := do
  for line in r.output do IO.println line
  for line in r.complaint do IO.eprintln line
  return r.exitCode.toUInt32

private def carryOut (request : Request) : IO Response := do
  let contents ← request.files.mapM fun path => do return (path, ← readFile path)
  let files : Files := fun path => (contents.lookup path).getD .missing
  let env ← readEnvironment (files request.config)
  let start ← IO.monoMsNow
  match request.answer files env with
  | .error failure => return failure.response
  | .ok answer =>
    let elapsed := (← IO.monoMsNow) - start
    let runId ← newRunId
    if let some (log, entries) := answer.log? env runId then
      try
        let path ← writeLog runId log entries
        if request.verbose then IO.eprintln s!"run log: {path}"
      catch e => IO.eprintln s!"cannot write the run log: {e}"
    return answer.response runId elapsed

end Stepwise.CommandLine

open Stepwise.CommandLine in
def main (args : List String) : IO UInt32 := do
  match Request.ofArguments args with
  | .error stop => writeResponse stop.response
  | .ok request => writeResponse (← carryOut request)
