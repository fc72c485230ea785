/-!
What the program can be asked to do, and how arguments ask for it. Switches may stand before and after
operands; a double hyphen ends them.
-/

namespace Stepwise.CommandLine

inductive Command where
  /-- Check a process; with `strict`, what is found about it is an error. -/
  | validate (process : String) (strict : Bool)
  /-- Show the routes of a process. -/
  | graph (process : String)
  | run (process : String) (context : Option String) (maxSteps : Option Nat) (asJson : Bool)
deriving DecidableEq

structure Request where
  config : String
  /-- Whether to say where a run log is written. -/
  verbose : Bool
  command : Command
deriving DecidableEq

/-- Why arguments are no request. -/
inductive Stop where
  | misuse
  | help
  | version
deriving DecidableEq

/-! ### Switches -/

inductive SwitchKind where
  | flag
  /-- Takes a value, which must be accepted. -/
  | value (accepts : String → Bool)
  | stop (reason : Stop)

structure Switch where
  name : String
  letter : Option Char
  kind : SwitchKind

/-- The arguments that a command or the program itself takes. -/
structure Level where
  switches : List Switch
  /-- The greatest number of operands. -/
  operands : Nat
  commands : List String

/-- What arguments have given so far. -/
structure Given where
  /-- The values of switches; a flag has an empty one. -/
  values : List (String × String)
  operands : List String

namespace Given

def empty : Given := ⟨[], []⟩

def value? (g : Given) (name : String) : Option String :=
  g.values.lookup name

def has (g : Given) (name : String) : Bool :=
  (g.value? name).isSome

/-- A switch is given at most once. -/
def withValue (g : Given) (name value : String) : Except Stop Given :=
  if g.has name then .error .misuse else .ok { g with values := (name, value) :: g.values }

/-- An operand is never empty. -/
def withOperand (level : Level) (g : Given) (text : String) : Except Stop Given :=
  if g.operands.length < level.operands && text != "" then
    .ok { g with operands := g.operands ++ [text] }
  else .error .misuse

end Given

/-- Take a switch with the value that is attached to it; one that still wants its value comes back. -/
def Switch.take (s : Switch) (attached : Option String) (g : Given) :
    Except Stop (Given × Option Switch) :=
  match s.kind, attached with
  | .flag, none => (g.withValue s.name "").map fun g => (g, none)
  | .stop reason, none => .error reason
  | .flag, some _ | .stop _, some _ => .error .misuse
  | .value _, none => .ok (g, some s)
  | .value accepts, some value =>
    if accepts value then (g.withValue s.name value).map fun g => (g, none) else .error .misuse

/-- A switch by its name, with a value after an equals sign. -/
private def takeNamed (level : Level) (text : List Char) (g : Given) :
    Except Stop (Given × Option Switch) :=
  let name := String.ofList (text.takeWhile (· != '='))
  let attached := match text.dropWhile (· != '=') with
    | [] => none
    | _ :: value => some (String.ofList value)
  match level.switches.find? fun s => s.name == name with
  | some s => s.take attached g
  | none => .error .misuse

/-- Switches by their letters. What follows the letter of a switch with a value is the value. -/
private def takeLetters (level : Level) (g : Given) : List Char → Except Stop (Given × Option Switch)
  | [] => .ok (g, none)
  | c :: rest =>
    match level.switches.find? fun s => s.letter == some c with
    | none => .error .misuse
    | some s =>
      match s.kind, rest with
      | .value _, '=' :: value | .value _, value@(_ :: _) => s.take (some (String.ofList value)) g
      | _, _ => do
        let (g, waiting) ← s.take none g
        if waiting.isSome then return (g, waiting) else takeLetters level g rest

namespace Level

/-- Read arguments up to the name of a command, which comes back with what follows it. -/
def read (level : Level) (waiting : Option Switch) (g : Given) :
    List String → Except Stop (Given × List String)
  | [] => if waiting.isSome then .error .misuse else .ok (g, [])
  | argument :: rest =>
    match argument.toList, waiting with
    | ['-', '-'], none => do return (← rest.foldlM (Given.withOperand level) g, [])
    | '-' :: '-' :: text, none => do
      let (g, waiting) ← takeNamed level text g
      read level waiting g rest
    | '-' :: text@(_ :: _), none => do
      let (g, waiting) ← takeLetters level g text
      read level waiting g rest
    | '-' :: _ :: _, some _ => .error .misuse
    | _, some s => do
      let (g, _) ← s.take (some argument) g
      read level none g rest
    | _, none =>
      if level.commands.contains argument then .ok (g, argument :: rest)
      else do read level none (← g.withOperand level argument) rest

end Level

/-! ### The switches of the program -/

/-- A count in decimal digits that fits into 64 bits; it may have a plus sign. -/
def count? (text : String) : Option Nat :=
  let digits := match text.toList with
    | '+' :: rest => rest
    | chars => chars
  if !digits.isEmpty && digits.all Char.isDigit then
    let n := digits.foldl (fun n c => n * 10 + (c.toNat - '0'.toNat)) 0
    if n < Nat.pow 2 64 then some n else none
  else none

private def isPath (text : String) : Bool := text != ""

private def everywhere : List Switch :=
  [⟨"config", some 'c', .value isPath⟩, ⟨"verbose", some 'v', .flag⟩,
    ⟨"help", some 'h', .stop .help⟩]

private def commandNames : List String := ["validate", "graph", "run"]

/-- What stands before the command. -/
def outerLevel : Level :=
  ⟨everywhere ++ [⟨"version", some 'V', .stop .version⟩], 0, "help" :: commandNames⟩

def commandLevel (command : String) : Level :=
  let own : List Switch := match command with
    | "validate" => [⟨"strict", none, .flag⟩]
    | "run" =>
      [⟨"context", none, .value isPath⟩, ⟨"max-steps", none, .value fun s => (count? s).isSome⟩,
        ⟨"json", none, .flag⟩]
    | _ => []
  ⟨everywhere ++ own, 1, []⟩

private def commandOf (name process : String) (g : Given) : Command :=
  match name with
  | "validate" => .validate process (g.has "strict")
  | "graph" => .graph process
  | _ => .run process (g.value? "context") ((g.value? "max-steps").bind count?) (g.has "json")

/-- The configuration that is read when none is named. -/
def defaultConfig : String := "waypoint.toml"

/-- Read all arguments. Switches that may stand on both sides of the command count where they stand
last. -/
def Request.ofArguments (arguments : List String) : Except Stop Request := do
  match ← outerLevel.read none .empty arguments with
  | (_, []) => throw .misuse
  | (_, "help" :: topics) =>
    match topics with
    | [] => throw .help
    | [topic] => throw (if outerLevel.commands.contains topic then .help else .misuse)
    | _ => throw .misuse
  | (outer, name :: rest) =>
    let (given, _) ← (commandLevel name).read none .empty rest
    match given.operands with
    | [process] =>
      let config := (given.value? "config" <|> outer.value? "config").getD defaultConfig
      return ⟨config, given.has "verbose" || outer.has "verbose", commandOf name process given⟩
    | _ => throw .misuse

end Stepwise.CommandLine
