import Stepwise.Error
import Stepwise.Process.Source
import Stepwise.Toml.Document

/-!
The configuration of the engine and of its run log, read from TOML. Variables of the environment are put into
the text before it is read.
-/

namespace Stepwise

structure EngineConfig where
  /-- The greatest number of steps in a run. -/
  maxSteps : Nat
  /-- Whether findings about a process are errors. -/
  strict : Bool

structure LogConfig where
  enabled : Bool
  dir : String
  /-- One for summaries of runs, two for steps as well, three for transitions as well. -/
  level : Nat

structure Config where
  engine : EngineConfig
  log : LogConfig

/-- The values of environment variables. -/
abbrev Environment := String → Option String

namespace Config

def default : Config := ⟨⟨1000, false⟩, ⟨false, "logs", 1⟩⟩

/-! ### Variables -/

/-- A part of a text with references to variables. -/
inductive Piece where
  | char (c : Char)
  | reference (name : String)
deriving DecidableEq

/-- Split a text from left to right; `name` holds the characters of an open reference in reverse. The end
of the text closes an open reference. -/
def piecesFrom : (name : Option (List Char)) → List Char → List Piece
  | none, [] => []
  | some name, [] => [.reference (String.ofList name.reverse)]
  | some name, '\x7d' :: rest => .reference (String.ofList name.reverse) :: piecesFrom none rest
  | some name, c :: rest => piecesFrom (some (c :: name)) rest
  | none, '$' :: '\x7b' :: rest => piecesFrom (some []) rest
  | none, c :: rest => .char c :: piecesFrom none rest

def pieces (text : String) : List Piece :=
  piecesFrom none text.toList

/-- A reference as it is written. -/
def referenceText (name : String) : String :=
  "$\x7b" ++ name ++ "\x7d"

/-- A value is put in as it is; a reference to an unset variable stays. -/
def Piece.expand (env : Environment) : Piece → String
  | .char c => String.singleton c
  | .reference name => (env name).getD (referenceText name)

/-- Replace every reference to a variable that is set. -/
def expand (env : Environment) (text : String) : String :=
  String.join ((pieces text).map (·.expand env))

def Piece.name? : Piece → Option String
  | .char _ => none
  | .reference name => some name

/-- The variables to which a text refers. -/
def references (text : String) : List String :=
  (pieces text).filterMap Piece.name?

/-! ### Reading -/

/-- An integer of eight bits without a sign. -/
private def byte (d : Document) : Except Misfit Nat := do
  let n ← d.count "u8"
  if n < Nat.pow 2 8 then return n else throw (.wrongValue (.number (.int n)) "u8")

private def engineFields : List (Field EngineConfig) :=
  [.withDefault "max_steps" (Document.count "usize") fun c maxSteps => { c with maxSteps },
    .withDefault "strict" Document.flag fun c strict => { c with strict }]

private def logFields : List (Field LogConfig) :=
  [.withDefault "enabled" Document.flag fun c enabled => { c with enabled },
    .withDefault "dir" Document.text fun c dir => { c with dir },
    .withDefault "level" byte fun c level => { c with level }]

private def fields : List (Field Config) :=
  [.withDefault "engine" (Document.toStructure .lax "struct EngineConfig" engineFields default.engine)
      fun c engine => { c with engine },
    .withDefault "log" (Document.toStructure .lax "struct LogConfig" logFields default.log)
      fun c log => { c with log }]

/-- What is wrong with the values, if anything. -/
def problem? (c : Config) : Option ConfigProblem :=
  if c.engine.maxSteps = 0 then some .zeroBudget
  else if c.log.level < 1 || 3 < c.log.level then some (.levelOutOfRange c.log.level)
  else none

/-- Read a text in which nothing is left to be expanded. -/
def ofExpanded (text : String) : Except Error Config := do
  let read := do
    let d ← Toml.read text
    (d.toStructure .lax "struct AppConfig" fields default).mapError Misfit.message
  let config ← read.mapError fun message => .config (.malformed message)
  match config.problem? with
  | some problem => throw (.config problem)
  | none => return config

def ofText (env : Environment) (text : String) : Except Error Config :=
  ofExpanded (expand env text)

/-- Read a file, which must be there. -/
def ofFile (env : Environment) (path : String) : FileResult → Except Error Config
  | .content text => ofText env text
  | .missing | .unreachable _ | .failed _ => .error (.configNotFound path)

/-- Read a file; where there is nothing the defaults hold. -/
def ofFileOrDefault (env : Environment) (path : String) : FileResult → Except Error Config
  | .missing | .unreachable _ => .ok default
  | file => ofFile env path file

end Config

/-- The directory of the run logs; a tilde at its start stands for the home directory. -/
def LogConfig.directory (c : LogConfig) (env : Environment) : String :=
  if c.dir.startsWith "~/" then
    match env "HOME" with
    | some home => Text.PathName.join home (String.ofList (c.dir.toList.drop 2))
    | none => c.dir
  else c.dir

end Stepwise
