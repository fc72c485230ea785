import Stepwise.Error
import Stepwise.Json.Reader
import Stepwise.Yaml.Document
import Stepwise.Toml.Document

/-!
Reading descriptions from text in one of three formats, from values and from files. The format of a file is
chosen by the extension of its name.
-/

namespace Stepwise

inductive Format where
  | yaml
  | toml
  | json
deriving DecidableEq

namespace Format

def name : Format → String
  | .yaml => "yaml"
  | .toml => "toml"
  | .json => "json"

/-- The format for an extension, in capitals or not. -/
def ofExtension? (extension : String) : Option Format :=
  match extension.map Char.toLower with
  | "yaml" | "yml" => some .yaml
  | "toml" => some .toml
  | "json" => some .json
  | _ => none

def ofPath? (path : String) : Option Format :=
  (Text.PathName.extension? path).bind ofExtension?

/-- Read a text of which only some parts are looked at. -/
def readDocument (reach : Reach) : Format → String → Except String Document
  | .yaml => Yaml.read reach
  | .toml => Toml.read
  | .json => Json.readIndulgently

/-- A structure in YAML is always a mapping; elsewhere it may be the list of its fields. -/
def listForm : Format → ListForm
  | .yaml => .never
  | .toml => .lax
  | .json => .exact

end Format

/-- What reading a file gave. -/
inductive FileResult where
  | content (text : String)
  | missing
  /-- The path leads through something that is no folder, or cannot be a path. -/
  | unreachable (message : String)
  /-- There is something that cannot be read. -/
  | failed (message : String)
deriving DecidableEq

namespace Description

private def readAs (path : String) (format : Format) (text : String) : Except Error Description :=
  let described := do
    let d ← format.readDocument reach text
    (ofDocument format.listForm d).mapError Misfit.message
  described.mapError fun message => .unreadable path (.malformed message)

/-- Read a text in a format. -/
def ofText (format : Format) (text : String) : Except Error Description :=
  readAs "<inline>" format text

/-- Read a JSON value. -/
def ofJson (value : Json) : Except Error Description :=
  (ofDocument .exact value.toDocument).mapError fun misfit =>
    .unreadable "<value>" (.malformed misfit.message)

/-- Read a file, whose name must tell the format. -/
def ofFile (path : String) (file : FileResult) : Except Error Description :=
  match Format.ofPath? path with
  | none => .error (.unreadable path .unsupportedExtension)
  | some format =>
    match file with
    | .content text => readAs path format text
    | .missing => .error (.processNotFound path)
    | .unreachable message | .failed message => .error (.io message)

end Description

end Stepwise
