import Stepwise.Json.Token

/-!
Reading JSON text into a document. Lexemes are taken one at a time onto a stack of open arrays and
objects; the first lexeme that cannot follow is the fault. A text of which only parts will be looked at is
read with indulgence: what has the right form but no value is a fault only where a value is wanted.
-/

namespace Stepwise.Json

/-- The entries of an object in reverse; none once a key has no value. -/
private abbrev Entries := Option (List (String × Document))

/-- An array or object that has not been closed, with what it holds so far in reverse. -/
private inductive Frame where
  | array (items : List Document)
  | object (entries : Entries) (key : Option String)

/-- What may come next. -/
private inductive Expect where
  | value
  | firstItem
  | itemAfterComma
  | firstKey
  | keyAfterComma (entries : Entries)
  | colon (entries : Entries) (key : Option String)
  | itemEnd (items : List Document)
  | fieldEnd (entries : Entries)
  | done (document : Document)

private structure Progress where
  stack : List Frame
  expect : Expect

/-- The greatest number of arrays and objects that may be open at once. -/
def maxOpen : Nat := 127

private def Progress.start : Progress := ⟨[], .value⟩

/-- Put a finished value where it belongs. -/
private def Progress.finish (stack : List Frame) (value : Document) : Progress :=
  match stack with
  | [] => ⟨[], .done value⟩
  | .array items :: outer => ⟨outer, .itemEnd (value :: items)⟩
  | .object entries key :: outer =>
    ⟨outer, .fieldEnd (entries.bind fun entries => key.map fun key => (key, value) :: entries)⟩

/-- Close an array or object; one that was opened too deep has no value. -/
private def Progress.close (stack : List Frame) (value : Document) : Progress :=
  finish stack (if maxOpen ≤ stack.length then .unfit else value)

private def Progress.closeObject (stack : List Frame) (entries : Entries) : Progress :=
  close stack <| match entries with
    | some entries => .object entries.reverse
    | none => .unfit

/-- Take a lexeme where a value may stand. -/
private def Progress.takeValue (indulgent : Bool) (stack : List Frame) (l : Lexeme) :
    Except Fault Progress :=
  let opened (expect : Expect) : Except Fault Progress :=
    if !indulgent && maxOpen ≤ stack.length then .error ⟨.tooDeep, l.start, 1⟩
    else .ok ⟨stack, expect⟩
  match l.token with
  | .scalar value => .ok (finish stack (.scalar value))
  | .flawed _ fault => if indulgent then .ok (finish stack .unfit) else .error fault
  | .openArray => opened .firstItem
  | .openObject => opened .firstKey
  | .defect fault => .error fault
  | _ => .error ⟨.noValue, l.start, 1⟩

private def Progress.takeKey (indulgent : Bool) (stack : List Frame) (entries : Entries) (l : Lexeme) :
    Except Fault Progress :=
  match l.token with
  | .scalar (.string key) => .ok ⟨stack, .colon entries (some key)⟩
  | .flawed true fault => if indulgent then .ok ⟨stack, .colon entries none⟩ else .error fault
  | .defect fault =>
    if l.start.head? = some '"' then .error fault else .error ⟨.noKey, l.start, 1⟩
  | _ => .error ⟨.noKey, l.start, 1⟩

private def Progress.take (indulgent : Bool) (p : Progress) (l : Lexeme) : Except Fault Progress :=
  match p.expect, l.token with
  | .value, _ => takeValue indulgent p.stack l
  | .firstItem, .closeArray => .ok (close p.stack (.array []))
  | .firstItem, _ => takeValue indulgent (.array [] :: p.stack) l
  | .itemAfterComma, .closeArray => .error ⟨.trailingComma, l.start, 1⟩
  | .itemAfterComma, _ => takeValue indulgent p.stack l
  | .firstKey, .closeObject => .ok (closeObject p.stack (some []))
  | .firstKey, _ => takeKey indulgent p.stack (some []) l
  | .keyAfterComma _, .closeObject => .error ⟨.trailingComma, l.start, 1⟩
  | .keyAfterComma entries, _ => takeKey indulgent p.stack entries l
  | .colon entries key, .colon => .ok ⟨.object entries key :: p.stack, .value⟩
  | .colon _ _, _ => .error ⟨.noColon, l.start, 1⟩
  | .itemEnd items, .closeArray => .ok (close p.stack (.array items.reverse))
  | .itemEnd items, .comma => .ok ⟨.array items :: p.stack, .itemAfterComma⟩
  | .itemEnd _, _ => .error ⟨.noItemEnd, l.start, 1⟩
  | .fieldEnd entries, .closeObject => .ok (closeObject p.stack entries)
  | .fieldEnd entries, .comma => .ok ⟨p.stack, .keyAfterComma entries⟩
  | .fieldEnd _, _ => .error ⟨.noFieldEnd, l.start, 1⟩
  | .done _, _ => .error ⟨.trailingText, l.start, 1⟩

/-- The document, if nothing is missing at the end of the text. -/
private def Progress.end (p : Progress) : Except Fault Document :=
  match p.expect with
  | .done document => .ok document
  | .value | .itemAfterComma | .keyAfterComma _ => .error ⟨.endInValue, [], 0⟩
  | .firstItem | .itemEnd _ => .error ⟨.endInArray, [], 0⟩
  | .firstKey | .colon _ _ | .fieldEnd _ => .error ⟨.endInObject, [], 0⟩

/-- The line of a byte offset, counted from one, and the number of bytes before it on that line. -/
def linePosition (text : List Char) (offset : Nat) : Nat × Nat :=
  match text with
  | [] => (1, offset)
  | c :: rest =>
    if offset < c.utf8Size then (1, offset)
    else
      let (line, column) := linePosition rest (offset - c.utf8Size)
      if c = '\n' then (line + 1, column)
      else if line = 1 then (1, column + c.utf8Size)
      else (line, column)

/-- Where a fault of a text lies. -/
def Fault.describe (text : List Char) (fault : Fault) : String :=
  let offset := Text.byteLength text - Text.byteLength fault.unread + fault.beyond
  let (line, column) := linePosition text offset
  fault.cause.message ++ " at line " ++ toString line ++ " column " ++ toString column

private def readWith (indulgent : Bool) (text : String) : Except String Document :=
  let chars := text.toList
  match (lexemes chars).foldlM (Progress.take indulgent) Progress.start with
  | .ok p => p.end.mapError (Fault.describe chars)
  | .error fault => .error (fault.describe chars)

/-- Read one document, or say what is wrong and where. -/
def read (text : String) : Except String Document :=
  readWith false text

/-- Read one document of which only parts will be looked at. Strings with half a surrogate pair, numbers
that are too large and what is nested too deep may stand elsewhere. -/
def readIndulgently (text : String) : Except String Document :=
  readWith true text

end Stepwise.Json
