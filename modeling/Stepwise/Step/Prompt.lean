import Stepwise.State.Basic
import Stepwise.Json.Printer

/-!
Prompts. A template is text with placeholders: a path below a namespace of the state between braces. A
placeholder whose path is in the state is replaced by the value there, any other stays as it is; what was put
in is not looked at again.
-/

namespace Stepwise.Prompt

inductive Piece where
  | text (c : Char)
  | placeholder (root : Root) (keys : List String)
deriving DecidableEq

def isKeyStart (c : Char) : Bool :=
  ('a' ≤ c && c ≤ 'z') || ('A' ≤ c && c ≤ 'Z') || c == '_'

def isKeyPart (c : Char) : Bool :=
  isKeyStart c || ('0' ≤ c && c ≤ '9')

/-- The keys up to the closing brace; `read` holds the characters of the current key in reverse, and is
missing before the first key. -/
def keys? (read : Option (List Char)) : List Char → Option (List String × List Char)
  | [] => none
  | '\x7d' :: rest =>
    match read with
    | none => some ([], rest)
    | some [] => none
    | some key => some ([String.ofList key.reverse], rest)
  | '.' :: rest =>
    match read with
    | none => keys? (some []) rest
    | some [] => none
    | some key =>
      (keys? (some []) rest).map fun (keys, rest) => (String.ofList key.reverse :: keys, rest)
  | c :: rest =>
    match read with
    | some [] => if isKeyStart c then keys? (some [c]) rest else none
    | some key => if isKeyPart c then keys? (some (c :: key)) rest else none
    | none => none

def afterName? (root : Root) (text : List Char) : Option (Piece × List Char) :=
  let name := root.name.toList
  if text.take name.length = name then
    (keys? none (text.drop name.length)).map fun (keys, rest) => (.placeholder root keys, rest)
  else none

/-- A placeholder and what follows it; its opening brace has been passed. -/
def placeholder? (text : List Char) : Option (Piece × List Char) :=
  [Root.context, .artifacts, .quality].findSome? (afterName? · text)

/-- The pieces of a template, with at most `fuel` of them. -/
def piecesIn : (fuel : Nat) → List Char → List Piece
  | _, [] => []
  | 0, _ => []
  | fuel + 1, c :: rest =>
    match if c = '\x7b' then placeholder? rest else none with
    | some (piece, rest) => piece :: piecesIn fuel rest
    | none => .text c :: piecesIn fuel rest

def pieces (template : String) : List Piece :=
  piecesIn template.length template.toList

/-- A value inside a prompt: texts stand as they are, anything else as JSON. -/
def valueText : Json → String
  | .string s => s
  | value => value.compact

/-- A placeholder as it is written. -/
def placeholderText (root : Root) (keys : List String) : String :=
  "\x7b" ++ ".".intercalate (root.name :: keys) ++ "\x7d"

def Piece.render (s : State) : Piece → String
  | .text c => String.singleton c
  | .placeholder root keys =>
    match s.lookup? root keys with
    | some value => valueText value
    | none => placeholderText root keys

def render (template : String) (s : State) : String :=
  String.join ((pieces template).map (·.render s))

end Stepwise.Prompt
