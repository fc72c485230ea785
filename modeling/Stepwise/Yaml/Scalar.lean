import Stepwise.Yaml.Cursor

/-!
The text of scalars. Single line breaks inside plain, quoted and folded scalars read as a blank, and of
several breaks in a row the first is dropped.
-/

namespace Stepwise.Yaml

/-- How a scalar stands in the text. -/
inductive Style where
  | plain
  /-- In quotes, single or double. -/
  | quoted
  /-- A block whose lines stay as they are. -/
  | literal
  /-- A block whose lines are joined. -/
  | folded
deriving DecidableEq

/-- The end of a scalar that was read: its text and the place after it. -/
abbrev Read := Except String (String × Cursor)

/-- Blanks and line breaks between two words of a scalar. All texts are in reverse. -/
private structure Gap where
  blanks : List Char
  /-- The first break and the ones after it, once a line has ended. -/
  breaks : Option (List Char × List Char)

private def Gap.none : Gap := ⟨[], .none⟩

/-- What a gap reads as, in reverse. -/
private def Gap.fold (g : Gap) : List Char :=
  match g.breaks with
  | .none => g.blanks
  | some (['\n'], []) => [' ']
  | some (['\n'], more) => more
  | some (first, more) => more ++ first

/-- Pass blanks and breaks. In block context a tab may not stand left of `indent` on a new line. -/
private def readGap (indent : Option Int) : Nat → Gap → Cursor → Except String (Gap × Cursor)
  | 0, g, c => .ok (g, c)
  | fuel + 1, g, c =>
    if c.blankAt 0 then
      match g.breaks with
      | .none => readGap indent fuel { g with blanks := c.rest.take 1 ++ g.blanks } (c.skip 1)
      | some _ =>
        if indent.any (fun n => Int.ofNat c.column < n) && c.sees '\t' 0 then
          .error "found a tab character that violates indentation"
        else readGap indent fuel g (c.skip 1)
    else if c.breakAt 0 then
      let (text, next) := c.readBreak
      match g.breaks with
      | .none => readGap indent fuel ⟨[], some (text, [])⟩ next
      | some (first, more) => readGap indent fuel ⟨[], some (first, text ++ more)⟩ next
    else .ok (g, c)

/-- Whether a character that is no blank may belong to a plain scalar here. -/
private def plainContinues (inFlow : Bool) (c : Cursor) : Bool :=
  !c.gapAt 0 && !(c.sees ':' 0 && c.gapAt 1) &&
    !(inFlow && c.rest.head?.any fun x =>
      x == ',' || x == '[' || x == ']' || x == '\x7b' || x == '\x7d')

/-- A colon inside a flow collection may not touch another indicator. -/
private def strayColon (inFlow : Bool) (c : Cursor) : Bool :=
  inFlow && c.sees ':' 0 && (c.peek? 1).any fun x =>
    x == ',' || x == '?' || x == '[' || x == ']' || x == '\x7b' || x == '\x7d'

/-- The characters of one word of a plain scalar, in reverse. -/
private def readPlainWord (inFlow : Bool) : Nat → List Char → Cursor →
    Except String (List Char × Cursor)
  | 0, read, c => .ok (read, c)
  | fuel + 1, read, c =>
    if c.gapAt 0 then .ok (read, c)
    else if strayColon inFlow c then .error "found unexpected ':'"
    else if plainContinues inFlow c then
      readPlainWord inFlow fuel (c.rest.take 1 ++ read) (c.skip 1)
    else .ok (read, c)

/-- What was read of a plain scalar, the place after its last character, the place reached, and whether
a line has ended since. -/
structure Plain where
  text : List Char
  finish : Cursor
  reached : Cursor
  newLine : Bool

private def readPlainFrom (inFlow : Bool) (indent : Int) : Nat → Plain → Gap →
    Except String Plain
  | 0, p, _ => .ok p
  | fuel + 1, p, gap => do
    let c := p.reached
    if c.atDocumentMark || c.sees '#' 0 then return p
    let (word, next) ← readPlainWord inFlow fuel [] c
    let p := if word.isEmpty then p else ⟨word ++ gap.fold ++ p.text, next, next, false⟩
    let gap := if word.isEmpty then gap else .none
    if !(next.blankAt 0 || next.breakAt 0) then return p
    let (gap, after) ← readGap (some indent) fuel gap next
    let p := { p with reached := after, newLine := gap.breaks.isSome }
    if !inFlow && Int.ofNat after.column < indent then return p
    readPlainFrom inFlow indent fuel p gap

/-- A plain scalar; lines after the first must reach the column `indent`. Like every reader of scalars this
one takes fewer characters than `bound`. -/
def readPlain (bound : Nat) (inFlow : Bool) (indent : Int) (c : Cursor) : Except String Plain :=
  readPlainFrom inFlow indent bound ⟨[], c, c, false⟩ .none

private def hexValue? (digits : List Char) : Option Nat :=
  digits.foldl (fun n? d => n?.bind fun n => (hexDigit? d).map (n * 16 + ·)) (some 0)

private def simpleEscape? : Char → Option Char
  | '0' => some '\x00'
  | 'a' => some '\x07'
  | 'b' => some '\x08'
  | 't' | '\t' => some '\t'
  | 'n' => some '\n'
  | 'v' => some '\x0b'
  | 'f' => some '\x0c'
  | 'r' => some '\r'
  | 'e' => some '\x1b'
  | ' ' => some ' '
  | '"' => some '"'
  | '/' => some '/'
  | '\\' => some '\\'
  | 'N' => some '\x85'
  | '_' => some '\xa0'
  | 'L' => some '\u2028'
  | 'P' => some '\u2029'
  | _ => none

private def escapeLength? : Char → Option Nat
  | 'x' => some 2
  | 'u' => some 4
  | 'U' => some 8
  | _ => none

/-- The character that an escape stands for; the backslash has been passed. -/
private def readEscape (c : Cursor) : Except String (Char × Cursor) :=
  match c.rest with
  | [] => .error "found unexpected end of stream"
  | x :: rest =>
    match simpleEscape? x, escapeLength? x with
    | some decoded, _ => .ok (decoded, c.skip 1)
    | none, none => .error "found unknown escape character"
    | none, some length =>
      let digits := rest.take length
      if digits.length < length then .error "did not find expected hexdecimal number"
      else match hexValue? digits with
        | none => .error "did not find expected hexdecimal number"
        | some n =>
          if n.isValidChar then .ok (Char.ofNat n, c.skip (length + 1))
          else .error "found invalid Unicode character escape code"

/-- The characters of a quoted scalar, in reverse. -/
private def readQuotedFrom (single : Bool) : Nat → List Char → Cursor →
    Except String (List Char × Cursor)
  | 0, _, _ => .error "found unexpected end of stream"
  | fuel + 1, read, c => do
    if c.atDocumentMark then throw "found unexpected document indicator"
    match c.rest with
    | [] => throw "found unexpected end of stream"
    | x :: rest =>
      if isBlank x || isBreak x then
        let (gap, next) ← readGap none (fuel + 1) .none c
        readQuotedFrom single fuel (gap.fold ++ read) next
      else if single && x == '\'' && rest.head? == some '\'' then
        readQuotedFrom single fuel ('\'' :: read) (c.skip 2)
      else if x == (if single then '\'' else '"') then
        return (read, c.skip 1)
      else if !single && x == '\\' then
        if rest.head?.any isBreak then
          let (_, next) := (c.skip 1).readBreak
          let (gap, after) ← readGap none (fuel + 1) ⟨[], some ([], [])⟩ next
          readQuotedFrom single fuel (gap.fold ++ read) after
        else
          let (decoded, next) ← readEscape (c.skip 1)
          readQuotedFrom single fuel (decoded :: read) next
      else
        readQuotedFrom single fuel (x :: read) (c.skip 1)

/-- A scalar in quotes; the opening quote has been passed. -/
def readQuoted (bound : Nat) (single : Bool) (c : Cursor) : Read := do
  let (read, next) ← readQuotedFrom single bound [] c
  return (String.ofList read.reverse, next)

/-- Pass the indentation and empty lines of a block scalar. `indent` is zero while it is unknown;
`widest` is the widest indentation seen. -/
private def readBlockBreaks (indent : Nat) : Nat → Nat → List Char → Cursor →
    Except String (Nat × List Char × Cursor)
  | 0, widest, breaks, c => .ok (widest, breaks, c)
  | fuel + 1, widest, breaks, c =>
    let spaces := (c.rest.takeWhile (· == ' ')).length
    let c := c.skip (if indent == 0 then spaces else min spaces (indent - c.column))
    let widest := max widest c.column
    if (indent == 0 || c.column < indent) && c.sees '\t' 0 then
      .error "found a tab character where an indentation space is expected"
    else if c.breakAt 0 then
      let (text, next) := c.readBreak
      readBlockBreaks indent fuel widest (text ++ breaks) next
    else .ok (widest, breaks, c)

/-- Lines of a block scalar. Texts are in reverse; `lastBreak` ends the last line read and `breaks` follow
it. -/
private def readBlockLines (literal : Bool) (indent : Nat) : Nat → List Char → List Char →
    List Char → Bool → Cursor → Except String (List Char × List Char × List Char × Cursor)
  | 0, read, lastBreak, breaks, _, c => .ok (read, lastBreak, breaks, c)
  | fuel + 1, read, lastBreak, breaks, afterBlank, c => do
    if c.column != indent || c.atEnd then return (read, lastBreak, breaks, c)
    let startsBlank := c.blankAt 0
    let joined :=
      if !literal && lastBreak == ['\n'] && !afterBlank && !startsBlank then
        if breaks.isEmpty then [' '] else []
      else lastBreak
    let line := c.rest.takeWhile fun x => !isBreak x
    let (text, next) := (c.skip line.length).readBreak
    let (_, more, after) ← readBlockBreaks indent (fuel + 1) 0 [] next
    readBlockLines literal indent fuel (line.reverse ++ breaks ++ joined ++ read) text more
      startsBlank after

/-- The header of a block scalar: what to do with the breaks at its end, and its indentation if given. -/
private def readBlockHeader (c : Cursor) : Except String (Option Bool × Nat × Cursor) :=
  let digit? (c : Cursor) : Option Nat :=
    c.rest.head?.bind fun x => if '0' ≤ x && x ≤ '9' then some (x.toNat - '0'.toNat) else none
  let chomping? (c : Cursor) : Option Bool :=
    if c.sees '+' 0 then some true else if c.sees '-' 0 then some false else none
  match chomping? c, digit? c with
  | some keep, _ =>
    match digit? (c.skip 1) with
    | some 0 => .error "found an indentation indicator equal to 0"
    | some n => .ok (some keep, n, c.skip 2)
    | none => .ok (some keep, 0, c.skip 1)
  | none, some 0 => .error "found an indentation indicator equal to 0"
  | none, some n =>
    match chomping? (c.skip 1) with
    | some keep => .ok (some keep, n, c.skip 2)
    | none => .ok (none, n, c.skip 1)
  | none, none => .ok (none, 0, c)

/-- A block scalar inside a collection of the given indentation; its indicator has been passed. -/
def readBlock (bound : Nat) (literal : Bool) (parent : Int) (c : Cursor) : Read := do
  let (chomping, increment, c) ← readBlockHeader c
  let c := c.skipWhile isBlank
  let c := if c.sees '#' 0 then c.skipWhile (!isBreak ·) else c
  if !c.atLineEnd then throw "did not find expected comment or line break"
  let (_, c) := c.readBreak
  let given : Nat :=
    if increment == 0 then 0 else if 0 ≤ parent then parent.toNat + increment else increment
  let (widest, breaks, c) ← readBlockBreaks given bound 0 [] c
  let indent := if given != 0 then given else max widest (max (parent + 1).toNat 1)
  let (read, lastBreak, breaks, c) ← readBlockLines literal indent bound [] [] breaks false c
  let kept := match chomping with
    | some false => read
    | none => lastBreak ++ read
    | some true => breaks ++ lastBreak ++ read
  return (String.ofList kept.reverse, c)

end Stepwise.Yaml
