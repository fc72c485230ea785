import Stepwise.Guard.Expr

/-!
Parsing conditions. The parser takes one token at a time. Its state holds what was read inside each
pair of parentheses that is still open, so a token is refused as soon as nothing can follow it.

  or := and (`or` and)*            not := `not` not | comparison
  and := not (`and` not)*          comparison := operand (op operand)* | operand `is` [`not`] `None`
  operand := path | literal | `(` or `)`
-/

namespace Stepwise.Guard

/-- What was read of the expression inside one pair of parentheses. Lists are in reverse. -/
structure Level where
  /-- Finished terms of the disjunction. -/
  ors : List Expr
  /-- Finished terms of the conjunction that is being read. -/
  ands : List Expr
  /-- Negations before the comparison that is being read. -/
  nots : Nat
  /-- Operands of that comparison, each with the operator after it. -/
  compared : List (Operand × Comparison)

def Level.start : Level := ⟨[], [], 0, []⟩

/-- How many `not`s and parentheses are open in levels that stand around another. -/
def Level.openIn : List Level → Nat
  | [] => 0
  | l :: outer => openIn outer + l.nots + 1

/-- What the last token leaves open in the innermost parentheses. -/
inductive Phase where
  /-- A term must follow. -/
  | term
  /-- An operand must follow. -/
  | operand
  /-- A path that more keys, in reverse, may extend. -/
  | path (root : Root) (keys : List String)
  /-- A key must follow. -/
  | key (root : Root) (keys : List String)
  /-- A whole operand that is no path. -/
  | value (operand : Operand)
  /-- `None` must follow, or `not` if that was not read yet. -/
  | is (operand : Operand) (negated : Bool)
  /-- A test for `None`. -/
  | test (operand : Operand) (negated : Bool)

structure Progress where
  /-- The levels around the innermost open parentheses, inner ones first. -/
  outer : List Level
  here : Level
  phase : Phase

namespace Progress

def start : Progress := ⟨[], .start, .term⟩

/-- How many `not`s and parentheses are open. -/
def depth (p : Progress) : Nat :=
  Level.openIn p.outer + p.here.nots

end Progress

/-- The operands and operators of a comparison with its last operand. -/
def comparisonOf (last : Operand) : List (Operand × Comparison) → List (Comparison × Operand) → Expr
  | [], [] => .operand last
  | [], rest => .compare last rest
  | (before, op) :: compared, rest => comparisonOf before compared ((op, last) :: rest)

/-- A term under a number of negations. -/
def negate (term : Expr) : Nat → Expr
  | 0 => term
  | n + 1 => .not (negate term n)

/-- A conjunction, or its only term. -/
def conjunction : List Expr → Expr
  | [term] => term
  | terms => .and terms

/-- A disjunction, or its only term. -/
def disjunction : List Expr → Expr
  | [term] => term
  | terms => .or terms

namespace Level

/-- The terms of the conjunction when its last term is given. -/
def closeTerm (l : Level) (term : Expr) : List Expr :=
  negate term l.nots :: l.ands

/-- The expression of the level when its last term is given. -/
def close (l : Level) (term : Expr) : Expr :=
  disjunction (conjunction (l.closeTerm term).reverse :: l.ors).reverse

end Level

namespace Progress

/-- The term that is complete with the last token, if there is one. -/
def term? (p : Progress) : Option Expr :=
  match p.phase with
  | .path root keys => some (comparisonOf (.path ⟨root, keys.reverse⟩) p.here.compared [])
  | .value operand => some (comparisonOf operand p.here.compared [])
  | .test operand negated => some (.isNone operand negated)
  | .term | .operand | .key _ _ | .is _ _ => none

/-- Take a token where an operand must start. -/
def takeOperand (p : Progress) (t : Token) : Except Fault Progress :=
  match t.lexeme with
  | .name name =>
    match Root.ofName? name with
    | some root => .ok { p with phase := .path root [] }
    | none => .error (.foreignName name)
  | .number n => .ok { p with phase := .value (.literal (.number n)) }
  | .string s => .ok { p with phase := .value (.literal (.string s)) }
  | .truth b => .ok { p with phase := .value (.literal (.bool b)) }
  | .none => .ok { p with phase := .value (.literal .null) }
  | .openParen =>
    if p.depth < maxDepth then .ok ⟨p.here :: p.outer, .start, .term⟩
    else .error (.malformed t.position .tooDeep)
  | found => .error (.malformed t.position (.noOperand found))

/-- Refuse a token after a whole term. -/
def refuse (p : Progress) (found : Option Lexeme) : Complaint :=
  if p.outer.isEmpty then .trailing found else .unclosedParen found

/-- Take a token after a whole term. -/
def takeAfterTerm (p : Progress) (term : Expr) (t : Token) : Except Fault Progress :=
  match t.lexeme, p.outer with
  | .and, _ => .ok ⟨p.outer, ⟨p.here.ors, p.here.closeTerm term, 0, []⟩, .term⟩
  | .or, _ =>
    .ok ⟨p.outer, ⟨conjunction (p.here.closeTerm term).reverse :: p.here.ors, [], 0, []⟩, .term⟩
  | .closeParen, around :: outer => .ok ⟨outer, around, .value (.group (p.here.close term))⟩
  | found, _ => .error (.malformed t.position (p.refuse found))

/-- Take a token after a whole operand, which may begin or continue a comparison. -/
def takeAfterOperand (p : Progress) (operand : Operand) (t : Token) : Except Fault Progress :=
  match t.lexeme, p.here.compared with
  | .compare op, compared =>
    .ok { p with here := { p.here with compared := (operand, op) :: compared }, phase := .operand }
  | .is, [] => .ok { p with phase := .is operand false }
  | _, compared => p.takeAfterTerm (comparisonOf operand compared []) t

/-- Take the next token. -/
def take (p : Progress) (t : Token) : Except Fault Progress :=
  match p.phase with
  | .term =>
    if t.lexeme = .not then
      if p.depth < maxDepth then .ok { p with here := { p.here with nots := p.here.nots + 1 } }
      else .error (.malformed t.position .tooDeep)
    else p.takeOperand t
  | .operand => p.takeOperand t
  | .path root keys =>
    match t.lexeme with
    | .dot => .ok { p with phase := .key root keys }
    | .openParen => .error (.malformed t.position .functionCall)
    | _ => p.takeAfterOperand (.path ⟨root, keys.reverse⟩) t
  | .key root keys =>
    match t.lexeme with
    | .name key => .ok { p with phase := .path root (key :: keys) }
    | found => .error (.malformed t.position (.noField found))
  | .value operand => p.takeAfterOperand operand t
  | .is operand negated =>
    match t.lexeme, negated with
    | .none, _ => .ok { p with phase := .test operand negated }
    | .not, false => .ok { p with phase := .is operand true }
    | found, _ => .error (.malformed t.position (.notNone found))
  | .test operand negated => p.takeAfterTerm (.isNone operand negated) t

/-- Why the text may not end here. -/
def complaintAtEnd (p : Progress) : Complaint :=
  match p.phase with
  | .term | .operand => .noOperand none
  | .key _ _ => .noField none
  | .is _ _ => .notNone none
  | .path _ _ | .value _ | .test _ _ => p.refuse none

/-- The expression, if the text may end here. `position` is the byte length of the text. -/
def finish (p : Progress) (position : Nat) : Except Fault Expr :=
  match p.term?, p.outer with
  | some term, [] => .ok (p.here.close term)
  | _, _ => .error (.malformed position p.complaintAtEnd)

end Progress

/-- The expression that the tokens spell. `position` is the byte length of the text. -/
def parse (tokens : List Token) (position : Nat) : Except Fault Expr := do
  let p ← tokens.foldlM Progress.take .start
  p.finish position

end Stepwise.Guard
