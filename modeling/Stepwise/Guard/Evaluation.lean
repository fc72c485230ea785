import Stepwise.Guard.Parser
import Stepwise.Guard.Compare

/-!
The value of an expression in a state. Evaluation never fails: a path that leads nowhere is null, and a
comparison of values that have no order does not hold.
-/

namespace Stepwise.Guard

/-- What a path names; null if a key is missing or a value on the way is no object. -/
def Path.resolve (p : Path) (s : State) : Json :=
  (s.lookup? p.root p.keys).getD .null

mutual

def Expr.holds (s : State) : Expr → Bool
  | .or terms => anyHolds s terms
  | .and terms => allHold s terms
  | .not inner => !inner.holds s
  | .compare first rest => chainHolds s (first.value s) rest
  | .isNone operand negated =>
    (match operand.value s with
      | .null => true
      | _ => false) != negated
  | .operand operand => truthy (operand.value s)

def anyHolds (s : State) : List Expr → Bool
  | [] => false
  | term :: rest => term.holds s || anyHolds s rest

def allHold (s : State) : List Expr → Bool
  | [] => true
  | term :: rest => term.holds s && allHold s rest

/-- Whether each operand stands in the given relation to the one before it. -/
def chainHolds (s : State) (left : Json) : List (Comparison × Operand) → Bool
  | [] => true
  | (op, right) :: rest =>
    let value := right.value s
    op.holds left value && chainHolds s value rest

/-- A parenthesised operand keeps its own value; other expressions in parentheses are true or false. -/
def Operand.value (s : State) : Operand → Json
  | .path path => path.resolve s
  | .literal value => value.toJson
  | .group (.operand inner) => inner.value s
  | .group inner => .bool (inner.holds s)

end

end Stepwise.Guard
