import Stepwise.Guard.Token
import Stepwise.Document.Basic
import Stepwise.State.Basic

/-!
The syntax trees of conditions. Conjunctions and disjunctions hold two or more terms, a comparison holds
one or more operators, and a pair of parentheses is a node of its own.
-/

namespace Stepwise.Guard

/-- A dotted path below one of the namespaces of the state. -/
structure Path where
  root : Root
  keys : List String
deriving DecidableEq

mutual

inductive Expr where
  | or (terms : List Expr)
  | and (terms : List Expr)
  | not (inner : Expr)
  /-- Holds when every two neighbours compare. -/
  | compare (first : Operand) (rest : List (Comparison × Operand))
  | isNone (operand : Operand) (negated : Bool)
  | operand (operand : Operand)

inductive Operand where
  | path (path : Path)
  | literal (value : Scalar)
  | group (inner : Expr)

end

instance : Inhabited Expr := ⟨.operand (.literal .null)⟩

end Stepwise.Guard
