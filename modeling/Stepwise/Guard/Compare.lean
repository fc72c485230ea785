import Stepwise.Guard.Token

/-!
Comparing values. Numbers and booleans compare by numeric value, a boolean as zero or one; strings
compare by code points; all other pairs have no order. Equality descends into lists and objects.
-/

namespace Stepwise

namespace Number

/-- The binary number that an integer is taken for beside a binary number. -/
def toBinary : Number → Binary64
  | .int n => Binary64.ofInt n
  | .float x => x

/-- Integers compare exactly; next to a binary number an integer is rounded first. -/
def order : Number → Number → Ordering
  | .int m, .int n => Ord.compare m n
  | x, y => x.toBinary.order y.toBinary

def isZero : Number → Bool
  | .int n => n == 0
  | .float x => x.isZero

end Number

namespace Guard

/-- The number that a number or a boolean counts as. -/
def numeric? : Json → Option Number
  | .number n => some n
  | .bool b => some (.int (if b then 1 else 0))
  | _ => none

/-- The order of two strings or of two values that count as numbers. -/
def order? (left right : Json) : Option Ordering :=
  match left, right with
  | .string a, .string b => some (compareOfLessAndEq a b)
  | _, _ =>
    match numeric? left, numeric? right with
    | some m, some n => some (m.order n)
    | _, _ => none

mutual

/-- Equality of values; numbers and booleans are equal by numeric value. -/
def equal : Json → Json → Bool
  | .null, .null => true
  | .bool a, .bool b => a == b
  | .bool a, .number n => Number.order (.int (if a then 1 else 0)) n == .eq
  | .number m, .bool b => Number.order m (.int (if b then 1 else 0)) == .eq
  | .number m, .number n => m.order n == .eq
  | .string a, .string b => a == b
  | .array a, .array b => equalItems a b
  | .object a, .object b => a.length == b.length && equalFields a b
  | _, _ => false

def equalItems : List Json → List Json → Bool
  | [], [] => true
  | x :: xs, y :: ys => equal x y && equalItems xs ys
  | _, _ => false

/-- Whether each field has an equal one under the same key. -/
def equalFields : List (String × Json) → Json.Fields → Bool
  | [], _ => true
  | (key, x) :: rest, fields =>
    (match fields.lookup key with
      | some y => equal x y
      | none => false) && equalFields rest fields

end

/-- Whether two values stand in a relation. -/
def Comparison.holds (op : Comparison) (left right : Json) : Bool :=
  match op with
  | .eq => equal left right
  | .ne => !equal left right
  | .lt => order? left right == some .lt
  | .le => order? left right == some .lt || order? left right == some .eq
  | .gt => order? left right == some .gt
  | .ge => order? left right == some .gt || order? left right == some .eq

/-- Whether a value counts as true. -/
def truthy : Json → Bool
  | .null => false
  | .bool b => b
  | .number n => !n.isZero
  | .string s => !s.isEmpty
  | .array items => !items.isEmpty
  | .object fields => !fields.isEmpty

end Guard

end Stepwise
