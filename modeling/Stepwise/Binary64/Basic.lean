/-!
Finite 64-bit binary floating-point numbers as exact dyadic rationals. A number is a sign, a mantissa
and a power of two; the triple is unique for each bit pattern, so equality of the structure is
equality of bits and `-0` differs from `0`. Comparison goes through `units`, the exact value as a
multiple of the smallest positive number. Rounding is to nearest with ties to even.
-/

namespace Stepwise

/-- The number `±mantissa * 2 ^ exponent`. The mantissa has 53 bits unless the exponent is the least
one, so every finite number has exactly one representation. -/
structure Binary64 where
  negative : Bool
  mantissa : Nat
  exponent : Int
  canonical : mantissa < Nat.pow 2 53 ∧ -1074 ≤ exponent ∧ exponent ≤ 971 ∧
    (Nat.pow 2 52 ≤ mantissa ∨ exponent = -1074)
deriving DecidableEq

namespace Binary64

/-- Zero with the given sign. -/
def zero (negative : Bool) : Binary64 :=
  ⟨negative, 0, -1074, by decide⟩

/-- The largest finite number with the given sign. -/
def largest (negative : Bool) : Binary64 :=
  ⟨negative, Nat.pow 2 53 - 1, 971, by decide⟩

instance : Inhabited Binary64 := ⟨zero false⟩

/-- The number with these parts, if they are those of a finite number. -/
def ofParts? (negative : Bool) (mantissa : Nat) (exponent : Int) : Option Binary64 :=
  if h : mantissa < Nat.pow 2 53 ∧ -1074 ≤ exponent ∧ exponent ≤ 971 ∧
      (Nat.pow 2 52 ≤ mantissa ∨ exponent = -1074) then
    some ⟨negative, mantissa, exponent, h⟩
  else
    none

/-- `num / den` rounded to the nearest integer, a tie to the even one. -/
def roundDiv (num den : Nat) : Nat :=
  let quotient := num / den
  let twice := 2 * (num % den)
  if twice < den then quotient
  else if den < twice then quotient + 1
  else quotient + quotient % 2

/-- `num / (den * 2 ^ exponent)` as a fraction of naturals. -/
def scaleDown (num den : Nat) (exponent : Int) : Nat × Nat :=
  match exponent with
  | .ofNat e => (num, den * Nat.pow 2 e)
  | .negSucc e => (num * Nat.pow 2 (e + 1), den)

/-- The exponent with which `num / den` has a 53-bit mantissa, or the least one. -/
def exponentFor (num den : Nat) : Int :=
  let estimate : Int := Int.ofNat num.log2 - Int.ofNat den.log2 - 52
  let (n, d) := scaleDown num den estimate
  max (if n < d * Nat.pow 2 52 then estimate - 1 else estimate) (-1074)

/-- The number nearest to `±num / den`; none if that exceeds the largest finite number. -/
def ofRatio? (negative : Bool) (num den : Nat) : Option Binary64 :=
  if num = 0 then
    some (zero negative)
  else
    let exponent := exponentFor num den
    let (n, d) := scaleDown num den exponent
    let mantissa := roundDiv n d
    if mantissa = Nat.pow 2 53 then
      ofParts? negative (Nat.pow 2 52) (exponent + 1)
    else
      ofParts? negative mantissa exponent

/-- The number nearest to an integer, and the largest of its sign if none is near. -/
def ofInt (value : Int) : Binary64 :=
  let negative := decide (value < 0)
  (ofRatio? negative value.natAbs 1).getD (largest negative)

/-- The number nearest to `±digits * 10 ^ exponent`; none if that exceeds the largest finite number.
Exponents that no finite number reaches are decided without computing the power. -/
def ofDecimal? (negative : Bool) (digits : Nat) (exponent : Int) : Option Binary64 :=
  if digits = 0 then
    some (zero negative)
  else
    let magnitude : Int := Int.ofNat (digits.log2 * 3 / 10) + exponent
    if 400 < magnitude then none
    else if magnitude + Int.ofNat (digits.log2 / 10) < -400 then some (zero negative)
    else
      match exponent with
      | .ofNat e => ofRatio? negative (digits * Nat.pow 10 e) 1
      | .negSucc e => ofRatio? negative digits (Nat.pow 10 (e + 1))

/-- The magnitude as a fraction of naturals. -/
def magnitude (x : Binary64) : Nat × Nat :=
  match x.exponent with
  | .ofNat e => (x.mantissa * Nat.pow 2 e, 1)
  | .negSucc e => (x.mantissa, Nat.pow 2 (e + 1))

/-- The exact value as a multiple of `2 ^ -1074`, of which every finite number is one. -/
def units (x : Binary64) : Int :=
  let size := Int.ofNat (x.mantissa * Nat.pow 2 (x.exponent + 1074).toNat)
  if x.negative then -size else size

/-- Order by value; both zeros are equal. -/
def order (x y : Binary64) : Ordering :=
  Ord.compare x.units y.units

/-- Both zeros, and no other number. -/
def isZero (x : Binary64) : Bool :=
  x.mantissa == 0

/-- The rounded product. -/
def mul? (x y : Binary64) : Option Binary64 :=
  let (a, b) := x.magnitude
  let (c, d) := y.magnitude
  ofRatio? (x.negative != y.negative) (a * c) (b * d)

/-- The rounded quotient; none if the divisor is zero. -/
def div? (x y : Binary64) : Option Binary64 :=
  let (a, b) := x.magnitude
  let (c, d) := y.magnitude
  if c = 0 then none else ofRatio? (x.negative != y.negative) (a * d) (b * c)

/-- The integer part, toward zero. -/
def truncate (x : Binary64) : Int :=
  let (num, den) := x.magnitude
  let size := Int.ofNat (num / den)
  if x.negative then -size else size

end Binary64

end Stepwise
