import Stepwise.Json.Basic

/-!
Numerals of JSON text. An integer that fits 64 bits is exact. Any other numeral is a binary number, found
by one scaling: as many leading digits as fit 64 bits are rounded to a binary number, which is then
multiplied or divided once by a rounded power of ten. The result may differ from the nearest number in
the last place when there are more than 15 digits or the power exceeds `10 ^ 22`.
-/

namespace Stepwise.Json

/-- The parts of a numeral as written. -/
structure Numeral where
  negative : Bool
  whole : List Char
  fraction : Option (List Char)
  exponent : Option (Bool × List Char)

namespace Numeral

/-- The greatest integer that is read exactly. -/
def maxExact : Nat := Nat.pow 2 64 - 1

/-- The greatest exponent that is read as a number. -/
private def maxExponent : Nat := Nat.pow 2 31 - 1

private def digit (c : Char) : Nat := c.toNat - '0'.toNat

/-- The value of the leading digits that fit 64 bits, and the digits after them. -/
def leading (significand : Nat) : List Char → Nat × List Char
  | [] => (significand, [])
  | c :: rest =>
    let next := significand * 10 + digit c
    if next ≤ maxExact then leading next rest else (significand, c :: rest)

/-- Multiply or divide by powers of ten, at most 308 orders of magnitude at a time. Three divisions take
every 64-bit significand to zero. -/
private def scaleBy : Nat → Binary64 → Int → Option Binary64
  | 0, x, _ => some (Binary64.zero x.negative)
  | fuel + 1, x, exponent =>
    let power (e : Nat) : Binary64 := (Binary64.ofDecimal? false 1 e).getD default
    if exponent.natAbs ≤ 308 then
      if 0 ≤ exponent then x.mul? (power exponent.toNat) else x.div? (power exponent.natAbs)
    else if x.isZero then some x
    else if 0 ≤ exponent then none
    else (x.div? (power 308)).bind fun y => scaleBy fuel y (exponent + 308)

/-- How much of an exponent was read, and its value if that is within bounds. -/
private def exponentValue (value : Nat) : List Char → Nat → Except Nat Nat
  | [], _ => .ok value
  | c :: rest, read =>
    let next := value * 10 + digit c
    if next ≤ maxExponent then exponentValue next rest (read + 1) else .error (read + 1)

/-- The number that a numeral stands for. A number beyond the largest finite one is an error, which
tells how many digits of the exponent were left unread when that was clear. -/
def toNumber (n : Numeral) : Except Nat Number :=
  let (significand, dropped) := leading 0 n.whole
  let finish (significand : Nat) (exponent : Int) : Except Nat Number :=
    match scaleBy 4 (Binary64.ofInt significand) exponent with
    | some x => .ok (.float { x with negative := n.negative })
    | none => .error 0
  match n.fraction, n.exponent with
  | none, none =>
    if dropped.isEmpty then
      if n.negative then
        if significand = 0 ∨ Nat.pow 2 63 < significand then finish significand 0
        else .ok (.int (-significand))
      else .ok (.int significand)
    else finish significand dropped.length
  | fraction, exponent =>
    let (significand, scale) := match fraction with
      | none => (significand, Int.ofNat dropped.length)
      | some digits =>
        let (more, ignored) := leading significand digits
        (more, Int.ofNat dropped.length - Int.ofNat (digits.length - ignored.length))
    match exponent with
    | none => finish significand scale
    | some (negative, digits) =>
      match exponentValue 0 digits 0 with
      | .ok e => finish significand (if negative then scale - e else scale + e)
      | .error read =>
        if significand ≠ 0 ∧ !negative then .error (digits.length - read)
        else .ok (.float (Binary64.zero n.negative))

end Numeral

end Stepwise.Json
