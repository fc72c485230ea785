import Stepwise.Binary64.Basic

/-!
The shortest decimal text of a number. `shortest?` finds the fewest digits whose decimal lies in the
interval of reals that round to the number, and of those the nearest; `Layout` holds the decisions of
the written format.
-/

namespace Stepwise.Binary64

/-- Whether `c * 10 ^ scale` is below, at or above `num / den`. -/
private def orderDecimal (c : Nat) (scale : Int) (num den : Nat) : Ordering :=
  match scale with
  | .ofNat s => Ord.compare (c * Nat.pow 10 s * den) num
  | .negSucc s => Ord.compare (c * den) (num * Nat.pow 10 (s + 1))

/-- The integer part of `num / (den * 10 ^ scale)`. -/
private def floorDecimal (num den : Nat) (scale : Int) : Nat :=
  match scale with
  | .ofNat s => num / (den * Nat.pow 10 s)
  | .negSucc s => num * Nat.pow 10 (s + 1) / den

/-- The least `p` with `num / den < 10 ^ p`, for a positive fraction. -/
private def decimalPoint (num den : Nat) : Int :=
  if den ≤ num then
    Int.ofNat (Nat.toDigits 10 (num / den)).length
  else
    let zeros := (Nat.toDigits 10 (den / num)).length
    if den ≤ num * Nat.pow 10 (zeros - 1) then 2 - Int.ofNat zeros else 1 - Int.ofNat zeros

/-- The reals that round to a number lie between two fractions with one denominator; the ends belong
to them iff the mantissa is even. -/
private structure Neighbourhood where
  low : Nat
  value : Nat
  high : Nat
  den : Nat
  closed : Bool

private def neighbourhood (x : Binary64) : Neighbourhood :=
  let (unit, den) := match x.exponent with
    | .ofNat e => (Nat.pow 2 e, 1)
    | .negSucc e => (1, Nat.pow 2 (e + 1))
  let value := 4 * x.mantissa * unit
  let below := if x.mantissa = Nat.pow 2 52 ∧ x.exponent ≠ -1074 then unit else 2 * unit
  { low := value - below, value, high := value + 2 * unit, den := 4 * den,
    closed := x.mantissa % 2 == 0 }

private def Neighbourhood.contains (n : Neighbourhood) (c : Nat) (scale : Int) : Bool :=
  match orderDecimal c scale n.low n.den, orderDecimal c scale n.high n.den with
  | .gt, .lt => true
  | .eq, _ => n.closed
  | _, .eq => n.closed
  | _, _ => false

/-- Whether `c * 10 ^ scale` is at least as near to the value as its upper neighbour on the grid; of
two equally near ones the even one is taken. -/
private def Neighbourhood.prefersLower (n : Neighbourhood) (c : Nat) (scale : Int) : Bool :=
  match orderDecimal (2 * c + 1) scale (2 * n.value) n.den with
  | .gt => true
  | .eq => c % 2 == 0
  | .lt => false

/-- The decimal of the grid `10 ^ scale` that reads back, nearest to the value. -/
private def Neighbourhood.onGrid? (n : Neighbourhood) (scale : Int) : Option (Nat × Int) :=
  let c := floorDecimal n.value n.den scale
  match n.contains c scale, n.contains (c + 1) scale with
  | true, true => some (if n.prefersLower c scale then c else c + 1, scale)
  | true, false => some (c, scale)
  | false, true => some (c + 1, scale)
  | false, false => none

/-- Move the zeros at the end of a digit string into the scale. -/
private def stripZeros : Nat → Nat → Int → Nat × Int
  | 0, digits, scale => (digits, scale)
  | fuel + 1, digits, scale =>
    if digits % 10 = 0 ∧ digits ≠ 0 then stripZeros fuel (digits / 10) (scale + 1)
    else (digits, scale)

/-- The shortest decimal `digits * 10 ^ scale` that reads back as the magnitude of the number. -/
def shortest (x : Binary64) : Nat × Int :=
  if x.mantissa = 0 then
    (0, 0)
  else
    let n := x.neighbourhood
    let point := decimalPoint n.value n.den
    let found := (List.range 17).findSome? fun i => n.onGrid? (point - Int.ofNat (i + 1))
    let (digits, scale) := found.getD (floorDecimal n.value n.den (point - 17), point - 17)
    stripZeros 17 digits scale

/-- How a decimal is written: positionally if the exponent of its first digit lies in a range, else
with an exponent that always has its sign. -/
structure Layout where
  positionalFrom : Int
  positionalTo : Int

/-- Numbers from `1e-5` up to, but not including, `1e16` are written positionally. -/
def layout : Layout := ⟨-5, 15⟩

private def zeros (n : Nat) : String :=
  String.ofList (List.replicate n '0')

/-- Write `digits * 10 ^ scale`, with a `.0` if it is an integer written positionally. -/
def Layout.write (l : Layout) (digits : Nat) (scale : Int) : String :=
  let text := Nat.toDigits 10 digits
  let point : Int := Int.ofNat text.length + scale
  let exponent := point - 1
  if digits = 0 then
    "0.0"
  else if l.positionalFrom ≤ exponent ∧ exponent ≤ l.positionalTo then
    if 0 ≤ scale then
      String.ofList text ++ zeros scale.toNat ++ ".0"
    else if 0 < point then
      String.ofList (text.take point.toNat) ++ "." ++ String.ofList (text.drop point.toNat)
    else
      "0." ++ zeros (-point).toNat ++ String.ofList text
  else
    let first := String.ofList (text.take 1)
    let rest := String.ofList (text.drop 1)
    let fraction := if rest.isEmpty then "" else "." ++ rest
    let sign := if exponent < 0 then "-" else "+"
    first ++ fraction ++ "e" ++ sign ++ toString exponent.natAbs

/-- The text of a number: the shortest decimal that reads back, with the sign of a negative zero kept. -/
def text (x : Binary64) : String :=
  let (digits, scale) := x.shortest
  (if x.negative then "-" else "") ++ layout.write digits scale

end Stepwise.Binary64
