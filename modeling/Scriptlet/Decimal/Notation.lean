/-! How a number is written.

A whole number is written in full, without a point and without a sign on zero.
Any other finite number has the fewest digits that read back, with a point among
them, or with an exponent of at least two digits when it is below one ten
thousandth. A finite double is a significand times a power of two, and everything
that is written about it is computed exactly from these two, never from a rounded
quotient.

All reals nearer to a double than to its neighbours read as that double, and so
do the two ends of that interval if the significand is even. A decimal of few
digits is a multiple of a high power of ten. So the grids of the powers of ten
are tried from coarse to fine; the first that has a point in the interval gives
the digits. The points that matter on a grid are the two around the double
itself; if both are in the interval the nearer is taken, and the even one if
they are equally near. -/
namespace Scriptlet.Decimal

/-! ### Doubles taken apart -/

/-- What the bits of a double stand for. A finite double has the magnitude
`significand * 2 ^ exponent`. -/
inductive Binary64 where
  | nan
  | infinite (negative : Bool)
  | finite (negative : Bool) (significand : Nat) (exponent : Int)
  deriving DecidableEq, Repr

namespace Binary64

/-- The exponent of the smallest doubles; their significand has no leading bit. -/
def minExponent : Int := -1074

/-- The leading bit of a significand, which the fraction leaves out. -/
def hidden : Nat := Nat.pow 2 52

/-- Decodes the sign bit, the eleven bits of the exponent and the 52 bits of the
fraction. -/
def ofBits (bits : Nat) : Binary64 :=
  let negative := bits / Nat.pow 2 63 % 2 == 1
  let exponent := bits / hidden % Nat.pow 2 11
  let fraction := bits % hidden
  if exponent = 2047 then
    if fraction = 0 then .infinite negative else .nan
  else if exponent = 0 then .finite negative fraction minExponent
  else .finite negative (hidden + fraction) (minExponent + ((exponent - 1 : Nat) : Int))

def ofFloat (x : Float) : Binary64 :=
  ofBits x.toBits.toNat

end Binary64

/-- The magnitude `significand * 2 ^ exponent`, if it is a whole number. -/
def whole? (significand : Nat) : Int → Option Nat
  | .ofNat e => some (significand * Nat.pow 2 e)
  | .negSucc e =>
    let unit := Nat.pow 2 (e + 1)
    if significand % unit = 0 then some (significand / unit) else none

/-! ### The shortest decimal -/

/-- An interval around a positive number, all three over the denominator `unit`. -/
structure Interval where
  low : Nat
  value : Nat
  high : Nat
  unit : Nat
  /-- Whether the two ends belong to it. -/
  closed : Bool
  deriving DecidableEq, Repr

namespace Interval

/-- The reals that read as the double `significand * 2 ^ exponent`. Below a power
of two the doubles are twice as dense, except under the smallest exponent. -/
def ofDouble (significand : Nat) (exponent : Int) : Interval :=
  let below := if significand = Binary64.hidden ∧ exponent ≠ Binary64.minExponent then 1 else 2
  let up := Nat.pow 2 exponent.toNat
  { low := (4 * significand - below) * up
    value := 4 * significand * up
    high := (4 * significand + 2) * up
    unit := 4 * Nat.pow 2 (-exponent).toNat
    closed := significand % 2 == 0 }

/-- The interval in units of `10 ^ power`. -/
def scale (i : Interval) (power : Int) : Interval :=
  let factor := Nat.pow 10 (-power).toNat
  { i with
    low := i.low * factor
    value := i.value * factor
    high := i.high * factor
    unit := i.unit * Nat.pow 10 power.toNat }

/-- Whether the whole number `n` lies in the interval. -/
def contains (i : Interval) (n : Nat) : Bool :=
  if i.closed then i.low ≤ n * i.unit && n * i.unit ≤ i.high
  else i.low < n * i.unit && n * i.unit < i.high

/-- The whole number in the interval that is nearest to its value. -/
def nearest? (i : Interval) : Option Nat :=
  let n := i.value / i.unit
  let twiceRest := 2 * (i.value % i.unit)
  match i.contains n, i.contains (n + 1) with
  | false, false => none
  | true, false => some n
  | false, true => some (n + 1)
  | true, true =>
    if twiceRest < i.unit ∨ (twiceRest = i.unit ∧ n % 2 = 0) then some n else some (n + 1)

/-- Tries the grid of `10 ^ power` and then `fuel` finer ones. -/
def coarsest (i : Interval) : Nat → Int → Nat × Int
  | 0, power => ((i.scale power).nearest?.getD 0, power)
  | fuel + 1, power =>
    match (i.scale power).nearest? with
    | some n => (n, power)
    | none => i.coarsest fuel (power - 1)

end Interval

/-- The shortest decimal of a positive double, as a whole number and the power of
ten it is a multiple of. No double reaches `10 ^ 309`, and `10 ^ -324` is finer
than all of them. -/
def shortest (significand : Nat) (exponent : Int) : Nat × Int :=
  (Interval.ofDouble significand exponent).coarsest (309 + 324) 309

/-! ### Notation -/

/-- The digits of a number, with a point behind the first `point` of them; zeros
are added on either side where the point falls outside. -/
def positional (digits : List Char) (point : Int) : List Char :=
  if point ≤ 0 then '0' :: '.' :: (List.replicate (-point).toNat '0' ++ digits)
  else
    let whole := digits.take point.toNat
    let zeros := List.replicate (point.toNat - digits.length) '0'
    let fraction := digits.drop point.toNat
    whole ++ zeros ++ '.' :: (if fraction.isEmpty then ['0'] else fraction)

/-- The digits with a point behind the first one, and an exponent that is below
zero. -/
def scientific (digits : List Char) (exponent : Int) : List Char :=
  let power := Nat.toDigits 10 (-exponent).toNat
  let power := if power.length < 2 then '0' :: power else power
  let fraction := digits.drop 1
  digits.take 1 ++ (if fraction.isEmpty then [] else '.' :: fraction) ++ 'e' :: '-' :: power

/-- The exponents, of the first digit, that a positional number may have at least. -/
def leastPositional : Int := -4

/-- A positive number that is not whole: `digits * 10 ^ power`. -/
def fractional (digits : Nat) (power : Int) : List Char :=
  let ds := Nat.toDigits 10 digits
  let point := ds.length + power
  if point - 1 < leastPositional then scientific ds (point - 1) else positional ds point

/-- The text of a number; `nan` is how the number that is none is called. -/
def write (nan : String) (x : Float) : String :=
  match Binary64.ofFloat x with
  | .nan => nan
  | .infinite negative => if negative then "-inf" else "inf"
  | .finite negative significand exponent =>
    match whole? significand exponent with
    | some n =>
      String.ofList ((if negative && n != 0 then ['-'] else []) ++ Nat.toDigits 10 n)
    | none =>
      let (digits, power) := shortest significand exponent
      String.ofList ((if negative then ['-'] else []) ++ fractional digits power)

end Scriptlet.Decimal
