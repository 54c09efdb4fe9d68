-- SUMMARY: The shortest decimal that reads back as a floating-point number.
import OntoLogic.Number.Floating

/-!
# Shortest decimals

A decimal reads back as a floating-point number when it lies in the interval of the numbers that
round to it; the ends belong to the interval when the significand is even. Among the decimals with
the fewest digits in the interval, the nearest to the number is taken, and of two that are equally
near the one with an even last digit.

On the grid of the decimals with `n` digits only the two neighbours of the number need to be
tested: when any point of the grid lies in the interval, one of them does.
-/

namespace OntoLogic

/-- The decimal `digits · 10 ^ exponent`. -/
structure Decimal where
  digits : Nat
  exponent : Int
  deriving Inhabited, DecidableEq

namespace Decimal

def digitCount (n : Nat) : Nat :=
  (Nat.toDigits 10 n).length

/-- The decimal without zeros at the end of its digits; `fuel` is the number of digits. -/
def stripUpTo : (fuel : Nat) → Decimal → Decimal
  | 0, d => d
  | fuel + 1, d =>
    if d.digits % 10 == 0 then stripUpTo fuel ⟨d.digits / 10, d.exponent + 1⟩ else d

/-- The decimal without zeros at the end of its digits. -/
def strip (d : Decimal) : Decimal :=
  stripUpTo (digitCount d.digits) d

/-- The exponent of the leading digit of `num / den`, which must not be zero. -/
def leadingExponent (num den : Nat) : Int :=
  if den ≤ num then digitCount (num / den) - 1
  else
    let k := digitCount (den / num)
    if den ≤ num * Nat.pow 10 (k - 1) then 1 - (k : Int) else -(k : Int)

/-- The numbers that round to a floating-point number, as multiples of `unit`. -/
structure Interval where
  low : Nat
  value : Nat
  high : Nat
  /-- The numerator and the denominator of the unit. -/
  unit : Nat × Nat
  closed : Bool

/-- The interval of a number that is not zero. Below a power of two the next number is half as
far. -/
def intervalOf (format : FloatFormat) (x : Floating) : Interval where
  low :=
    let isPower :=
      x.significand == Nat.pow 2 (format.precision - 1) && format.minExponent < x.exponent
    4 * x.significand - (if isPower then 1 else 2)
  value := 4 * x.significand
  high := 4 * x.significand + 2
  unit := Floating.powerOfTwo (x.exponent - 2)
  closed := x.significand % 2 == 0

/-- Whether the point `c · 10 ^ e` of a grid, with the grid's step as a fraction, lies in an
interval. -/
def Interval.contains (i : Interval) (c : Nat) (step : Nat × Nat) : Bool :=
  let point := c * step.1 * i.unit.2
  let low := i.low * i.unit.1 * step.2
  let high := i.high * i.unit.1 * step.2
  if i.closed then low ≤ point && point ≤ high else low < point && point < high

/-- `10 ^ e` as a pair of a numerator and a denominator. -/
def powerOfTen (e : Int) : Nat × Nat :=
  if 0 ≤ e then (Nat.pow 10 e.toNat, 1) else (1, Nat.pow 10 (-e).toNat)

/-- The point of the grid with step `10 ^ e` to take for the number of an interval, if one lies in
the interval. -/
def gridPoint (i : Interval) (e : Int) : Option Nat :=
  let step := powerOfTen e
  let num := i.value * i.unit.1 * step.2
  let den := i.unit.2 * step.1
  let below := num / den
  match i.contains below step, i.contains (below + 1) step with
  | true, true =>
    let twice := 2 * (num % den)
    if den < twice || (twice == den && below % 2 == 1) then some (below + 1) else some below
  | true, false => some below
  | false, true => some (below + 1)
  | false, false => none

/-- Tries grids with more and more digits, the first with the step `10 ^ e`. -/
def shortestFrom (i : Interval) : (tries : Nat) → (e : Int) → Decimal
  | 0, e => ⟨i.value * i.unit.1 * (powerOfTen e).2 / (i.unit.2 * (powerOfTen e).1), e⟩
  | tries + 1, e =>
    match gridPoint i e with
    | some c => ⟨c, e⟩
    | none => shortestFrom i tries (e - 1)

/-- The shortest decimal that reads back as the size of a number. No number of double precision
needs more than 17 digits. -/
def shortest (format : FloatFormat) (x : Floating) : Decimal :=
  if x.isZero then ⟨0, 0⟩
  else
    let i := intervalOf format x
    strip (shortestFrom i 17 (leadingExponent x.ratio.1 x.ratio.2))

end Decimal

end OntoLogic
