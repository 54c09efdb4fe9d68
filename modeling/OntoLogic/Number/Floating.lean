-- SUMMARY: Binary floating-point numbers and rounding to them.

/-!
# Floating-point numbers

A finite binary floating-point number is a sign, a significand and a power of two. A format limits
the bits of the significand and the range of the exponent. Every operation is computed exactly and
then rounded to the nearest number of the format; of two that are equally near, the one with the
even significand is taken. A result beyond the largest number of the format is an overflow.
-/

namespace OntoLogic

structure FloatFormat where
  /-- The bits of a significand. -/
  precision : Nat
  /-- The exponent of the smallest positive number. -/
  minExponent : Int
  /-- The largest exponent. -/
  maxExponent : Int

/-- Double precision. -/
def FloatFormat.binary64 : FloatFormat := ⟨53, -1074, 971⟩

/-- Single precision. -/
def FloatFormat.binary32 : FloatFormat := ⟨24, -149, 104⟩

/-- The number `± significand · 2 ^ exponent`. -/
structure Floating where
  negative : Bool
  significand : Nat
  exponent : Int
  deriving Inhabited, DecidableEq

namespace Floating

/-! ## Rounding -/

/-- The quotient of two numbers, rounded to the nearest whole number, a tie to the even one. -/
def roundQuotient (num den : Nat) : Nat :=
  let q := num / den
  let twice := 2 * (num % den)
  if den < twice || (twice == den && q % 2 == 1) then q + 1 else q

/-- `2 ^ e` as a pair of a numerator and a denominator. -/
def powerOfTwo (e : Int) : Nat × Nat :=
  if 0 ≤ e then (Nat.pow 2 e.toNat, 1) else (1, Nat.pow 2 (-e).toNat)

/-- The exponent at which `num / den` has a significand of the format's precision. -/
def exponentOf (format : FloatFormat) (num den : Nat) : Int :=
  let guess : Int := (num.log2 : Int) - (den.log2 : Int) - (format.precision : Int) + 1
  let (up, down) := powerOfTwo guess
  max format.minExponent
    (if num * down < Nat.pow 2 (format.precision - 1) * (den * up) then guess - 1 else guess)

/-- The number of a format that is nearest to `± num / den`, unless it is too large. -/
def round (format : FloatFormat) (negative : Bool) (num den : Nat) : Option Floating :=
  if num = 0 then some ⟨negative, 0, format.minExponent⟩
  else
    let exponent := exponentOf format num den
    let (up, down) := powerOfTwo exponent
    let significand := roundQuotient (num * down) (den * up)
    let (significand, exponent) :=
      if significand = Nat.pow 2 format.precision then (significand / 2, exponent + 1)
      else (significand, exponent)
    if format.maxExponent < exponent then none else some ⟨negative, significand, exponent⟩

/-! ## Operations -/

/-- The size of a number as a pair of a numerator and a denominator. -/
def ratio (x : Floating) : Nat × Nat :=
  let (up, down) := powerOfTwo x.exponent
  (x.significand * up, down)

def isZero (x : Floating) : Bool :=
  x.significand == 0

/-- The number nearest to `± num · 10 ^ e`. -/
def ofDecimal (format : FloatFormat) (negative : Bool) (num : Nat) (e : Int) : Option Floating :=
  if 0 ≤ e then round format negative (num * Nat.pow 10 e.toNat) 1
  else round format negative num (Nat.pow 10 (-e).toNat)

/-- The nearest number of another format. -/
def convert (format : FloatFormat) (x : Floating) : Option Floating :=
  round format x.negative x.ratio.1 x.ratio.2

/-- The rounded product of two numbers. -/
def mul (format : FloatFormat) (x y : Floating) : Option Floating :=
  round format (x.negative != y.negative) (x.ratio.1 * y.ratio.1) (x.ratio.2 * y.ratio.2)

/-- The rounded quotient of a number and a number that is not zero. -/
def div (format : FloatFormat) (x y : Floating) : Option Floating :=
  round format (x.negative != y.negative) (x.ratio.1 * y.ratio.2) (x.ratio.2 * y.ratio.1)

end Floating

end OntoLogic
