-- SUMMARY: Numbers of JSON texts.
import OntoLogic.Number.Style

/-!
# JSON numbers

A number without point and exponent is kept exactly when it fits into 64 bits, with or without a
sign. Every other number is a number of double precision.

Such a number is not the one nearest to its literal. The digits are collected as long as they fit
into 64 bits; further digits before the point only raise the power of ten and further digits after
it are dropped. The collected number and the power of ten are rounded each, and so is their product
or quotient.
-/

namespace OntoLogic.Json

/-- A number as it is written. -/
structure Literal where
  negative : Bool
  /-- The digits before the point. -/
  whole : List Nat
  /-- The digits after the point; none without a point. -/
  fraction : List Nat
  /-- The exponent, if there is one: its sign and its size. -/
  exponent : Option (Bool × Nat)
  deriving Inhabited, DecidableEq

/-- A number as it is kept. -/
inductive Number where
  /-- A number from zero to below `2 ^ 64`. -/
  | natural (n : Nat)
  /-- The number `-n`, down to `-2 ^ 63`. -/
  | negative (n : Nat)
  | float (x : Floating)
  deriving Inhabited, DecidableEq

namespace Number

def text : Number → String
  | .natural n => toString n
  | .negative n => "-" ++ toString n
  | .float x => x.text .binary64 .json

end Number

namespace Literal

/-- Appends digits to a number while the result fits into 64 bits; the number reached and the
digits that are left. -/
def collect : Nat → List Nat → Nat × List Nat
  | n, [] => (n, [])
  | n, d :: ds => if 10 * n + d < UInt64.size then collect (10 * n + d) ds else (n, d :: ds)

/-- The power `10 ^ e` in double precision. -/
def powerOfTen (e : Nat) : Option Floating :=
  Floating.ofDecimal .binary64 false 1 e

/-- Divides by `10 ^ e`. Powers beyond `10 ^ 308` are divided by in several steps; the second step
brings every collected number to zero. -/
def scaleDown (x : Floating) : (steps e : Nat) → Option Floating
  | 0, _ => some x
  | steps + 1, e =>
    if e ≤ 308 then do x.div .binary64 (← powerOfTen e)
    else if x.isZero then some x
    else do
      let y ← x.div .binary64 (← powerOfTen 308)
      scaleDown y steps (e - 308)

/-- `± n · 10 ^ e` in double precision, unless it is too large. -/
def scale (negative : Bool) (n : Nat) (e : Int) : Option Floating := do
  let x ← Floating.round .binary64 negative n 1
  if e < 0 then scaleDown x 4 (-e).toNat
  else if e ≤ 308 then x.mul .binary64 (← powerOfTen e.toNat)
  else if x.isZero then return x
  else none

/-- The number that a literal stands for, unless it is too large. -/
def value (l : Literal) : Option Number :=
  let (n, left) := collect 0 l.whole
  if left.isEmpty && l.fraction.isEmpty && l.exponent.isNone then
    if !l.negative then some (.natural n)
    else if 0 < n && n ≤ 9223372036854775808 then some (.negative n)
    else (Floating.round .binary64 true n 1).map .float
  else
    let (n, dropped) := collect n l.fraction
    let start := (left.length : Int) - (l.fraction.length - dropped.length : Nat)
    let exponent :=
      match l.exponent with
      | none => start
      | some (true, e) => start - e
      | some (false, e) => start + e
    (scale l.negative n exponent).map .float

end Literal

end OntoLogic.Json
