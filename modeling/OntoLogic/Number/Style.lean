-- SUMMARY: How decimals are written.
import OntoLogic.Number.Shortest

/-!
# Styles of decimals

A style says which decimals are written with a point among their digits and which with a power of
ten, and how each of the two looks.
-/

namespace OntoLogic

structure DecimalStyle where
  /-- The exponents of the leading digit that are written with a point; `none` is no limit. -/
  positional : Option (Int × Int)
  /-- What follows a whole number that is written with a point. -/
  wholeEnding : String
  /-- What precedes a power of ten that is not negative. -/
  plus : String

namespace DecimalStyle

/-- JSON writes a point from 10⁻⁵ to below 10¹⁶ and keeps `.0`. -/
def json : DecimalStyle := ⟨some (-5, 15), ".0", "+"⟩

/-- Every decimal is written with a point, whole numbers without one. -/
def plain : DecimalStyle := ⟨none, "", ""⟩

/-- Descriptions write a point from 10⁻⁴ to below 10¹⁶ and keep `.0`. -/
def descriptive : DecimalStyle := ⟨some (-4, 15), ".0", ""⟩

def zeros (n : Nat) : String :=
  String.ofList (List.replicate n '0')

/-- The digits `ds`, read as `0.ds · 10 ^ point`, written with a point. -/
def withPoint (style : DecimalStyle) (ds : List Char) (point : Int) : String :=
  if (ds.length : Int) ≤ point then
    String.ofList ds ++ zeros (point - ds.length).toNat ++ style.wholeEnding
  else if 0 < point then
    String.ofList (ds.take point.toNat) ++ "." ++ String.ofList (ds.drop point.toNat)
  else "0." ++ zeros (-point).toNat ++ String.ofList ds

/-- The digits of a number with the power of ten of the first. -/
def withPower (style : DecimalStyle) (ds : List Char) (power : Int) : String :=
  let mantissa :=
    match ds with
    | d :: rest@(_ :: _) => String.ofList (d :: '.' :: rest)
    | ds => String.ofList ds
  mantissa ++ "e" ++ (if 0 ≤ power then style.plus else "-") ++ toString power.natAbs

/-- The written form of a decimal that has no zero at the end of its digits. -/
def write (style : DecimalStyle) (negative : Bool) (d : Decimal) : String :=
  let sign := if negative then "-" else ""
  if d.digits = 0 then sign ++ "0" ++ style.wholeEnding
  else
    let ds := Nat.toDigits 10 d.digits
    let power := d.exponent + ds.length - 1
    let isPositional :=
      match style.positional with
      | none => true
      | some (low, high) => low ≤ power && power ≤ high
    sign ++ (if isPositional then style.withPoint ds (power + 1) else style.withPower ds power)

end DecimalStyle

/-- The shortest written form of a floating-point number. -/
def Floating.text (format : FloatFormat) (style : DecimalStyle) (x : Floating) : String :=
  style.write x.negative (Decimal.shortest format x)

/-- A floating-point number, an infinity, or no number. -/
inductive Real where
  | finite (x : Floating)
  | infinite (negative : Bool)
  | nan
  deriving Inhabited, DecidableEq

namespace Real

/-- The nearest value of a format; what is too large becomes an infinity. -/
def convert (format : FloatFormat) : Real → Real
  | .finite x =>
    match x.convert format with
    | some y => .finite y
    | none => .infinite x.negative
  | other => other

def text (format : FloatFormat) (style : DecimalStyle) : Real → String
  | .finite x => x.text format style
  | .infinite negative => if negative then "-inf" else "inf"
  | .nan => "NaN"

end Real

end OntoLogic
