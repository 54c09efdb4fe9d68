-- SUMMARY: YAML documents and the values of their scalars.
import OntoLogic.Number.Style

/-!
# YAML documents

A document is a tree of sequences and mappings with scalars at its leaves. A scalar is a text; one
that is written without quotes may also stand for nothing, a truth value or a number. Nothing at all
also stands for an empty sequence and an empty mapping.
-/

namespace OntoLogic

/-- A node of a document. -/
inductive Yaml where
  /-- A text, and whether it is written without quotes. -/
  | scalar (isPlain : Bool) (text : String)
  | sequence (items : List Yaml)
  | mapping (entries : List (Yaml × Yaml))
  deriving Inhabited

namespace Yaml

/-- The node where nothing is written. -/
def nothing : Yaml := .scalar true ""

/-! ## Sequences and mappings -/

def isNothing : Yaml → Bool
  | .scalar true text => text.isEmpty
  | _ => false

def toItems? : Yaml → Option (List Yaml)
  | .sequence items => some items
  | node => if node.isNothing then some [] else none

def toText? : Yaml → Option String
  | .scalar _ text => some text
  | _ => none

/-- The entries of a mapping whose keys are scalars. -/
def toFields? : Yaml → Option (List (String × Yaml))
  | .mapping entries => entries.mapM fun (key, value) => do return (← key.toText?, value)
  | node => if node.isNothing then some [] else none

/-! ## Truth values and nothing -/

/-- The spellings of nothing. -/
def nullTexts : List String := ["", "~", "null", "Null", "NULL"]

def isNull : Yaml → Bool
  | .scalar true text => nullTexts.contains text
  | _ => false

def boolOfText? (text : String) : Option Bool :=
  if ["true", "True", "TRUE"].contains text then some true
  else if ["false", "False", "FALSE"].contains text then some false
  else none

def toBool? : Yaml → Option Bool
  | .scalar true text => boolOfText? text
  | _ => none

/-! ## Numbers -/

def digitValue? (base : Nat) (c : Char) : Option Nat :=
  let n := c.toNat
  let value :=
    if '0' ≤ c && c ≤ '9' then n - 48
    else if 'a' ≤ c && c ≤ 'z' then n - 87
    else if 'A' ≤ c && c ≤ 'Z' then n - 55
    else base
  if value < base then some value else none

/-- The number that digits spell in a base. -/
def digits? (base : Nat) (cs : List Char) : Option Nat :=
  if cs.isEmpty then none
  else cs.foldlM (fun n c => (digitValue? base c).map (base * n + ·)) 0

/-- A number without a sign: hexadecimal, octal, binary or decimal. A decimal number does not start
with a zero, unless it is zero. -/
def unsigned? (cs : List Char) : Option Nat :=
  match cs with
  | '0' :: 'x' :: ds => digits? 16 ds
  | '0' :: 'o' :: ds => digits? 8 ds
  | '0' :: 'b' :: ds => digits? 2 ds
  | '0' :: _ :: _ => none
  | cs => digits? 10 cs

def intOfText? (text : String) : Option Int :=
  match text.toList with
  | '+' :: cs => (unsigned? cs).map Int.ofNat
  | '-' :: cs => (unsigned? cs).map fun n => -(n : Int)
  | cs => (unsigned? cs).map Int.ofNat

/-- The number from zero to below a limit that a node stands for. -/
def toNat? (limit : Nat) : Yaml → Option Nat
  | .scalar true text =>
    match text.toList with
    | '-' :: _ => none
    | _ =>
      match intOfText? text with
      | some (.ofNat n) => if n < limit then some n else none
      | _ => none
  | _ => none

/-- A decimal number without a sign: its digits as a number, and the power of ten to multiply
with. -/
def decimal? (cs : List Char) : Option (Nat × Int) :=
  let whole := cs.takeWhile Char.isDigit
  let cs := cs.dropWhile Char.isDigit
  let (fraction, cs) :=
    match cs with
    | '.' :: cs => (cs.takeWhile Char.isDigit, cs.dropWhile Char.isDigit)
    | cs => ([], cs)
  match digits? 10 (whole ++ fraction) with
  | none => none
  | some n =>
    let power : Int := -(fraction.length : Int)
    match cs with
    | [] => some (n, power)
    | c :: cs =>
      if c = 'e' || c = 'E' then
        match cs with
        | '-' :: ds => (digits? 10 ds).map fun e => (n, power - e)
        | '+' :: ds => (digits? 10 ds).map fun e => (n, power + e)
        | ds => (digits? 10 ds).map fun e => (n, power + e)
      else none

/-- The nearest number of double precision to a decimal number that is not too large. -/
def floating? (negative : Bool) (cs : List Char) : Option Real := do
  let (n, power) ← decimal? cs
  let size := power + (Nat.toDigits 10 n).length
  if n = 0 || size < -330 then return .finite ⟨negative, 0, FloatFormat.binary64.minExponent⟩
  else if 310 < size then none
  else return .finite (← Floating.ofDecimal .binary64 negative n power)

/-- A text of digits that starts with a zero is not a number. -/
def isDigitsText (cs : List Char) : Bool :=
  match cs with
  | '0' :: rest => !rest.isEmpty && rest.all Char.isDigit
  | _ => false

/-- The number of double precision that a text spells. -/
def realOfText? (text : String) : Option Real :=
  let (negative, signed, cs) :=
    match text.toList with
    | '+' :: cs => (false, true, cs)
    | '-' :: cs => (true, true, cs)
    | cs => (false, false, cs)
  let rest := String.ofList cs
  if isDigitsText cs then none
  else if [".inf", ".Inf", ".INF"].contains rest then some (.infinite negative)
  else if [".nan", ".NaN", ".NAN"].contains rest then if signed then none else some .nan
  else floating? negative cs

/-- A whole number in single precision. -/
def realOfInt (n : Int) : Real :=
  match Floating.round .binary32 (n < 0) n.natAbs 1 with
  | some x => .finite x
  | none => .infinite (n < 0)

/-- The smallest number of 64 bits with a sign. -/
def minInt64 : Int := -9223372036854775808

/-- The number of single precision that a node stands for. A whole number has to fit into 64 bits,
with or without a sign. -/
def toReal? : Yaml → Option Real
  | .scalar true text =>
    match intOfText? text with
    | some n => if minInt64 ≤ n && n < UInt64.size then some (realOfInt n) else none
    | none => (realOfText? text).map (Real.convert .binary32)
  | _ => none

/-- Whether a node is a text and nothing else. -/
def isText : Yaml → Bool
  | .scalar true text =>
    !nullTexts.contains text && (boolOfText? text).isNone && (intOfText? text).isNone &&
      (realOfText? text).isNone
  | .scalar false _ => true
  | _ => false

end Yaml

end OntoLogic
