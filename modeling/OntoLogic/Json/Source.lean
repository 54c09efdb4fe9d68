-- SUMMARY: JSON texts as trees.
import OntoLogic.Json.Basic
import OntoLogic.Text.Names

/-!
# JSON texts as trees

A text is first read as it is written: numbers keep their digits, objects keep all their fields, and
a string may hold an escape that is half of a character. What a reader of the tree does not look at
is not checked any further, so such a string, or a number that is too large, is only an error where
its value is asked for.
-/

namespace OntoLogic.Json

/-- A JSON text as it is written. A string is `none` when its escapes do not spell a text. -/
inductive Source where
  | null
  | bool (b : Bool)
  | number (l : Literal)
  | string (s : Option String)
  | array (items : List Source)
  | object (fields : List (Option String × Source))
  deriving Inhabited

namespace Source

/-! ## Strings -/

/-- A part of a string: a character or the number of a `\u` escape. -/
inductive Piece where
  | char (c : Char)
  | escape (n : Nat)
  deriving Inhabited, DecidableEq

/-- The text of the parts of a string. Two escapes spell one character when the first is a high
surrogate and the second a low one; no other surrogates are allowed. -/
def spell : List Piece → Option (List Char)
  | [] => some []
  | .char c :: rest => (spell rest).map (c :: ·)
  | .escape n :: rest =>
    if 0xD800 ≤ n && n < 0xDC00 then
      match rest with
      | .escape m :: rest =>
        if 0xDC00 ≤ m && m < 0xE000 then
          (spell rest).map (Char.ofNat (0x10000 + (n - 0xD800) * 0x400 + (m - 0xDC00)) :: ·)
        else none
      | _ => none
    else if 0xDC00 ≤ n && n < 0xE000 then none
    else (spell rest).map (Char.ofNat n :: ·)

def hexValue (c : Char) : Option Nat :=
  if '0' ≤ c && c ≤ '9' then some (c.toNat - 48)
  else if 'a' ≤ c && c ≤ 'f' then some (c.toNat - 87)
  else if 'A' ≤ c && c ≤ 'F' then some (c.toNat - 55)
  else none

/-- The character that a one-letter escape stands for. -/
def simpleEscape : Char → Option Char
  | '"' => some '"'
  | '\\' => some '\\'
  | '/' => some '/'
  | 'b' => some '\x08'
  | 'f' => some '\x0c'
  | 'n' => some '\n'
  | 'r' => some '\r'
  | 't' => some '\t'
  | _ => none

/-- The parts of a string whose opening quote has been read, and what follows its closing quote. -/
def readPieces : List Char → Option (List Piece × List Char)
  | [] => none
  | '"' :: cs => some ([], cs)
  | '\\' :: 'u' :: a :: b :: c :: d :: cs => do
    let n := 16 * (16 * (16 * (← hexValue a) + (← hexValue b)) + (← hexValue c)) + (← hexValue d)
    let (pieces, rest) ← readPieces cs
    return (.escape n :: pieces, rest)
  | '\\' :: e :: cs => do
    let c ← simpleEscape e
    let (pieces, rest) ← readPieces cs
    return (.char c :: pieces, rest)
  | c :: cs =>
    if c.toNat < 0x20 || c = '\\' then none
    else do
      let (pieces, rest) ← readPieces cs
      return (.char c :: pieces, rest)

/-- A string whose opening quote has been read. -/
def readString (cs : List Char) : Option (Option String × List Char) :=
  (readPieces cs).map fun (pieces, rest) => ((spell pieces).map String.ofList, rest)

/-! ## Numbers -/

def digitValues (cs : List Char) : List Nat :=
  cs.map fun c => c.toNat - 48

/-- The digits at the front and what follows them. -/
def readDigits (cs : List Char) : List Nat × List Char :=
  (digitValues (cs.takeWhile Char.isDigit), cs.dropWhile Char.isDigit)

/-- The exponent of a number, if there is one. -/
def readExponent (cs : List Char) : Option (Option (Bool × Nat) × List Char) :=
  match cs with
  | c :: cs =>
    if c = 'e' || c = 'E' then
      let (negative, cs) :=
        match cs with
        | '+' :: cs => (false, cs)
        | '-' :: cs => (true, cs)
        | cs => (false, cs)
      let (digits, rest) := readDigits cs
      if digits.isEmpty then none
      else some (some (negative, digits.foldl (fun n d => 10 * n + d) 0), rest)
    else some (none, c :: cs)
  | [] => some (none, [])

/-- The digits after the point of a number, if there is one. -/
def readFraction (cs : List Char) : Option (List Nat × List Char) :=
  match cs with
  | '.' :: cs =>
    let (digits, rest) := readDigits cs
    if digits.isEmpty then none else some (digits, rest)
  | cs => some ([], cs)

/-- A number without its sign. A zero can only be the first digit when it is the only one. -/
def readNumber (negative : Bool) (cs : List Char) : Option (Source × List Char) := do
  let (whole, cs) := readDigits cs
  match whole with
  | [] | 0 :: _ :: _ => none
  | _ => do
    let (fraction, cs) ← readFraction cs
    let (exponent, cs) ← readExponent cs
    return (.number { negative, whole, fraction, exponent }, cs)

/-! ## Values -/

def skipBlanks (cs : List Char) : List Char :=
  cs.dropWhile fun c => c == ' ' || c == '\n' || c == '\t' || c == '\r'

mutual

/-- A value. The depth of the recursion is at most `fuel`. -/
def readValue : (fuel : Nat) → List Char → Option (Source × List Char)
  | 0, _ => none
  | fuel + 1, cs =>
    match skipBlanks cs with
    | 'n' :: 'u' :: 'l' :: 'l' :: cs => some (.null, cs)
    | 't' :: 'r' :: 'u' :: 'e' :: cs => some (.bool true, cs)
    | 'f' :: 'a' :: 'l' :: 's' :: 'e' :: cs => some (.bool false, cs)
    | '"' :: cs => (readString cs).map fun (s, rest) => (.string s, rest)
    | '[' :: cs =>
      match skipBlanks cs with
      | ']' :: cs => some (.array [], cs)
      | cs => (readItems fuel cs).map fun (items, rest) => (.array items, rest)
    | '\x7b' :: cs =>
      match skipBlanks cs with
      | '\x7d' :: cs => some (.object [], cs)
      | cs => (readFields fuel cs).map fun (fields, rest) => (.object fields, rest)
    | '-' :: cs => readNumber true cs
    | cs => readNumber false cs

/-- The items of an array, one or more, and its closing bracket. -/
def readItems : (fuel : Nat) → List Char → Option (List Source × List Char)
  | 0, _ => none
  | fuel + 1, cs => do
    let (item, cs) ← readValue fuel cs
    match skipBlanks cs with
    | ']' :: cs => return ([item], cs)
    | ',' :: cs => do
      let (items, cs) ← readItems fuel cs
      return (item :: items, cs)
    | _ => none

/-- The fields of an object, one or more, and its closing brace. -/
def readFields : (fuel : Nat) → List Char → Option (List (Option String × Source) × List Char)
  | 0, _ => none
  | fuel + 1, cs =>
    match skipBlanks cs with
    | '"' :: cs => do
      let (name, cs) ← readString cs
      match skipBlanks cs with
      | ':' :: cs => do
        let (value, cs) ← readValue fuel cs
        match skipBlanks cs with
        | '\x7d' :: cs => return ([(name, value)], cs)
        | ',' :: cs => do
          let (fields, cs) ← readFields fuel cs
          return ((name, value) :: fields, cs)
        | _ => none
      | _ => none
    | _ => none

end

/-- Reads a text that is one value. Every second step of the recursion reads a character. -/
def read (text : String) : Option Source :=
  let cs := text.toList
  match readValue (2 * cs.length + 2) cs with
  | some (source, rest) => if (skipBlanks rest).isEmpty then some source else none
  | none => none

end Source

end OntoLogic.Json
