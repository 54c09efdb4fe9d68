-- SUMMARY: Points in time and their written form.
import OntoLogic.Text.Blank

/-!
# Points in time

A point in time is written as a date, a time of day and `Z`, with no fraction or one of three, six
or nine digits. Other spellings are read too: blanks between the parts, a blank or a small `t`
between date and time, a fraction of any length, and an offset from universal time. Second 60 is a
leap second: it belongs to second 59 and has a second more of nanoseconds.
-/

namespace OntoLogic

structure Timestamp where
  /-- The seconds since the start of 1970, without leap seconds. -/
  seconds : Int
  /-- The nanoseconds of the second; a leap second has more than a second of them. -/
  nanos : Nat
  deriving Inhabited, DecidableEq

namespace Timestamp

/-! ## The calendar -/

/-- The days from the first of March of year 0 to a date, where the year starts with March. -/
def daysFromMarch (year month day : Int) : Int :=
  let y := if month ≤ 2 then year - 1 else year
  let m := if month ≤ 2 then month + 9 else month - 3
  365 * y + Int.fdiv y 4 - Int.fdiv y 100 + Int.fdiv y 400 + Int.fdiv (153 * m + 2) 5 + day - 1

/-- The days from the start of 1970 to a date. -/
def daysOf (year month day : Int) : Int :=
  daysFromMarch year month day - daysFromMarch 1970 1 1

/-- The year, the month and the day of the date that is `days` after the start of 1970. -/
def dateOf (days : Int) : Int × Int × Int :=
  let z := days + daysFromMarch 1970 1 1
  let era := Int.fdiv z 146097
  let doe := z - 146097 * era
  let yoe := Int.fdiv (doe - Int.fdiv doe 1460 + Int.fdiv doe 36524 - Int.fdiv doe 146096) 365
  let doy := doe - (365 * yoe + Int.fdiv yoe 4 - Int.fdiv yoe 100)
  let mp := Int.fdiv (5 * doy + 2) 153
  let day := doy - Int.fdiv (153 * mp + 2) 5 + 1
  let month := if mp < 10 then mp + 3 else mp - 9
  (yoe + 400 * era + (if month ≤ 2 then 1 else 0), month, day)

/-- Whether a year has a 29th of February. -/
def isLeapYear (year : Int) : Bool :=
  year % 4 == 0 && (year % 100 != 0 || year % 400 == 0)

def daysInMonth (year : Int) (month : Nat) : Nat :=
  if month = 2 then (if isLeapYear year then 29 else 28)
  else if month = 4 || month = 6 || month = 9 || month = 11 then 30
  else 31

/-! ## Writing -/

/-- A number with zeros in front up to a width. -/
def padded (width n : Nat) : String :=
  let digits := toString n
  String.ofList (List.replicate (width - digits.length) '0') ++ digits

/-- A year: four digits, or a sign and at least four digits. -/
def yearText (year : Int) : String :=
  if 0 ≤ year && year ≤ 9999 then padded 4 year.toNat
  else (if 0 ≤ year then "+" else "-") ++ padded 4 year.natAbs

/-- A fraction of a second: nothing, milliseconds, microseconds or nanoseconds. -/
def fractionText (nanos : Nat) : String :=
  if nanos = 0 then ""
  else if nanos % 1000000 = 0 then "." ++ padded 3 (nanos / 1000000)
  else if nanos % 1000 = 0 then "." ++ padded 6 (nanos / 1000)
  else "." ++ padded 9 nanos

def text (t : Timestamp) : String :=
  let (year, month, day) := dateOf (Int.fdiv t.seconds 86400)
  let second := (Int.fmod t.seconds 86400).toNat
  let isLeap := 1000000000 ≤ t.nanos
  yearText year ++ "-" ++ padded 2 month.toNat ++ "-" ++ padded 2 day.toNat ++ "T" ++
    padded 2 (second / 3600) ++ ":" ++ padded 2 (second / 60 % 60) ++ ":" ++
    padded 2 (second % 60 + if isLeap then 1 else 0) ++
    fractionText (if isLeap then t.nanos - 1000000000 else t.nanos) ++ "Z"

/-! ## Reading -/

def skipBlanks (cs : List Char) : List Char :=
  cs.dropWhile Text.isBlank

def digitsValue (cs : List Char) : Nat :=
  cs.foldl (fun n c => 10 * n + (c.toNat - 48)) 0

/-- A number of one digit or more. -/
def readDigits (cs : List Char) : Option (Nat × List Char) :=
  match cs.takeWhile Char.isDigit with
  | [] => none
  | digits => some (digitsValue digits, cs.dropWhile Char.isDigit)

/-- A number of at most `width` digits, after blanks. -/
def readUpTo (width : Nat) (cs : List Char) : Option (Nat × List Char) :=
  let cs := skipBlanks cs
  match (cs.take width).takeWhile Char.isDigit with
  | [] => none
  | digits => some (digitsValue digits, cs.drop digits.length)

/-- A year: up to four digits, or a sign and any number of digits. -/
def readYear (cs : List Char) : Option (Int × List Char) :=
  match skipBlanks cs with
  | '-' :: cs => (readDigits cs).map fun (n, cs) => (-(n : Int), cs)
  | '+' :: cs => (readDigits cs).map fun (n, cs) => ((n : Int), cs)
  | cs => (readUpTo 4 cs).map fun (n, cs) => ((n : Int), cs)

/-- A character after blanks. -/
def readMark (mark : Char) (cs : List Char) : Option (List Char) :=
  match skipBlanks cs with
  | c :: cs => if c = mark then some cs else none
  | [] => none

/-- A fraction of a second in nanoseconds; digits after the ninth do not count. -/
def readFraction (cs : List Char) : Option (Nat × List Char) :=
  match cs with
  | '.' :: cs =>
    let digits := (cs.take 9).takeWhile Char.isDigit
    if digits.isEmpty then none
    else
      some (digitsValue digits * Nat.pow 10 (9 - digits.length),
        (cs.drop digits.length).dropWhile Char.isDigit)
  | cs => some (0, cs)

/-- An offset from universal time in seconds. -/
def readOffset (cs : List Char) : Option (Int × List Char) :=
  match cs with
  | c :: rest =>
    if c = 'Z' || c = 'z' then some (0, rest)
    else if (cs.take 3).map Char.toUpper = ['U', 'T', 'C'] then some (0, cs.drop 3)
    else if c = '+' || c = '-' || c = '\u2212' then
      match rest with
      | h :: h' :: rest =>
        match rest.dropWhile fun c => c == ':' || Text.isBlank c with
        | m :: m' :: after =>
          if [h, h', m, m'].all Char.isDigit && m ≤ '5' then
            let size : Int := digitsValue [h, h'] * 3600 + digitsValue [m, m'] * 60
            if size < 86400 then some (if c = '+' then size else -size, after) else none
          else none
        | _ => none
      | _ => none
    else none
  | [] => none

/-- The point in time of a date, a time of day and an offset. -/
def ofParts? (year : Int) (month day hour minute second nanos : Nat) (offset : Int) :
    Option Timestamp :=
  if -262143 ≤ year && year ≤ 262142 && 1 ≤ month && month ≤ 12 && 1 ≤ day &&
      day ≤ daysInMonth year month && hour ≤ 23 && minute ≤ 59 && second ≤ 60 then
    let isLeap := second == 60
    some {
      seconds := daysOf year month day * 86400 + hour * 3600 + minute * 60 +
        (if isLeap then 59 else second) - offset
      nanos := if isLeap then nanos + 1000000000 else nanos }
  else none

def ofString? (s : String) : Option Timestamp := do
  let (year, cs) ← readYear s.toList
  let (month, cs) ← readUpTo 2 (← readMark '-' cs)
  let (day, cs) ← readUpTo 2 (← readMark '-' cs)
  match cs with
  | c :: cs =>
    if c = 'T' || c = 't' || c = ' ' then do
      let (hour, cs) ← readUpTo 2 cs
      let (minute, cs) ← readUpTo 2 (← readMark ':' cs)
      let (second, cs) ← readUpTo 2 (← readMark ':' cs)
      let (nanos, cs) ← readFraction cs
      let (offset, cs) ← readOffset (skipBlanks cs)
      if (skipBlanks cs).isEmpty then ofParts? year month day hour minute second nanos offset
      else none
    else none
  | [] => none

end Timestamp

end OntoLogic
