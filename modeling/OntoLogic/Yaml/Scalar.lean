-- SUMMARY: Places in YAML texts, and scalars.
import OntoLogic.Yaml.Basic

/-!
# Scalars

A scalar is written plainly, in quotes, or as a block of lines. Where a scalar goes over several
lines, a single line break stands for a blank and further ones for themselves.
-/

namespace OntoLogic.Yaml

/-! ## Places -/

/-- A place in a text: what is left, and the column of its first character. -/
structure Place where
  rest : List Char
  column : Nat
  deriving Inhabited

/-- The place after some characters of a line. -/
def Place.skip (n : Nat) (p : Place) : Place :=
  ⟨p.rest.drop n, p.column + n⟩

/-- Whether a character is a blank inside a line. -/
def isSpace (c : Char) : Bool :=
  c == ' ' || c == '\t'

/-- Whether nothing or a blank or a line break comes next. -/
def endsWord : List Char → Bool
  | [] => true
  | c :: _ => isSpace c || c == '\n'

/-- Whether a line starts with a mark between documents. -/
def isMarkerLine : List Char → Bool
  | '-' :: '-' :: '-' :: rest | '.' :: '.' :: '.' :: rest => endsWord rest
  | _ => false

/-- Whether a mark between documents comes next. -/
def Place.atMarker (p : Place) : Bool :=
  p.column == 0 && isMarkerLine p.rest

/-- What a number of line breaks inside a scalar stands for. -/
def foldBreaks (breaks : Nat) : List Char :=
  if breaks = 1 then [' '] else List.replicate (breaks - 1) '\n'

/-! ## Plain scalars -/

/-- Whether a character separates parts of a collection in brackets. -/
def isFlowMark (c : Char) : Bool :=
  [',', '[', ']', '\x7b', '\x7d'].contains c

def startsPlain (inFlow : Bool) : List Char → Bool
  | [] => false
  | c :: cs =>
    if c = '-' then !cs.isEmpty && !endsWord cs
    else if c = '?' || c = ':' then !inFlow && !endsWord cs
    else
      !(isSpace c || c == '\n' || isFlowMark c ||
        ['#', '&', '*', '!', '|', '>', '\'', '"', '%', '@', '\x60'].contains c)

/-- The part of a plain scalar on one line, without blanks at its end, and what follows it. -/
def plainRun (inFlow : Bool) : List Char → Option (List Char × List Char)
  | [] => some ([], [])
  | c :: cs =>
    if c = '\n' || (c = ':' && endsWord cs) || (inFlow && isFlowMark c) then some ([], c :: cs)
    else if inFlow && c = ':' && cs.head?.any fun d => isFlowMark d || d == '?' then none
    else if isSpace c && cs.head? = some '#' then some ([], c :: cs)
    else do
      let (run, rest) ← plainRun inFlow cs
      if isSpace c && run.isEmpty then return ([], c :: cs)
      return (c :: run, rest)

/-- Passes blanks and line breaks; the number of breaks and the place after them. A tab may not
stand in the first columns of a line. -/
def passBreaks (minColumn : Nat) :
    (breaks column : Nat) → List Char → Option (Nat × Place)
  | breaks, column, [] => some (breaks, ⟨[], column⟩)
  | breaks, column, c :: cs =>
    if c = '\n' then passBreaks minColumn (breaks + 1) 0 cs
    else if c = ' ' then passBreaks minColumn breaks (column + 1) cs
    else if c = '\t' then
      if 0 < breaks && column < minColumn then none
      else passBreaks minColumn breaks (column + 1) cs
    else some (breaks, ⟨c :: cs, column⟩)

/-- The lines of a plain scalar after the first. -/
def plainLines (inFlow : Bool) (minColumn : Nat) :
    (fuel : Nat) → Place → Option (List Char × Place)
  | 0, p => some ([], p)
  | fuel + 1, p => do
    let (breaks, q) ← passBreaks minColumn 0 p.column p.rest
    if breaks = 0 || q.atMarker || q.rest.head? = some '#' ||
        (!inFlow && q.column < minColumn) then
      return ([], p)
    let (run, rest) ← plainRun inFlow q.rest
    if run.isEmpty then return ([], p)
    let (lines, p) ← plainLines inFlow minColumn fuel ⟨rest, q.column + run.length⟩
    return (foldBreaks breaks ++ run ++ lines, p)

/-- A plain scalar. Lines after the first start at `minColumn` or later. -/
def plainScalar (inFlow : Bool) (minColumn : Nat) (p : Place) : Option (Yaml × Place) := do
  let (run, rest) ← plainRun inFlow p.rest
  let (lines, q) ← plainLines inFlow minColumn rest.length ⟨rest, p.column + run.length⟩
  return (.scalar true (String.ofList (run ++ lines)), q)

/-! ## Quoted scalars -/

/-- The character that a one-letter escape stands for. -/
def simpleEscape? : Char → Option Char
  | '0' => some '\x00'
  | 'a' => some '\x07'
  | 'b' => some '\x08'
  | 't' | '\t' => some '\t'
  | 'n' => some '\n'
  | 'v' => some '\x0b'
  | 'f' => some '\x0c'
  | 'r' => some '\r'
  | 'e' => some '\x1b'
  | ' ' => some ' '
  | '"' => some '"'
  | '/' => some '/'
  | '\\' => some '\\'
  | 'N' => some '\u0085'
  | '_' => some '\u00a0'
  | 'L' => some '\u2028'
  | 'P' => some '\u2029'
  | _ => none

/-- The number of hexadecimal digits of an escape. -/
def escapeWidth? : Char → Option Nat
  | 'x' => some 2
  | 'u' => some 4
  | 'U' => some 8
  | _ => none

/-- The character of an escape after its backslash, and what follows. -/
def readEscape : List Char → Option (Char × List Char)
  | [] => none
  | c :: cs =>
    match escapeWidth? c with
    | none => (simpleEscape? c).map (·, cs)
    | some width => do
      if cs.length < width then none
      else
        let n ← digits? 16 (cs.take width)
        if h : n.isValidChar then return (⟨n.toUInt32, by
          have : n < UInt32.size := by
            cases h with
            | inl h => exact Nat.lt_trans h (by decide)
            | inr h => exact Nat.lt_trans h.2 (by decide)
          simpa [UInt32.isValidChar, Nat.toUInt32, UInt32.toNat_ofNat_of_lt' this] using h⟩,
            cs.drop width)
        else none

/-- Blanks and line breaks in quotes: the blanks before the first break, the number of breaks, and
what follows them, unless a mark between documents does. -/
def spread : List Char → Option (List Char × Nat × List Char)
  | [] => some ([], 0, [])
  | c :: cs =>
    if c = '\n' then do
      if isMarkerLine cs then none
      else
        let (_, breaks, rest) ← spread cs
        return ([], breaks + 1, rest)
    else if isSpace c then do
      let (spaces, breaks, rest) ← spread cs
      return (c :: spaces, breaks, rest)
    else some ([], 0, c :: cs)

/-- The text of a scalar in quotes after its opening quote, and what follows its closing quote. -/
def quotedText (isDouble : Bool) : (fuel : Nat) → List Char → Option (List Char × List Char)
  | 0, _ => none
  | fuel + 1, cs =>
    let more (front rest : List Char) : Option (List Char × List Char) := do
      let (text, rest) ← quotedText isDouble fuel rest
      return (front ++ text, rest)
    match isDouble, cs with
    | _, [] => none
    | true, '"' :: rest => some ([], rest)
    | true, '\\' :: '\n' :: rest => do
      let (_, breaks, rest) ← spread rest
      more (List.replicate breaks '\n') rest
    | true, '\\' :: rest => do
      let (c, rest) ← readEscape rest
      more [c] rest
    | false, '\'' :: '\'' :: rest => more ['\''] rest
    | false, '\'' :: rest => some ([], rest)
    | _, c :: rest =>
      if endsWord (c :: rest) then do
        let (spaces, breaks, rest) ← spread (c :: rest)
        more (if breaks = 0 then spaces else foldBreaks breaks) rest
      else more [c] rest

/-- A scalar in quotes, and whether it stands on one line. -/
def quotedScalar (isDouble : Bool) (p : Place) : Option (Yaml × Bool × Place) := do
  let cs := p.rest.drop 1
  let (text, rest) ← quotedText isDouble (cs.length + 1) cs
  let written := p.rest.take (p.rest.length - rest.length)
  return (.scalar false (String.ofList text), !written.contains '\n',
    ⟨rest, p.column + written.length⟩)

/-! ## Blocks of lines -/

/-- What is done with the line breaks at the end of a block. -/
inductive Chomping where
  | strip
  | clip
  | keep
  deriving Inhabited, DecidableEq

/-- The first line of a block: how it ends, and by how much its lines are indented. -/
def blockHeader : List Char → Chomping × Option Nat × List Char
  | '-' :: cs => let (n, cs) := indentation cs; (.strip, n, cs)
  | '+' :: cs => let (n, cs) := indentation cs; (.keep, n, cs)
  | cs =>
    match indentation cs with
    | (n, '-' :: cs) => (.strip, n, cs)
    | (n, '+' :: cs) => (.keep, n, cs)
    | (n, cs) => (.clip, n, cs)
where
  /-- A digit that tells the indentation. -/
  indentation : List Char → Option Nat × List Char
    | c :: cs => if '1' ≤ c && c ≤ '9' then (some (c.toNat - 48), cs) else (none, c :: cs)
    | [] => (none, [])

/-- The lines of a text; the last one has no line break. -/
def linesOf : List Char → List (List Char)
  | [] => [[]]
  | '\n' :: cs => [] :: linesOf cs
  | c :: cs =>
    match linesOf cs with
    | line :: lines => (c :: line) :: lines
    | [] => [[c]]

/-- The number of blanks at the front of a line. -/
def indentOf (line : List Char) : Nat :=
  (line.takeWhile (· == ' ')).length

/-- The indentation of a block: that of its first line with text, or of a longer line without. -/
def detectIndent : (widest : Nat) → List (List Char) → Nat
  | widest, [] => widest
  | widest, line :: lines =>
    if (line.dropWhile (· == ' ')).isEmpty then detectIndent (max widest (indentOf line)) lines
    else max widest (indentOf line)

/-- The lines of a block without their indentation, and the lines that follow it. -/
def blockLines (indent : Nat) : List (List Char) → List (List Char) × List (List Char)
  | [] => ([], [])
  | line :: lines =>
    if indent ≤ indentOf line || (line.dropWhile (· == ' ')).isEmpty then
      let (block, rest) := blockLines indent lines
      (line.drop indent :: block, rest)
    else ([], line :: lines)

/-- The line breaks between two lines of a block with some empty lines between them. -/
def blockBreaks (isFolded : Bool) (before after : List Char) (empty : Nat) : List Char :=
  let startsBlank (line : List Char) : Bool := line.head?.any isSpace
  if isFolded && !startsBlank before && !startsBlank after then foldBreaks (empty + 1)
  else List.replicate (empty + 1) '\n'

/-- Joins the lines of a block that come after a line with text; the text, and the number of empty
lines at the end. -/
def joinBlock (isFolded : Bool) :
    (before : List Char) → (empty : Nat) → List (List Char) → List Char × Nat
  | _, empty, [] => ([], empty)
  | before, empty, [] :: lines => joinBlock isFolded before (empty + 1) lines
  | before, empty, line :: lines =>
    let (text, ending) := joinBlock isFolded line 0 lines
    (blockBreaks isFolded before line empty ++ line ++ text, ending)

/-- The text of the lines of a block. `isOpen` tells that no line break ends the last line. -/
def blockText (isFolded isOpen : Bool) (chomping : Chomping) (lines : List (List Char)) :
    List Char :=
  let front := (lines.takeWhile List.isEmpty).length
  match lines.drop front with
  | [] => if chomping = .keep then List.replicate front '\n' else []
  | line :: rest =>
    let (text, empty) := joinBlock isFolded line 0 rest
    let lastBreak := if isOpen && empty = 0 then [] else ['\n']
    let ending :=
      match chomping with
      | .strip => []
      | .clip => lastBreak
      | .keep => lastBreak ++ List.replicate empty '\n'
    List.replicate front '\n' ++ line ++ text ++ ending

/-- A scalar written as a block of lines, after the bar or the arrow at its start. -/
def blockScalar (isFolded : Bool) (minColumn : Nat) (p : Place) : Option (Yaml × Place) :=
  let (chomping, explicit, cs) := blockHeader p.rest
  let header := cs.dropWhile isSpace
  if !(header.isEmpty || header.head? = some '\n' || header.head? = some '#') then none
  else
    match linesOf header with
    | [] | [_] => some (.scalar false "", ⟨[], 0⟩)
    | _ :: lines =>
      let indent :=
        match explicit with
        | some n => minColumn - 1 + n
        | none => max 1 (max minColumn (detectIndent 0 lines))
      let (block, rest) := blockLines indent lines
      let (block, isOpen) :=
        if rest.isEmpty then
          if block.getLast? = some [] then (block.dropLast, false) else (block, true)
        else (block, false)
      some (.scalar false (String.ofList (blockText isFolded isOpen chomping block)),
        ⟨rest.flatMap ('\n' :: ·), 0⟩)

end OntoLogic.Yaml
