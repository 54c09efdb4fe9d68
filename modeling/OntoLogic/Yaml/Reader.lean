-- SUMMARY: Reading YAML documents.
import OntoLogic.Yaml.Scalar

/-!
# Reading documents

A document is read with one character of foresight. The column at which a part starts tells what it
belongs to: the entries of a mapping and the items of a sequence each start at the same column, and
what belongs to an entry starts further to the right. Inside of brackets columns do not matter.
Anchors, tags and keys that are not scalars are not read.
-/

namespace OntoLogic.Yaml

/-! ## Gaps -/

/-- What comes after blanks, comments and line breaks. -/
structure Gap where
  place : Place
  /-- Whether a line break was passed. -/
  crossed : Bool

/-- Passes blanks, comments and line breaks. Tabs count as blanks where `tabs` holds; after a line
break they do so only inside of brackets. -/
def gapFrom (inFlow : Bool) :
    (tabs inComment crossed : Bool) → (column : Nat) → List Char → Gap
  | _, _, crossed, column, [] => ⟨⟨[], column⟩, crossed⟩
  | tabs, inComment, crossed, column, c :: cs =>
    if c = '\n' then gapFrom inFlow inFlow false true 0 cs
    else if inComment then gapFrom inFlow tabs true crossed (column + 1) cs
    else if c = ' ' || (c = '\t' && tabs) then gapFrom inFlow tabs false crossed (column + 1) cs
    else if c = '#' then gapFrom inFlow tabs true crossed (column + 1) cs
    else ⟨⟨c :: cs, column⟩, crossed⟩

/-- The gap at a place in a block. -/
def Place.gap (tabs : Bool) (p : Place) : Gap :=
  gapFrom false tabs false false p.column p.rest

/-- The place after a gap inside of brackets. -/
def Place.flowGap (p : Place) : Place :=
  (gapFrom true true false false p.column p.rest).place

/-- The place of the next part, if nothing else stands on the line. -/
def Place.finish (p : Place) : Option Place :=
  let gap := p.gap true
  if gap.crossed || gap.place.rest.isEmpty then some gap.place else none

/-! ## Collections in brackets -/

mutual

/-- A node inside of brackets, or a collection in brackets. -/
def flowNode : (fuel : Nat) → Place → Option (Yaml × Place)
  | 0, _ => none
  | fuel + 1, p =>
    if p.atMarker then none
    else
      match p.rest with
      | '[' :: _ => do
        let (items, q) ← flowItems fuel (p.skip 1).flowGap
        return (.sequence items, q)
      | '\x7b' :: _ => do
        let (entries, q) ← flowEntries fuel (p.skip 1).flowGap
        return (.mapping entries, q)
      | '"' :: _ => do
        let (s, _, q) ← quotedScalar true p
        return (s, q)
      | '\'' :: _ => do
        let (s, _, q) ← quotedScalar false p
        return (s, q)
      | cs => if startsPlain true cs then plainScalar true 0 p else none

/-- The items of a sequence and its closing bracket. -/
def flowItems : (fuel : Nat) → Place → Option (List Yaml × Place)
  | 0, _ => none
  | fuel + 1, p =>
    match p.rest with
    | ']' :: _ => some ([], p.skip 1)
    | _ => do
      let (item, q) ← flowNode fuel p
      let q := q.flowGap
      match q.rest with
      | ']' :: _ => return ([item], q.skip 1)
      | ',' :: _ => do
        let (items, q) ← flowItems fuel (q.skip 1).flowGap
        return (item :: items, q)
      | _ => none

/-- The entries of a mapping and its closing brace. -/
def flowEntries : (fuel : Nat) → Place → Option (List (Yaml × Yaml) × Place)
  | 0, _ => none
  | fuel + 1, p =>
    match p.rest with
    | '\x7d' :: _ => some ([], p.skip 1)
    | _ => do
      let (key, q) ← flowNode fuel p
      let (value, q) ← flowValue fuel q.flowGap
      let q := q.flowGap
      match q.rest with
      | '\x7d' :: _ => return ([(key, value)], q.skip 1)
      | ',' :: _ => do
        let (entries, q) ← flowEntries fuel (q.skip 1).flowGap
        return ((key, value) :: entries, q)
      | _ => none

/-- The value of an entry, which may be missing. -/
def flowValue : (fuel : Nat) → Place → Option (Yaml × Place)
  | 0, _ => none
  | fuel + 1, p =>
    match p.rest with
    | ':' :: _ =>
      let q := (p.skip 1).flowGap
      match q.rest with
      | ',' :: _ | '\x7d' :: _ => some (nothing, q)
      | _ => flowNode fuel q
    | _ => some (nothing, p)

end

/-! ## Blocks -/

def startsItem : List Char → Bool
  | '-' :: cs => endsWord cs
  | _ => false

/-- The key of an entry, if one starts here, and the place after its colon. -/
def keyAt? (p : Place) : Option (Yaml × Place) := do
  let (key, q) ←
    match p.rest with
    | '"' :: _ => oneLine (← quotedScalar true p)
    | '\'' :: _ => oneLine (← quotedScalar false p)
    | cs =>
      if startsPlain false cs then do
        let (run, rest) ← plainRun false cs
        pure (.scalar true (String.ofList run), (⟨rest, p.column + run.length⟩ : Place))
      else none
  let spaces := (q.rest.takeWhile isSpace).length
  match q.rest.drop spaces with
  | ':' :: rest => if endsWord rest then return (key, q.skip (spaces + 1)) else none
  | _ => none
where
  /-- A quoted scalar that is a key. -/
  oneLine : Yaml × Bool × Place → Option (Yaml × Place)
    | (key, isOneLine, q) => if isOneLine then some (key, q) else none

/-- A scalar or a collection in brackets. -/
def inlineNode (minColumn : Nat) (p : Place) : Option (Yaml × Place) :=
  match p.rest with
  | '|' :: _ => blockScalar false minColumn (p.skip 1)
  | '>' :: _ => blockScalar true minColumn (p.skip 1)
  | '[' :: _ | '\x7b' :: _ | '"' :: _ | '\'' :: _ => flowNode (2 * p.rest.length + 2) p
  | cs => if startsPlain false cs then plainScalar false minColumn p else none

mutual

/-- A node and the place of the next part. Only where `isBlock` holds it may be a mapping or a
sequence without brackets. -/
def blockNode : (fuel : Nat) → (isBlock : Bool) → (minColumn : Nat) → Place →
    Option (Yaml × Place)
  | 0, _, _, _ => none
  | fuel + 1, isBlock, minColumn, p =>
    if isBlock && startsItem p.rest then do
      let (items, q) ← blockItems fuel p.column p
      return (.sequence items, q)
    else if isBlock && (keyAt? p).isSome then do
      let (entries, q) ← blockEntries fuel p.column p
      return (.mapping entries, q)
    else do
      let (node, q) ← inlineNode minColumn p
      return (node, ← q.finish)

/-- The items of a sequence that starts at a column. -/
def blockItems : (fuel : Nat) → (column : Nat) → Place → Option (List Yaml × Place)
  | 0, _, _ => none
  | fuel + 1, column, p => do
    let gap := (p.skip 1).gap false
    let q := gap.place
    let (item, q) ←
      if q.rest.isEmpty || (gap.crossed && q.column ≤ column) then some (nothing, q)
      else blockNode fuel true (column + 1) q
    if q.column = column && !q.atMarker && startsItem q.rest then do
      let (items, q) ← blockItems fuel column q
      return (item :: items, q)
    else return ([item], q)

/-- The entries of a mapping that starts at a column. -/
def blockEntries : (fuel : Nat) → (column : Nat) → Place → Option (List (Yaml × Yaml) × Place)
  | 0, _, _ => none
  | fuel + 1, column, p => do
    let (key, q) ← keyAt? p
    let gap := q.gap true
    let q := gap.place
    let (value, q) ←
      if q.rest.isEmpty || q.atMarker then some (nothing, q)
      else if !gap.crossed then blockNode fuel false (column + 1) q
      else if column < q.column then blockNode fuel true (column + 1) q
      else if q.column = column && startsItem q.rest then
        (blockItems fuel column q).map fun (items, q) => (.sequence items, q)
      else some (nothing, q)
    if q.column = column && !q.atMarker && !q.rest.isEmpty then do
      let (entries, q) ← blockEntries fuel column q
      return ((key, value) :: entries, q)
    else return ([(key, value)], q)

end

/-! ## Documents -/

/-- Whether a character may stand in a document. -/
def isAllowed (c : Char) : Bool :=
  let n := c.toNat
  n = 0x09 || n = 0x0A || (0x20 ≤ n && n ≤ 0x7E) || (0xA0 ≤ n && n ≤ 0xFFFD && n ≠ 0xFEFF) ||
    0x10000 ≤ n

/-- A text with one form of line breaks. -/
def normalizeBreaks : List Char → List Char
  | '\r' :: '\n' :: cs => '\n' :: normalizeBreaks cs
  | '\r' :: cs | '\u0085' :: cs => '\n' :: normalizeBreaks cs
  | c :: cs => c :: normalizeBreaks cs
  | [] => []

/-- Whether nothing follows but a mark of the end. -/
def atEnd (p : Place) : Bool :=
  p.rest.isEmpty ||
    (p.atMarker && p.rest.head? = some '.' && ((p.skip 3).gap true).place.rest.isEmpty)

/-- The document from a place after its opening mark. -/
def readFrom (isBlock : Bool) (p : Place) : Option Yaml :=
  if atEnd p then some nothing
  else if p.atMarker then none
  else do
    let (node, q) ← blockNode (2 * p.rest.length + 2) isBlock 0 p
    if atEnd q then some node else none

/-- Reads a text that holds one document. A text without one stands for nothing. -/
def read (text : String) : Option Yaml :=
  let cs :=
    match text.toList with
    | '\ufeff' :: cs => normalizeBreaks cs
    | cs => normalizeBreaks cs
  if !cs.all isAllowed then none
  else
    let p := ((⟨cs, 0⟩ : Place).gap false).place
    if p.atMarker && p.rest.head? = some '-' then
      let gap := (p.skip 3).gap true
      readFrom gap.crossed gap.place
    else readFrom true p

end OntoLogic.Yaml
