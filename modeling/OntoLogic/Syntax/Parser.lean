-- SUMMARY: From tokens to terms, goals, clauses and queries.
import OntoLogic.Syntax.Token

/-!
# Reading clauses and queries

The grammar, where `[x]` is optional and `{x}` is any number of times:

* clause: term, [`:-` goals], `.`
* query: goals, [`.`]
* goals: goal, {`,` goal}
* goal: `\+` goal, or term [(`=` or `\=`) term]
* term: an atom, an atom with arguments in parentheses, a variable, a number, a string,
  a bracketed list with an optional tail after `|`, or a term in parentheses

The head of a clause and a goal that stands alone must be an atom or a compound. Every term and
every `\+` opens a level; there are at most `maxNesting` levels, and the functions recurse on the
number of levels that are left. Each `_` becomes a variable of its own: the `n`th one of a text is
named `_#n`.
-/

namespace OntoLogic

/-- A place in a token sequence. -/
structure Cursor where
  /-- The tokens that have not been read. -/
  tokens : List (Token × Nat)
  /-- The byte length of the whole text. -/
  endOffset : Nat
  /-- How many anonymous variables have been read. -/
  anonymous : Nat

namespace Cursor

/-! ## Looking at the next token -/

/-- The position of the next token, or the end of the text. -/
def offset (c : Cursor) : Nat :=
  match c.tokens with
  | [] => c.endOffset
  | (_, offset) :: _ => offset

/-- How an error message names what comes next. -/
def found (c : Cursor) : String :=
  match c.tokens with
  | [] => "end of input"
  | (token, _) :: _ => token.describe

/-- The error of a cursor where `what` has to stand. -/
def expected (c : Cursor) (what : String) : ParseError :=
  .expected what c.found c.offset

/-- Reads one token if it is the given one. -/
def eat (c : Cursor) (token : Token) : Option Cursor :=
  match c.tokens with
  | [] => none
  | (next, _) :: rest => if next = token then some { c with tokens := rest } else none

def expect (c : Cursor) (token : Token) (what : String) : Except ParseError Cursor :=
  match c.eat token with
  | some c => .ok c
  | none => .error (c.expected what)

/-- Nothing is left to read. -/
def finish (c : Cursor) : Except ParseError Unit :=
  if c.tokens.isEmpty then .ok () else .error (c.expected "end of input")

/-! ## Sequences -/

/-- One item or more, separated by commas. Every comma is a token, so `limit` items are enough when
`limit` exceeds the number of tokens. -/
def sequenceUpTo {α : Type} (item : Cursor → Except ParseError (α × Cursor)) :
    (limit : Nat) → Cursor → Except ParseError (List α × Cursor)
  | 0, c => .error (c.expected "a term")
  | limit + 1, c =>
    match item c with
    | .error e => .error e
    | .ok (x, c) =>
      match c.eat .comma with
      | none => .ok ([x], c)
      | some c =>
        match sequenceUpTo item limit c with
        | .error e => .error e
        | .ok (xs, c) => .ok (x :: xs, c)

def sequence {α : Type} (item : Cursor → Except ParseError (α × Cursor)) (c : Cursor) :
    Except ParseError (List α × Cursor) :=
  sequenceUpTo item (c.tokens.length + 1) c

/-! ## Terms -/

/-- The name of the `n`th anonymous variable. -/
def anonymousName (n : Nat) : String :=
  "_#" ++ toString n

/-- A term, with `levels` levels of nesting left. -/
def term : (levels : Nat) → Cursor → Except ParseError (Term × Cursor)
  | 0, c => .error (.tooDeep c.offset)
  | levels + 1, c =>
    match c.tokens with
    | [] => .error (c.expected "a term")
    | (token, _) :: rest =>
      let next := { c with tokens := rest }
      match token with
      | .atom name =>
        match next.eat .leftParen with
        | none => .ok (.atom name, next)
        | some next => do
          let (args, next) ← next.sequence (term levels)
          let next ← next.expect .rightParen "`,` or `)`"
          return (.compound name args, next)
      | .var name =>
        if name = "_" then
          .ok (.var (anonymousName (c.anonymous + 1)), { next with anonymous := c.anonymous + 1 })
        else .ok (.var name, next)
      | .number spelling => .ok (.number spelling, next)
      | .string text => .ok (.string text, next)
      | .leftBracket =>
        match next.eat .rightBracket with
        | some next => .ok (.nil, next)
        | none => do
          let (items, next) ← next.sequence (term levels)
          let (tail, next) ←
            match next.eat .bar with
            | some next => term levels next
            | none => pure (.nil, next)
          let next ← next.expect .rightBracket "`,`, `|` or `]`"
          return (.list items tail, next)
      | .leftParen => do
        let (inner, next) ← term levels next
        let next ← next.expect .rightParen "`)`"
        return (inner, next)
      | _ => .error (c.expected "a term")

/-! ## Goals -/

/-- A goal that is not a negation, with `levels` levels of nesting left. -/
def plainGoal (levels : Nat) (c : Cursor) : Except ParseError (Goal × Cursor) := do
  let (left, c) ← c.term levels
  match c.eat .eq with
  | some c => do
    let (right, c) ← c.term levels
    return (.unify left right, c)
  | none =>
    match c.eat .notEq with
    | some c => do
      let (right, c) ← c.term levels
      return (.notUnify left right, c)
    | none =>
      if left.functor?.isSome then return (.call left, c)
      else throw (.notCallable left.text)

def goal : (levels : Nat) → Cursor → Except ParseError (Goal × Cursor)
  | 0, c =>
    match c.eat .not with
    | some c => .error (.tooDeep c.offset)
    | none => c.plainGoal 0
  | levels + 1, c =>
    match c.eat .not with
    | some c => do
      let (inner, c) ← goal levels c
      return (.not inner, c)
    | none => c.plainGoal (levels + 1)

def goals (c : Cursor) : Except ParseError (List Goal × Cursor) :=
  c.sequence (goal maxNesting)

/-! ## Whole texts -/

/-- The body of a clause whose head has been read; a fact has none. -/
def body (c : Cursor) : Except ParseError (List Goal × Cursor) :=
  match c.eat .neck with
  | none => .ok ([], c)
  | some c =>
    if c.tokens.isEmpty || (c.eat .period).isSome then .error .emptyBody else c.goals

/-- The period at the end of a clause. -/
def period (c : Cursor) : Except ParseError Cursor :=
  if c.tokens.isEmpty then .error .missingPeriod else c.expect .period "`,` or `.`"

/-- A clause and nothing after it. -/
def clause (c : Cursor) : Except ParseError Clause := do
  let (head, c) ← c.term maxNesting
  if head.functor?.isNone then
    throw (.invalidHead head.text)
  let (body, c) ← c.body
  let c ← c.period
  c.finish
  return { head, body }

/-- A query and nothing after it. -/
def query (c : Cursor) : Except ParseError Query := do
  let (goals, c) ← c.goals
  ((c.eat .period).getD c).finish
  return { goals }

/-- The start of a text that has at least one token. -/
def ofText (text : String) : Except ParseError Cursor := do
  let tokens ← Token.scan text
  if tokens.isEmpty then
    throw .empty
  return { tokens, endOffset := text.utf8ByteSize, anonymous := 0 }

end Cursor

/-- Reads a fact or a rule; it has to end with a period. -/
def Clause.parse (text : String) : Except ParseError Clause := do
  (← Cursor.ofText text).clause

/-- Reads a query; it may end with a period. -/
def Query.parse (text : String) : Except ParseError Query := do
  (← Cursor.ofText text).query

/-- Whether a text is a clause or a query. -/
def isWellFormed (text : String) : Bool :=
  (Clause.parse text).isOk || (Query.parse text).isOk

end OntoLogic
