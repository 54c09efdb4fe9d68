-- SUMMARY: Texts with places that are filled in.
import OntoLogic.Text.Blank

/-!
# Templates

A template is text with tags. `{{ … }}` is replaced by the value of an expression, `{% if … %}` with
`elif`, `else` and `endif` chooses among texts, and `{# … #}` is left out. A minus sign inside the
braces of a tag removes the blanks on that side of the tag. Expressions are whole numbers, texts and
truth values, sums, differences and products, and the values of environment variables. No other
variables are defined.
-/

namespace OntoLogic.Template

/-- A value of an expression. -/
inductive Value where
  | int (n : Int)
  | text (s : String)
  | bool (b : Bool)
  deriving Inhabited, DecidableEq

def Value.shown : Value → String
  | .int n => toString n
  | .text s => s
  | .bool b => if b then "true" else "false"

def Value.isTrue : Value → Bool
  | .int n => n != 0
  | .text s => !s.isEmpty
  | .bool b => b

/-- An operation on whole numbers. -/
inductive Operator where
  | sum
  | difference
  | product
  deriving Inhabited, DecidableEq

/-- The result of an operation, unless it does not fit into 64 bits. -/
def Operator.apply (op : Operator) (x y : Int) : Option Int :=
  let z :=
    match op with
    | .sum => x + y
    | .difference => x - y
    | .product => x * y
  if -9223372036854775808 ≤ z && z < 9223372036854775808 then some z else none

inductive Expression where
  | value (v : Value)
  | variable (name : String)
  | operation (op : Operator) (left right : Expression)
  /-- A call of a function with named arguments. -/
  | call (name : String) (args : List (String × Expression))
  deriving Inhabited

/-! ## Reading expressions -/

def skipBlanks (cs : List Char) : List Char :=
  cs.dropWhile fun c => c == ' ' || c == '\t' || c == '\n' || c == '\r'

def isNameChar (c : Char) : Bool :=
  c.isAlphanum || c == '_'

def isQuote (c : Char) : Bool :=
  c == '"' || c == '\'' || c == '\x60'

/-- The number that digits spell. A zero can only be the first digit when it is the only one. -/
def readNumber (cs : List Char) : Option (Int × List Char) :=
  match cs with
  | '0' :: rest => some (0, rest)
  | _ =>
    let digits := cs.takeWhile Char.isDigit
    if digits.isEmpty then none
    else some (digits.foldl (fun n c => 10 * n + (c.toNat - 48)) 0, cs.dropWhile Char.isDigit)

mutual

/-- Sums and differences. -/
def readSum : (fuel : Nat) → List Char → Option (Expression × List Char)
  | 0, _ => none
  | fuel + 1, cs => do
    let (left, rest) ← readProduct fuel cs
    readSumTail fuel left rest

/-- The summands that follow an expression. -/
def readSumTail : (fuel : Nat) → Expression → List Char → Option (Expression × List Char)
  | 0, _, _ => none
  | fuel + 1, left, cs =>
    match skipBlanks cs with
    | '+' :: rest => do
      let (right, rest) ← readProduct fuel rest
      readSumTail fuel (.operation .sum left right) rest
    | '-' :: rest => do
      let (right, rest) ← readProduct fuel rest
      readSumTail fuel (.operation .difference left right) rest
    | rest => some (left, rest)

def readProduct : (fuel : Nat) → List Char → Option (Expression × List Char)
  | 0, _ => none
  | fuel + 1, cs => do
    let (left, rest) ← readOperand fuel cs
    readProductTail fuel left rest

/-- The factors that follow an expression. -/
def readProductTail : (fuel : Nat) → Expression → List Char → Option (Expression × List Char)
  | 0, _, _ => none
  | fuel + 1, left, cs =>
    match skipBlanks cs with
    | '*' :: rest => do
      let (right, rest) ← readOperand fuel rest
      readProductTail fuel (.operation .product left right) rest
    | rest => some (left, rest)

/-- A value, a variable, a call, or an expression in parentheses. -/
def readOperand : (fuel : Nat) → List Char → Option (Expression × List Char)
  | 0, _ => none
  | fuel + 1, cs =>
    match skipBlanks cs with
    | [] => none
    | '(' :: rest => do
      let (e, rest) ← readSum fuel rest
      match skipBlanks rest with
      | ')' :: rest => return (e, rest)
      | _ => none
    | '-' :: rest => do
      let (n, rest) ← readNumber rest
      return (.value (.int (-n)), rest)
    | c :: rest =>
      if isQuote c then
        match rest.dropWhile (· != c) with
        | [] => none
        | _ :: after => some (.value (.text (String.ofList (rest.takeWhile (· != c)))), after)
      else if c.isDigit then do
        let (n, rest) ← readNumber (c :: rest)
        return (.value (.int n), rest)
      else if c.isAlpha || c = '_' then
        let name := String.ofList ((c :: rest).takeWhile isNameChar)
        let rest := (c :: rest).dropWhile isNameChar
        match rest with
        | '(' :: rest =>
          match skipBlanks rest with
          | ')' :: rest => some (.call name [], rest)
          | rest => do
            let (args, rest) ← readArguments fuel rest
            return (.call name args, rest)
        | _ =>
          if name = "true" || name = "True" then some (.value (.bool true), rest)
          else if name = "false" || name = "False" then some (.value (.bool false), rest)
          else some (.variable name, rest)
      else none

/-- The arguments of a call, one or more, and its closing parenthesis. -/
def readArguments : (fuel : Nat) → List Char → Option (List (String × Expression) × List Char)
  | 0, _ => none
  | fuel + 1, cs =>
    let cs := skipBlanks cs
    let name := String.ofList (cs.takeWhile isNameChar)
    match skipBlanks (cs.dropWhile isNameChar) with
    | '=' :: rest => do
      let (e, rest) ← readSum fuel rest
      match skipBlanks rest with
      | ')' :: rest => return ([(name, e)], rest)
      | ',' :: rest =>
        match skipBlanks rest with
        | ')' :: rest => return ([(name, e)], rest)
        | rest => do
          let (args, rest) ← readArguments fuel rest
          return ((name, e) :: args, rest)
      | _ => none
    | _ => none

end

/-- The expression that a whole text spells. Reading a character takes at most five steps. -/
def Expression.read (cs : List Char) : Option Expression := do
  let (e, rest) ← readSum (5 * cs.length + 5) cs
  if (skipBlanks rest).isEmpty then some e else none

/-! ## Evaluating expressions -/

mutual

/-- The value of an expression in an environment. -/
def Expression.eval? (environment : String → Option String) : Expression → Option Value
  | .value v => v
  | .variable _ => none
  | .operation op left right => do
    match ← left.eval? environment, ← right.eval? environment with
    | .int x, .int y => return .int (← op.apply x y)
    | _, _ => none
  | .call name args => do
    let values ← evalArguments environment args
    if name ≠ "get_env" then none
    else
      match values.lookup "name" with
      | some (.text name) =>
        match environment name with
        | some text => return .text text
        | none => values.lookup "default"
      | _ => none

def evalArguments (environment : String → Option String) :
    List (String × Expression) → Option (List (String × Value))
  | [] => some []
  | (name, e) :: args => do
    let v ← e.eval? environment
    return (name, v) :: (← evalArguments environment args)

end

/-- Whether a condition holds. A variable that is not defined counts as false. -/
def Expression.holds? (environment : String → Option String) : Expression → Option Bool
  | .variable _ => some false
  | e => (e.eval? environment).map Value.isTrue

/-! ## Pieces -/

inductive Piece where
  | text (cs : List Char)
  /-- A tag that is replaced by a value. -/
  | output (cs : List Char)
  /-- A tag that chooses among texts. -/
  | control (cs : List Char)
  | comment
  deriving Inhabited

/-- What stands in a tag before `close` and a closing brace, and what follows. Quoted texts in a tag
are skipped. -/
def readTag (close : Char) (quote : Option Char) : List Char → Option (List Char × List Char)
  | [] => none
  | c :: cs =>
    let quote' :=
      match quote with
      | some q => if c = q then none else some q
      | none => if isQuote c && close != '#' then some c else none
    match quote, cs with
    | none, '\x7d' :: rest =>
      if c = close then some ([], rest)
      else do
        let (inner, rest) ← readTag close quote' ('\x7d' :: rest)
        return (c :: inner, rest)
    | _, cs => do
      let (inner, rest) ← readTag close quote' cs
      return (c :: inner, rest)

/-- Characters without the blanks at the end. -/
def trimBack (cs : List Char) : List Char :=
  (cs.reverse.dropWhile Text.isBlank).reverse

/-- The pieces of a template. `text` is the text so far, backwards, and `trims` tells whether blanks
are left out at its front. -/
def readPieces : (fuel : Nat) → (trims : Bool) → (text : List Char) → List Char →
    Option (List Piece)
  | 0, _, _, _ => none
  | fuel + 1, trims, text, cs =>
    let finished (back : Bool) : Piece :=
      let front := if trims then text.reverse.dropWhile Text.isBlank else text.reverse
      .text (if back then trimBack front else front)
    let tag (close : Char) (make : List Char → Piece) (rest : List Char) :
        Option (List Piece) := do
      let (back, rest) :=
        match rest with
        | '-' :: rest => (true, rest)
        | rest => (false, rest)
      let (inner, rest) ← readTag close none rest
      let (front, inner) :=
        match inner.reverse with
        | '-' :: inner => (true, inner.reverse)
        | _ => (false, inner)
      return finished back :: make inner :: (← readPieces fuel front [] rest)
    match cs with
    | [] => some [finished false]
    | '\x7b' :: '\x7b' :: rest => tag '\x7d' .output rest
    | '\x7b' :: '%' :: rest => tag '%' .control rest
    | '\x7b' :: '#' :: rest => tag '#' (fun _ => .comment) rest
    | c :: rest => readPieces fuel trims (c :: text) rest

/-! ## Rendering -/

/-- A choice whose end has not been reached. -/
structure Choice where
  /-- Whether the text of the current branch is part of the result. -/
  isActive : Bool
  /-- Whether no later branch can be chosen. -/
  isSettled : Bool
  /-- Whether the current branch is the last one. -/
  isLast : Bool

/-- The word at the front of a tag and the characters after it. -/
def splitWord (cs : List Char) : String × List Char :=
  let cs := skipBlanks cs
  (String.ofList (cs.takeWhile isNameChar), skipBlanks (cs.dropWhile isNameChar))

/-- Whether text is part of the result inside of some choices. -/
def isActive : List Choice → Bool
  | [] => true
  | choice :: _ => choice.isActive

/-- The choices after a control tag. -/
def control (environment : String → Option String) (choices : List Choice) (cs : List Char) :
    Option (List Choice) :=
  match splitWord cs, choices with
  | ("if", cs), choices => do
    let e ← Expression.read cs
    if isActive choices then
      let chosen ← e.holds? environment
      return ⟨chosen, chosen, false⟩ :: choices
    else return ⟨false, true, false⟩ :: choices
  | ("elif", cs), choice :: choices => do
    let e ← Expression.read cs
    if choice.isLast then none
    else if choice.isSettled then return ⟨false, true, false⟩ :: choices
    else
      let chosen ← e.holds? environment
      return ⟨chosen, chosen, false⟩ :: choices
  | ("else", []), choice :: choices =>
    if choice.isLast then none else some (⟨!choice.isSettled, true, true⟩ :: choices)
  | ("endif", []), _ :: choices => some choices
  | _, _ => none

def renderPieces (environment : String → Option String) :
    List Choice → List Piece → Option (List Char)
  | [], [] => some []
  | _ :: _, [] => none
  | choices, .comment :: pieces => renderPieces environment choices pieces
  | choices, .text cs :: pieces => do
    let rest ← renderPieces environment choices pieces
    return if isActive choices then cs ++ rest else rest
  | choices, .output cs :: pieces => do
    let e ← Expression.read cs
    if isActive choices then
      let v ← e.eval? environment
      return v.shown.toList ++ (← renderPieces environment choices pieces)
    else renderPieces environment choices pieces
  | choices, .control cs :: pieces => do
    renderPieces environment (← control environment choices cs) pieces

/-- The text that a template gives in an environment. -/
def render (environment : String → Option String) (template : String) : Option String := do
  let cs := template.toList
  let pieces ← readPieces (cs.length + 1) false [] cs
  return String.ofList (← renderPieces environment [] pieces)

end OntoLogic.Template
