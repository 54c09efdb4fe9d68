-- SUMMARY: Tokens and their recognition.
import OntoLogic.Syntax.Error
import OntoLogic.Syntax.Printer

/-!
# Tokens

A text is cut into tokens from left to right. Blank characters and comments, which run from a
percent sign to the end of the line, separate tokens and are dropped. Every token keeps the byte
position at which it starts.

A token is recognised from its first character and what follows it: `lexeme` says which token
starts there and how many of the following characters belong to it.
-/

namespace OntoLogic

inductive Token where
  | atom (name : String)
  | var (name : String)
  | number (spelling : String)
  | string (text : String)
  | leftParen
  | rightParen
  | leftBracket
  | rightBracket
  | comma
  | bar
  | neck
  | period
  | not
  | eq
  | notEq
  deriving Inhabited, DecidableEq

namespace Token

/-- How an error message names a token. -/
def describe : Token → String
  | .atom name => "atom `" ++ name ++ "`"
  | .var name => "variable `" ++ name ++ "`"
  | .number spelling => "number `" ++ spelling ++ "`"
  | .string text => "string \"" ++ text ++ "\""
  | .leftParen => "`(`"
  | .rightParen => "`)`"
  | .leftBracket => "`[`"
  | .rightBracket => "`]`"
  | .comma => "`,`"
  | .bar => "`|`"
  | .neck => "`:-`"
  | .period => "`.`"
  | .not => "`\\+`"
  | .eq => "`=`"
  | .notEq => "`\\=`"

/-! ## Parts of tokens -/

/-- The characters of an unsigned number at the front of `cs`: digits, and a point with further
digits when at least one digit follows the point. -/
def numberChars (cs : List Char) : List Char :=
  let whole := cs.takeWhile Char.isDigit
  match cs.dropWhile Char.isDigit with
  | '.' :: d :: rest =>
    if d.isDigit then whole ++ '.' :: d :: rest.takeWhile Char.isDigit else whole
  | _ => whole

/-- The character that a backslash before `c` stands for. -/
def unescape : Char → Char
  | 'n' => '\n'
  | 't' => '\t'
  | c => c

/-- The content of a quoted item whose opening quote has been read, with the number of characters
up to and including the closing quote. A doubled quote is one quote; a backslash gives the next
character another meaning. -/
def quotedChars (quote : Char) : List Char → Option (List Char × Nat)
  | [] => none
  | ['\\'] => none
  | [c] => if c = quote then some ([], 1) else none
  | c :: d :: cs =>
    if c = '\\' then (quotedChars quote cs).map fun (content, n) => (unescape d :: content, n + 2)
    else if c = quote then
      if d = quote then (quotedChars quote cs).map fun (content, n) => (quote :: content, n + 2)
      else some ([], 1)
    else (quotedChars quote (d :: cs)).map fun (content, n) => (c :: content, n + 1)

/-- A quoted item as a token. -/
def quoted (quote : Char) (item : String) (make : String → Token) (offset : Nat)
    (cs : List Char) : Except ParseError (Token × Nat) :=
  match quotedChars quote cs with
  | some (content, n) => .ok (make (String.ofList content), n)
  | none => .error (.unterminated item offset)

/-! ## One token -/

/-- The token that starts with the character `c` and goes on with `cs`, and the number of
characters of `cs` that belong to it. -/
def lexeme (offset : Nat) (c : Char) (cs : List Char) : Except ParseError (Token × Nat) :=
  let unexpected := .error (.unexpectedChar c offset)
  match c with
  | '(' => .ok (.leftParen, 0)
  | ')' => .ok (.rightParen, 0)
  | '[' => .ok (.leftBracket, 0)
  | ']' => .ok (.rightBracket, 0)
  | ',' => .ok (.comma, 0)
  | '|' => .ok (.bar, 0)
  | ':' => if cs.head? = some '-' then .ok (.neck, 1) else unexpected
  | '.' =>
    match cs with
    | [] => .ok (.period, 0)
    | d :: _ => if Text.isBlank d || d == '%' then .ok (.period, 0) else unexpected
  | '\\' =>
    match cs with
    | '+' :: _ => .ok (.not, 1)
    | '=' :: _ => .ok (.notEq, 1)
    | _ => unexpected
  | '=' => if cs.head? = some '=' then unexpected else .ok (.eq, 0)
  | '-' =>
    if cs.head?.any Char.isDigit then
      let digits := numberChars cs
      .ok (.number (String.ofList ('-' :: digits)), digits.length)
    else unexpected
  | '\'' => quoted '\'' "quoted atom" .atom offset cs
  | '"' => quoted '"' "string" .string offset cs
  | _ =>
    if c.isDigit then
      let digits := numberChars (c :: cs)
      .ok (.number (String.ofList digits), digits.length - 1)
    else
      let name := cs.takeWhile isNameChar
      if c.isLower then .ok (.atom (String.ofList (c :: name)), name.length)
      else if c.isUpper || c == '_' then .ok (.var (String.ofList (c :: name)), name.length)
      else unexpected

/-! ## All tokens -/

/-- The tokens of a text whose next characters are `cs`, the first at byte `offset`; the first
`skip` characters belong to what has been recognised already. -/
def scanFrom : (skip offset : Nat) → List Char → Except ParseError (List (Token × Nat))
  | _, _, [] => .ok []
  | skip + 1, offset, c :: cs => scanFrom skip (offset + c.utf8Size) cs
  | 0, offset, c :: cs =>
    if Text.isBlank c then scanFrom 0 (offset + c.utf8Size) cs
    else if c = '%' then scanFrom (cs.takeWhile (· != '\n')).length (offset + c.utf8Size) cs
    else
      match lexeme offset c cs with
      | .error e => .error e
      | .ok (token, more) =>
        match scanFrom more (offset + c.utf8Size) cs with
        | .error e => .error e
        | .ok tokens => .ok ((token, offset) :: tokens)

/-- The tokens of a text with their positions, or the first error. -/
def scan (text : String) : Except ParseError (List (Token × Nat)) :=
  scanFrom 0 0 text.toList

end Token

end OntoLogic
