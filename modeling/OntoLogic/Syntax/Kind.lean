-- SUMMARY: Facts, rules and queries.
import OntoLogic.Syntax.Parser

/-!
# Kinds of text

A text that ends with a period asserts something, any other text asks. An assertion that is a clause
is a fact or a rule by its body. One that is not a clause counts as a rule when `:-` stands in it
outside quotes.
-/

namespace OntoLogic

/-- What a text is meant as. -/
inductive ClauseKind where
  | fact
  | rule
  | query
  deriving Inhabited, DecidableEq

/-- Whether a clause is a fact or a rule. -/
def Clause.kind (c : Clause) : ClauseKind :=
  if c.body.isEmpty then .fact else .rule

namespace ClauseKind

def name : ClauseKind → String
  | .fact => "fact"
  | .rule => "rule"
  | .query => "query"

/-- Whether `:-` stands outside quotes in a text. `quote` is the quote that is open and `previous`
the character before. -/
def hasNeckFrom (quote previous : Option Char) : List Char → Bool
  | [] => false
  | c :: cs =>
    match quote with
    | some q => hasNeckFrom (if c = q then none else some q) (some c) cs
    | none =>
      if c = '\'' || c = '"' then hasNeckFrom (some c) (some c) cs
      else if c = '-' && previous = some ':' then true
      else hasNeckFrom none (some c) cs

/-- Whether `:-` stands outside quotes in a text. -/
def hasNeck (text : String) : Bool :=
  hasNeckFrom none none text.toList

def ofText (text : String) : ClauseKind :=
  let text := Text.trim text
  if text.toList.getLast? != some '.' then .query
  else
    match Clause.parse text with
    | .ok clause => clause.kind
    | .error _ => if hasNeck text then .rule else .fact

end ClauseKind

end OntoLogic
