-- SUMMARY: What can be wrong with the text of a clause or a query.

/-!
# Errors of clause and query texts

Positions count bytes from the start of the text.
-/

namespace OntoLogic

/-- The deepest nesting of terms and negations. -/
def maxNesting : Nat := 256

inductive ParseError where
  /-- There is no token. -/
  | empty
  /-- No token starts with this character here. -/
  | unexpectedChar (c : Char) (offset : Nat)
  /-- A quote is not closed. -/
  | unterminated (item : String) (offset : Nat)
  /-- Another token stands where one of a certain form has to stand. -/
  | expected (what found : String) (offset : Nat)
  /-- A rule has no goal. -/
  | emptyBody
  /-- A clause does not end with a period. -/
  | missingPeriod
  /-- The head of a clause is not an atom or a compound. -/
  | invalidHead (found : String)
  /-- A goal is a term that is not an atom or a compound. -/
  | notCallable (found : String)
  /-- Terms and negations nest too deeply. -/
  | tooDeep (offset : Nat)
  deriving Inhabited, DecidableEq

namespace ParseError

def message : ParseError → String
  | .empty => "clause text is empty"
  | .unexpectedChar c offset =>
    "unexpected character `" ++ c.toString ++ "` at offset " ++ toString offset
  | .unterminated item offset =>
    "unterminated " ++ item ++ " starting at offset " ++ toString offset
  | .expected what found offset =>
    "expected " ++ what ++ " but found " ++ found ++ " at offset " ++ toString offset
  | .emptyBody => "rule body cannot be empty"
  | .missingPeriod => "clause must end with a period"
  | .invalidHead found => "`" ++ found ++ "` cannot be used as a clause head"
  | .notCallable found => "`" ++ found ++ "` is not a callable goal"
  | .tooDeep offset =>
    "terms nest deeper than " ++ toString maxNesting ++ " levels at offset " ++ toString offset

/-- The position an error points at, if it points at one. -/
def offset? : ParseError → Option Nat
  | .unexpectedChar _ offset | .unterminated _ offset | .expected _ _ offset
  | .tooDeep offset => some offset
  | .empty | .emptyBody | .missingPeriod | .invalidHead _ | .notCallable _ => none

end ParseError

end OntoLogic
