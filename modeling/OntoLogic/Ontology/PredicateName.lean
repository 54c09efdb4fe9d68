-- SUMMARY: Legal names of predicates.
import OntoLogic.Syntax.Printer

/-!
# Predicate names

The name of a predicate is a lower-case letter followed by letters, digits and underscores.
-/

namespace OntoLogic

/-- A legal name of a predicate. -/
structure PredicateName where
  value : String
  isPlain : isPlainName value = true
  deriving DecidableEq

namespace PredicateName

/-- The name with this spelling, if it is legal. -/
def ofString? (s : String) : Option PredicateName :=
  if h : isPlainName s = true then some ⟨s, h⟩ else none

/-- The wording for a spelling that is not a legal name. -/
def invalidMessage (s : String) : String :=
  "invalid predicate name: " ++ s

end PredicateName

end OntoLogic
