-- SUMMARY: How a clause can break the rules of an ontology.
import OntoLogic.Syntax.Error

/-!
# Violations

What is wrong with a clause or a name that an ontology refuses.
-/

namespace OntoLogic

/-- The number of arguments that a predicate has to have. -/
inductive ArityRule where
  | exactly (n : Nat)
  | atLeast (n : Nat)
  deriving Inhabited, DecidableEq

def ArityRule.text : ArityRule → String
  | .exactly n => "exactly " ++ toString n
  | .atLeast n => "at least " ++ toString n

/-- A reason for an ontology to refuse a clause or a name. -/
inductive Violation where
  /-- The name of a predicate is not legal. -/
  | invalidName (name : String)
  /-- A predicate has a wrong number of arguments. -/
  | arity (predicate : String) (rule : ArityRule) (actual : Nat)
  /-- A predicate is neither a type nor a relationship. -/
  | undefinedPredicate (predicate : String) (suggestions : List String)
  /-- There is no such constraint. -/
  | undefinedConstraint (name : String)
  /-- A goal of a rule body is not the call of a predicate or the negation of one. -/
  | unsupportedGoal (goal : String)
  /-- A text is not a clause. -/
  | malformed (error : ParseError)
  deriving Inhabited, DecidableEq

namespace Violation

def suggestionText (suggestions : List String) : String :=
  if suggestions.isEmpty then "No similar terms found"
  else "Did you mean: " ++ ", ".intercalate suggestions ++ "?"

def message : Violation → String
  | .invalidName name =>
    "invalid predicate name `" ++ name ++ "`: predicates start with a lowercase letter followed by "
      ++ "letters, digits or underscores"
  | .arity predicate rule actual =>
    "`" ++ predicate ++ "` expects " ++ rule.text ++ " argument(s) but received " ++ toString actual
  | .undefinedPredicate predicate suggestions =>
    "predicate `" ++ predicate ++ "` is not defined in the ontology. " ++ suggestionText suggestions
  | .undefinedConstraint name => "constraint `" ++ name ++ "` is not defined in the ontology"
  | .unsupportedGoal goal => "unsupported goal `" ++ goal ++ "` in rule body"
  | .malformed e => "malformed clause: " ++ e.message

/-- The names to use instead, where a violation has some. -/
def suggestions : Violation → List String
  | .undefinedPredicate _ suggestions => suggestions
  | .invalidName _ | .arity .. | .undefinedConstraint _ | .unsupportedGoal _ | .malformed _ => []

end Violation

end OntoLogic
