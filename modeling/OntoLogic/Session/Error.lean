-- SUMMARY: How an operation of a session can fail.
import OntoLogic.Engine.Basic
import OntoLogic.Ontology.Violation
import OntoLogic.Translation.Error

/-!
# Failures of sessions

An operation fails with a cause. Results of assertions and queries report it as a failure: a kind,
the wording, and names to use instead where there are some.
-/

namespace OntoLogic

/-- What is wrong with the input of an operation. -/
inductive InputFault where
  | emptyClause
  | emptyQuery
  | emptyStatement
  | emptyTask
  /-- A chain of reasoning may have no steps. -/
  | noSteps
  /-- Only a rule was asked for. -/
  | notARule (text : String)
  /-- The manager has been shut down. -/
  | shutDown
  deriving Inhabited, DecidableEq

def InputFault.text : InputFault → String
  | .emptyClause => "clause text is empty"
  | .emptyQuery => "query text is empty"
  | .emptyStatement => "statement text is empty"
  | .emptyTask => "task text is empty"
  | .noSteps => "reasoning needs at least one step"
  | .notARule text => "`" ++ text ++ "` is not a rule"
  | .shutDown => "manager has been shut down"

/-- Why an operation of a session fails. -/
inductive SessionError where
  /-- The ontology refuses a clause or a name. -/
  | ontology (violation : Violation)
  /-- The engine fails. -/
  | engine (error : EngineError)
  /-- A translation fails, or an operation is called off. -/
  | translation (error : TranslationError)
  /-- The text asks instead of asserting. -/
  | notAnAssertion (text : String)
  /-- The text asserts instead of asking. -/
  | notAQuery (text : String)
  | noSolution (query : String)
  | invalidInput (fault : InputFault)
  deriving Inhabited

inductive FailureKind where
  | invalidPredicateName
  | arityMismatch
  | undefinedPredicate
  | undefinedConstraint
  | malformedClause
  | malformedOutput
  | translationExhausted
  | notAnAssertion
  | notAQuery
  | noSolution
  | cancelled
  | provider
  | engine
  | invalidInput
  | configuration
  deriving Inhabited, DecidableEq

def FailureKind.name : FailureKind → String
  | .invalidPredicateName => "invalid_predicate_name"
  | .arityMismatch => "arity_mismatch"
  | .undefinedPredicate => "undefined_predicate"
  | .undefinedConstraint => "undefined_constraint"
  | .malformedClause => "malformed_clause_syntax"
  | .malformedOutput => "malformed_output"
  | .translationExhausted => "translation_exhausted"
  | .notAnAssertion => "not_an_assertion"
  | .notAQuery => "not_a_query"
  | .noSolution => "no_solution_found"
  | .cancelled => "cancelled"
  | .provider => "provider_error"
  | .engine => "engine_failure"
  | .invalidInput => "invalid_input"
  | .configuration => "configuration"

/-- A failure as results report it. -/
structure Failure where
  kind : FailureKind
  message : String
  suggestions : List String
  deriving Inhabited, DecidableEq

namespace SessionError

def kind : SessionError → FailureKind
  | .ontology (.invalidName _) => .invalidPredicateName
  | .ontology (.arity ..) => .arityMismatch
  | .ontology (.undefinedPredicate ..) => .undefinedPredicate
  | .ontology (.undefinedConstraint _) => .undefinedConstraint
  | .ontology (.unsupportedGoal _) | .ontology (.malformed _) => .malformedClause
  | .engine (.malformedQuery _) | .engine (.malformedClause _) => .malformedClause
  | .engine (.task _) | .engine (.backend _) => .engine
  | .translation (.malformedOutput ..) => .malformedOutput
  | .translation (.generation _) => .provider
  | .translation (.exhausted ..) => .translationExhausted
  | .translation .cancelled => .cancelled
  | .translation (.unsupported _) | .translation .missingGenerator => .configuration
  | .notAnAssertion _ => .notAnAssertion
  | .notAQuery _ => .notAQuery
  | .noSolution _ => .noSolution
  | .invalidInput _ => .invalidInput

def message : SessionError → String
  | .ontology v => v.message
  | .engine e => e.message
  | .translation e => e.message
  | .notAnAssertion text =>
    "`" ++ text ++ "` is not an assertion: facts and rules end with a period"
  | .notAQuery text => "`" ++ text ++ "` is not a query"
  | .noSolution query => "no solution found for `" ++ query ++ "`"
  | .invalidInput fault => "invalid input: " ++ fault.text

/-- The names to use instead. -/
def suggestions : SessionError → List String
  | .ontology v => v.suggestions
  | .engine _ | .translation _ | .notAnAssertion _ | .notAQuery _ | .noSolution _
  | .invalidInput _ => []

/-- The failure that results report. -/
def failure (e : SessionError) : Failure where
  kind := e.kind
  message := e.message
  suggestions := e.suggestions

end SessionError

end OntoLogic
