-- SUMMARY: How each error of a session is reported.
import OntoLogic.Session.Error

/-!
# Reports of errors

Results report an error as a kind, a wording and names to use instead. Only a predicate that the
ontology does not define can have such names, and then the wording lists them, too.
-/

namespace OntoLogic

/-- What results report for an error. -/
inductive SessionError.Reported : SessionError → Failure → Prop
  | invalidName (name : String) : Reported (.ontology (.invalidName name))
    ⟨.invalidPredicateName, "invalid predicate name `" ++ name ++
      "`: predicates start with a lowercase letter followed by " ++
      "letters, digits or underscores", []⟩
  | exactArity (predicate : String) (n actual : Nat) :
    Reported (.ontology (.arity predicate (.exactly n) actual))
    ⟨.arityMismatch, "`" ++ predicate ++ "` expects " ++ ("exactly " ++ toString n) ++
      " argument(s) but received " ++ toString actual, []⟩
  | leastArity (predicate : String) (n actual : Nat) :
    Reported (.ontology (.arity predicate (.atLeast n) actual))
    ⟨.arityMismatch, "`" ++ predicate ++ "` expects " ++ ("at least " ++ toString n) ++
      " argument(s) but received " ++ toString actual, []⟩
  | undefinedPredicate (predicate : String) :
    Reported (.ontology (.undefinedPredicate predicate []))
    ⟨.undefinedPredicate, "predicate `" ++ predicate ++
      "` is not defined in the ontology. " ++ "No similar terms found", []⟩
  | misspelledPredicate (predicate name : String) (names : List String) :
    Reported (.ontology (.undefinedPredicate predicate (name :: names)))
    ⟨.undefinedPredicate, "predicate `" ++ predicate ++
      "` is not defined in the ontology. " ++
      ("Did you mean: " ++ ", ".intercalate (name :: names) ++ "?"), name :: names⟩
  | undefinedConstraint (name : String) : Reported (.ontology (.undefinedConstraint name))
    ⟨.undefinedConstraint, "constraint `" ++ name ++ "` is not defined in the ontology", []⟩
  | unsupportedGoal (goal : String) : Reported (.ontology (.unsupportedGoal goal))
    ⟨.malformedClause, "unsupported goal `" ++ goal ++ "` in rule body", []⟩
  | malformed (error : ParseError) : Reported (.ontology (.malformed error))
    ⟨.malformedClause, "malformed clause: " ++ error.message, []⟩
  | malformedQuery (error : ParseError) : Reported (.engine (.malformedQuery error))
    ⟨.malformedClause, "query is malformed: " ++ error.message, []⟩
  | malformedClause (clause : MalformedClause) : Reported (.engine (.malformedClause clause))
    ⟨.malformedClause, "clause `" ++ clause.text ++ "` is malformed: " ++ clause.error.message, []⟩
  | task (reason : String) : Reported (.engine (.task reason))
    ⟨.engine, "resolution task failed: " ++ reason, []⟩
  | backend (reason : String) : Reported (.engine (.backend reason))
    ⟨.engine, "engine error: " ++ reason, []⟩
  | malformedOutput (fault : OutputFault) (raw : String) :
    Reported (.translation (.malformedOutput fault raw))
    ⟨.malformedOutput, "malformed generation output (" ++ fault.text ++ "): " ++ raw, []⟩
  | request (reason : String) : Reported (.translation (.generation (.request reason)))
    ⟨.provider, "failed to compose provider request: " ++ reason, []⟩
  | emptyResponse : Reported (.translation (.generation .emptyResponse))
    ⟨.provider, "provider returned an empty response", []⟩
  | provider (reason : String) : Reported (.translation (.generation (.provider reason)))
    ⟨.provider, "provider error: " ++ reason, []⟩
  | unsupported (strategy : String) : Reported (.translation (.unsupported strategy))
    ⟨.configuration, "strategy `" ++ strategy ++ "` cannot translate single statements", []⟩
  | exhausted (attempts : Nat) (feedback : String) :
    Reported (.translation (.exhausted attempts feedback))
    ⟨.translationExhausted, "no valid translation after " ++ toString attempts ++
      " attempt(s); last feedback: " ++ feedback, []⟩
  | cancelled : Reported (.translation .cancelled) ⟨.cancelled, "translation was cancelled", []⟩
  | missingGenerator : Reported (.translation .missingGenerator)
    ⟨.configuration, "no generation service is configured", []⟩
  | notAnAssertion (text : String) : Reported (.notAnAssertion text)
    ⟨.notAnAssertion, "`" ++ text ++ "` is not an assertion: facts and rules end with a period", []⟩
  | notAQuery (text : String) : Reported (.notAQuery text)
    ⟨.notAQuery, "`" ++ text ++ "` is not a query", []⟩
  | noSolution (query : String) : Reported (.noSolution query)
    ⟨.noSolution, "no solution found for `" ++ query ++ "`", []⟩
  | invalidInput (fault : InputFault) : Reported (.invalidInput fault)
    ⟨.invalidInput, "invalid input: " ++ fault.text, []⟩

namespace SessionError

theorem reported_ontology (v : Violation) : (ontology v).Reported (ontology v).failure := by
  cases v with
  | invalidName name => exact .invalidName name
  | arity predicate rule actual =>
    cases rule with
    | exactly n => exact .exactArity predicate n actual
    | atLeast n => exact .leastArity predicate n actual
  | undefinedPredicate predicate names =>
    cases names with
    | nil => exact .undefinedPredicate predicate
    | cons name names => exact .misspelledPredicate predicate name names
  | undefinedConstraint name => exact .undefinedConstraint name
  | unsupportedGoal goal => exact .unsupportedGoal goal
  | malformed error => exact .malformed error

theorem reported_failure (e : SessionError) : e.Reported e.failure := by
  cases e with
  | ontology v => exact reported_ontology v
  | engine e =>
    cases e with
    | malformedQuery error => exact .malformedQuery error
    | malformedClause clause => exact .malformedClause clause
    | task reason => exact .task reason
    | backend reason => exact .backend reason
  | translation e =>
    cases e with
    | malformedOutput fault raw => exact .malformedOutput fault raw
    | generation e =>
      cases e with
      | request reason => exact .request reason
      | emptyResponse => exact .emptyResponse
      | provider reason => exact .provider reason
    | unsupported strategy => exact .unsupported strategy
    | exhausted attempts feedback => exact .exhausted attempts feedback
    | cancelled => exact .cancelled
    | missingGenerator => exact .missingGenerator
  | notAnAssertion text => exact .notAnAssertion text
  | notAQuery text => exact .notAQuery text
  | noSolution query => exact .noSolution query
  | invalidInput fault => exact .invalidInput fault

/-- Every error is reported in the one way that there is for it. -/
theorem reported_iff {e : SessionError} {f : Failure} : e.Reported f ↔ f = e.failure := by
  refine ⟨fun h => ?_, ?_⟩
  · cases h <;> rfl
  · rintro rfl
    exact reported_failure e

end SessionError

end OntoLogic
