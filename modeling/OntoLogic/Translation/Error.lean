-- SUMMARY: How a translation can fail.
import OntoLogic.Generation.Service
import OntoLogic.Json.Basic

/-!
# Failures of translations
-/

namespace OntoLogic

/-- What a reader of JSON says of texts that it cannot read. -/
structure JsonMessages where
  /-- For a text that should describe a clause. -/
  clause : String → String
  /-- For a text that should describe an action. -/
  action : String → String

/-- The same words for every text, for programs in which the words do not matter. -/
def JsonMessages.placeholder : JsonMessages where
  clause _ := "<json>"
  action _ := "<json>"

/-- What is wrong with a generated text that should be JSON. -/
inductive OutputFault where
  /-- There is no text in braces. -/
  | noObject
  /-- The text in braces is not JSON of the right form; what the reader of JSON says of it. -/
  | json (message : String)
  | emptyPredicate
  | ruleWithoutBody
  /-- An argument is not a text, a number or a truth value. -/
  | unsupportedArgument (argument : Json)
  /-- An action that needs content has none. -/
  | emptyAction (name : String)
  deriving Inhabited

def OutputFault.text : OutputFault → String
  | .noObject => "no JSON object found"
  | .json message => message
  | .emptyPredicate => "empty predicate"
  | .ruleWithoutBody => "rule without a body"
  | .unsupportedArgument argument => "unsupported argument `" ++ argument.compact ++ "`"
  | .emptyAction name => "`" ++ name ++ "` action without content"

inductive TranslationError where
  | malformedOutput (fault : OutputFault) (raw : String)
  | generation (error : GenerationError)
  /-- The strategy does not translate single statements. -/
  | unsupported (strategy : String)
  /-- No attempt gave a valid text. -/
  | exhausted (attempts : Nat) (lastFeedback : String)
  | cancelled
  | missingGenerator
  deriving Inhabited

def TranslationError.message : TranslationError → String
  | .malformedOutput fault raw =>
    "malformed generation output (" ++ fault.text ++ "): " ++ raw
  | .generation e => e.message
  | .unsupported strategy => "strategy `" ++ strategy ++ "` cannot translate single statements"
  | .exhausted attempts lastFeedback =>
    "no valid translation after " ++ toString attempts ++ " attempt(s); last feedback: " ++
      lastFeedback
  | .cancelled => "translation was cancelled"
  | .missingGenerator => "no generation service is configured"

end OntoLogic
