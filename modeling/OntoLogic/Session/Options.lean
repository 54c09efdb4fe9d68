-- SUMMARY: The options of a new session.
import OntoLogic.Ontology.Config
import OntoLogic.Settings.Basic

/-!
# Options

Options describe a new session. What they leave open is taken from the settings.
-/

namespace OntoLogic

structure SessionOptions where
  /-- The ontology that the session starts with and goes back to. -/
  ontology : Option OntologyConfig := none
  /-- The program that the session starts with. -/
  program : List String := []
  strategies : Option (List String) := none
  maxAttempts : Option Nat := none
  retryDelay : Option Nat := none
  timeLimit : Option Nat := none
  maxReasoningSteps : Option Nat := none
  deriving Inhabited

/-- The settings of translation with the options in their place. -/
def SessionOptions.translationSettings (o : SessionOptions) (defaults : TranslationSettings) :
    TranslationSettings where
  strategies := o.strategies.getD defaults.strategies
  maxAttempts := o.maxAttempts.getD defaults.maxAttempts
  retryDelay := o.retryDelay.getD defaults.retryDelay
  timeLimit := o.timeLimit <|> defaults.timeLimit

end OntoLogic
