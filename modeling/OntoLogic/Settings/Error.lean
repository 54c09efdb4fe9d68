-- SUMMARY: What can be wrong with settings.

/-!
# Errors of settings
-/

namespace OntoLogic

/-- A setting with a value that is not allowed: where it stands and which rule it breaks. -/
structure InvalidField where
  path : String
  rule : String
  deriving Inhabited, DecidableEq

def InvalidField.text (f : InvalidField) : String :=
  f.path ++ ": " ++ f.rule

/-- Why a generation service cannot be set up. -/
inductive GeneratorSetupError where
  | missing (setting : String)
  deriving Inhabited, DecidableEq

def GeneratorSetupError.message : GeneratorSetupError → String
  | .missing setting =>
    "invalid generator configuration: `" ++ setting ++ "` must be provided"

inductive ConfigError where
  /-- The file cannot be read. -/
  | read
  /-- The template cannot be rendered. -/
  | template
  /-- The document does not describe settings. -/
  | yaml
  /-- Some settings have values that are not allowed. -/
  | invalid (fields : List InvalidField)
  | unknownStrategy (name : String)
  /-- The strategy is not one for translations. -/
  | strategyNotAllowed (name : String)
  | generator (error : GeneratorSetupError)
  deriving Inhabited, DecidableEq

/-- The wording of an error, where it has a fixed one. -/
def ConfigError.message? : ConfigError → Option String
  | .read | .template | .yaml | .invalid _ => none
  | .unknownStrategy name => some ("unknown translation strategy `" ++ name ++ "`")
  | .strategyNotAllowed name =>
    some ("strategy `" ++ name ++
      "` is reserved for the reasoning loop and cannot be used for translation")
  | .generator e => some e.message

end OntoLogic
