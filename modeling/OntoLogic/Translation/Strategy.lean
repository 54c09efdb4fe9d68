-- SUMMARY: Ways to translate a statement with one call of a generation service.
import OntoLogic.Generation.Environment
import OntoLogic.Settings.Error
import OntoLogic.Translation.Action
import OntoLogic.Translation.Prompt

/-!
# Strategies

A strategy asks the service for one statement and turns the answer into clause text. The agentic
strategy chooses actions in a chain of reasoning and translates nothing.
-/

namespace OntoLogic

/-- A way to turn a statement into clause text. -/
inductive Strategy where
  /-- Take the answer as it is, without blanks at the ends. -/
  | direct
  /-- Read the answer as a description in JSON. -/
  | structured
  /-- Like `direct`, with examples in the prompt. -/
  | fewShot
  /-- Choose actions in a chain of reasoning. -/
  | agentic
  deriving Inhabited, DecidableEq

structure Translation where
  kind : ClauseKind
  content : String
  promptTokens : UInt64
  completionTokens : UInt64
  /-- The time the answer took, in microseconds. -/
  latency : Nat
  strategy : Strategy
  deriving Inhabited, DecidableEq

namespace Strategy

def all : List Strategy := [.direct, .structured, .fewShot, .agentic]

def name : Strategy → String
  | .direct => "direct"
  | .structured => "structured"
  | .fewShot => "few-shot"
  | .agentic => "agentic"

/-! ## Names -/

/-- The names that strategies go by, each with its strategy. -/
def registry : List (String × Strategy) :=
  [("agentic", .agentic), ("direct", .direct), ("few-shot", .fewShot), ("few_shot", .fewShot),
   ("fewshot", .fewShot), ("json", .structured), ("structured", .structured)]

/-- The names that strategies go by, in ascending order. -/
def registeredNames : List String :=
  registry.map Prod.fst

/-- The strategy with a name; case and blanks at the ends do not matter. -/
def resolve (name : String) : Except ConfigError Strategy :=
  match registry.lookup (String.ofList ((Text.trimChars name.toList).map Char.toLower)) with
  | some strategy => .ok strategy
  | none => .error (.unknownStrategy name)

/-- The strategy with a name, if it is one for translations. -/
def resolveForTranslation (name : String) : Except ConfigError Strategy :=
  match resolve name with
  | .ok .agentic => .error (.strategyNotAllowed name)
  | result => result

/-- The strategies with some names, all of them for translations. -/
def resolveAll (names : List String) : Except ConfigError (List Strategy) :=
  names.mapM resolveForTranslation

/-! ## Translation -/

/-- The form of the prompts of a strategy that translates. -/
def form? : Strategy → Option Prompt.Form
  | .direct => some Prompt.directForm
  | .structured => some Prompt.structuredForm
  | .fewShot => some Prompt.fewShotForm
  | .agentic => none

def prompt? (s : Strategy) (text : String) (terms : List String) (feedback : Option String) :
    Option String :=
  s.form?.map (·.prompt text terms feedback)

/-- The clause text in a generated text. -/
def content (s : Strategy) (messages : JsonMessages) (generated : String) :
    Except TranslationError String :=
  match s with
  | .structured => StructuredClause.clauseText generated messages
  | .direct | .fewShot | .agentic => .ok (Text.trim generated)

/-- The translation in an answer of the service. -/
def ofAnswer (s : Strategy) (messages : JsonMessages)
    (answer : Except GenerationError Generation) : Except TranslationError Translation :=
  match answer with
  | .error e => .error (.generation e)
  | .ok g =>
    (s.content messages g.text).map fun content =>
      { kind := ClauseKind.ofText content, content, promptTokens := g.promptTokens,
        completionTokens := g.completionTokens, latency := g.latency, strategy := s }

/-- Translates a statement with one call; nothing when the operation is called off. -/
def translate {γ : Type} [GenerationService γ] (s : Strategy) (text : String)
    (terms : List String) (feedback : Option String) (env : Environment γ) :
    Option (Except TranslationError Translation) × Environment γ :=
  match s.prompt? text terms feedback with
  | none => (if env.calledOff then none else some (.error (.unsupported s.name)), env)
  | some prompt =>
    let (answer, env') := env.generate prompt
    (answer.map (s.ofAnswer env.messages), env')

end Strategy

end OntoLogic
