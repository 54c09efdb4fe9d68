-- SUMMARY: Settings of the manager and its sessions.
import OntoLogic.Number.Style
import OntoLogic.Resolution.Search
import OntoLogic.Settings.Error
import OntoLogic.Text.Printable
import OntoLogic.Translation.Pipeline

/-!
# Settings

Settings come in sections, and every setting has a default. Before settings are used they are
validated: bounds must not be zero, and there must be a strategy.
-/

namespace OntoLogic

/-! ## Logging -/

inductive LogLevel where
  | off
  | trace
  | debug
  | info
  | warn
  | error
  deriving Inhabited, DecidableEq

def LogLevel.name : LogLevel → String
  | .off => "off"
  | .trace => "trace"
  | .debug => "debug"
  | .info => "info"
  | .warn => "warn"
  | .error => "error"

def LogLevel.all : List LogLevel := [.off, .trace, .debug, .info, .warn, .error]

/-- How log lines look. -/
inductive LogFormat where
  | compact
  | pretty
  | json
  deriving Inhabited, DecidableEq

def LogFormat.name : LogFormat → String
  | .compact => "compact"
  | .pretty => "pretty"
  | .json => "json"

def LogFormat.all : List LogFormat := [.compact, .pretty, .json]

/-- When a new log file is started. -/
inductive LogRotation where
  | minutely
  | hourly
  | daily
  | never
  deriving Inhabited, DecidableEq

def LogRotation.name : LogRotation → String
  | .minutely => "minutely"
  | .hourly => "hourly"
  | .daily => "daily"
  | .never => "never"

def LogRotation.all : List LogRotation := [.minutely, .hourly, .daily, .never]

/-- Settings of log files. -/
structure FileAppender where
  enable : Bool := false
  nonBlocking : Bool := false
  level : LogLevel := .info
  format : LogFormat := .compact
  rotation : LogRotation := .daily
  dir : String := "./logs"
  filenamePrefix : String := "mcr"
  maxLogFiles : Option Nat := none
  deriving Inhabited, DecidableEq

structure LoggerSettings where
  enable : Bool := true
  level : LogLevel := .info
  format : LogFormat := .compact
  overrideFilter : Option String := none
  fileAppender : Option FileAppender := none
  deriving Inhabited, DecidableEq

/-! ## Generation -/

/-- Settings of a chat service for generation. -/
structure ChatSettings where
  apiKey : String
  model : String := "gpt-4o-mini"
  apiBase : Option String := none
  /-- A number of single precision. -/
  temperature : Option Real := none
  maxTokens : Option Nat := none
  systemPrompt : Option String := none
  deriving Inhabited, DecidableEq

namespace ChatSettings

/-- Checks that there is what a service needs. -/
def check (c : ChatSettings) : Except GeneratorSetupError Unit :=
  if (Text.trim c.apiKey).isEmpty then .error (.missing "ai.generator.api_key")
  else if (Text.trim c.model).isEmpty then .error (.missing "ai.generator.model")
  else .ok ()

/-- A character of a quoted text in a description: one that is not printable is shown by its
number. -/
def describeChar (c : Char) : List Char :=
  match c with
  | '"' => ['\\', '"']
  | '\\' => ['\\', '\\']
  | '\n' => ['\\', 'n']
  | '\r' => ['\\', 'r']
  | '\t' => ['\\', 't']
  | _ =>
    if c.toNat = 0 then ['\\', '0']
    else if Text.isPrintable c then [c]
    else ['\\', 'u', '\x7b'] ++ Nat.toDigits 16 c.toNat ++ ['\x7d']

def describeText (s : String) : String :=
  "\"" ++ String.ofList (s.toList.flatMap describeChar) ++ "\""

/-- A setting that may be missing, in a description. -/
def describeOption : Option String → String
  | none => "None"
  | some text => "Some(" ++ text ++ ")"

/-- A description of the settings that does not show the key. -/
def description (c : ChatSettings) : String :=
  "OpenAiSettings \x7b api_key: \"<redacted>\", model: " ++ describeText c.model ++
  ", api_base: " ++ describeOption (c.apiBase.map describeText) ++
  ", temperature: " ++ describeOption (c.temperature.map (Real.text .binary32 .descriptive)) ++
  ", max_tokens: " ++ describeOption (c.maxTokens.map toString) ++
  ", system_prompt: " ++ describeOption (c.systemPrompt.map describeText) ++ " \x7d"

end ChatSettings

/-! ## Translation -/

structure TranslationSettings where
  /-- The names of the strategies, in the order in which they are tried. -/
  strategies : List String := ["direct", "structured"]
  maxAttempts : Nat := 2
  /-- The milliseconds between two rounds. -/
  retryDelay : Nat := 500
  /-- The milliseconds after which a translation is called off. -/
  timeLimit : Option Nat := none
  deriving Inhabited, DecidableEq

namespace TranslationSettings

/-- The settings with values that are not allowed, in the order of their paths. -/
def invalidFields (t : TranslationSettings) : List InvalidField :=
  (if t.maxAttempts = 0 then [⟨"max_attempts", "range"⟩] else []) ++
  (if t.strategies.isEmpty then [⟨"strategies", "length"⟩] else [])

def toPipeline (t : TranslationSettings) : Except ConfigError Pipeline :=
  match t.invalidFields with
  | [] =>
    (Strategy.resolveAll t.strategies).map fun strategies =>
      { strategies, maxAttempts := t.maxAttempts, retryDelay := t.retryDelay,
        timeLimit := t.timeLimit }
  | fields => .error (.invalid fields)

end TranslationSettings

/-! ## All settings -/

structure Settings where
  logger : LoggerSettings := {}
  generator : Option ChatSettings := none
  translation : TranslationSettings := {}
  /-- How many steps a chain of reasoning may have. -/
  maxReasoningSteps : Nat := 5
  bounds : Bounds := {}
  deriving Inhabited, DecidableEq

namespace Settings

def invalidFields (s : Settings) : List InvalidField :=
  (if s.bounds.maxDepth = 0 then [⟨"engine.max_depth", "range"⟩] else []) ++
  (if s.bounds.maxInferences = 0 then [⟨"engine.max_inferences", "range"⟩] else []) ++
  (if s.bounds.maxSolutions = 0 then [⟨"engine.max_solutions", "range"⟩] else []) ++
  (if s.maxReasoningSteps = 0 then [⟨"reasoning.max_steps", "range"⟩] else []) ++
  s.translation.invalidFields.map fun field => { field with path := "translation." ++ field.path }

/-- Checks that all values are allowed. -/
def validate (s : Settings) : Except ConfigError Unit :=
  match s.invalidFields with
  | [] => .ok ()
  | fields => .error (.invalid fields)

/-- Checks the settings of the generation service; whether there is one. -/
def checkGenerator (s : Settings) : Except ConfigError Bool :=
  match s.generator with
  | none => .ok false
  | some chat =>
    match chat.check with
    | .ok () => .ok true
    | .error e => .error (.generator e)

end Settings

end OntoLogic
