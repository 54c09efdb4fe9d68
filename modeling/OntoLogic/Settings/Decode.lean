-- SUMMARY: Settings from a YAML document.
import OntoLogic.Settings.Basic
import OntoLogic.Text.Template
import OntoLogic.Yaml.Reader

/-!
# Reading settings

Settings are written as a YAML document that is the result of a template. Every section and almost
every field may be left out; fields with other names are skipped. A field that occurs twice is an
error.

The settings of the generation service are stricter than the rest: a text must not look like a
number, a truth value or nothing unless it is quoted.
-/

namespace OntoLogic

/-! ## Fields -/

namespace Yaml

/-- The fields of a mapping, none of the named ones twice. -/
def record? (names : List String) (node : Yaml) : Option (List (String × Yaml)) := do
  let fields ← node.toFields?
  if names.all fun name => (fields.filter (·.1 == name)).length ≤ 1 then some fields else none

def fieldOr {α : Type} (fields : List (String × Yaml)) (name : String) (otherwise : α)
    (value : Yaml → Option α) : Option α :=
  match fields.lookup name with
  | none => some otherwise
  | some node => value node

/-- The value of a field that may be left out or stand for nothing. -/
def optional? {α : Type} (fields : List (String × Yaml)) (name : String)
    (value : Yaml → Option α) : Option (Option α) :=
  fieldOr fields name none fun node => if node.isNull then some none else (value node).map some

/-- One of some choices, by its name. -/
def choice? {α : Type} (all : List α) (name : α → String) (node : Yaml) : Option α := do
  let text ← node.toText?
  all.find? fun x => name x == text

def toTexts? (node : Yaml) : Option (List String) := do
  (← node.toItems?).mapM toText?

/-- A text that cannot be read as anything else. -/
def toPureText? (node : Yaml) : Option String :=
  if node.isText then node.toText? else none

/-- A number from zero that has 32 bits. -/
def toNat32? : Yaml → Option Nat := toNat? UInt32.size

/-- A number from zero that has 64 bits. -/
def toNat64? : Yaml → Option Nat := toNat? UInt64.size

end Yaml

/-! ## Sections -/

def FileAppender.ofYaml? (node : Yaml) : Option FileAppender := do
  let std : FileAppender := {}
  let fields ← node.record? ["enable", "non_blocking", "level", "format", "rotation", "dir",
    "filename_prefix", "max_log_files"]
  return {
    enable := ← Yaml.fieldOr fields "enable" std.enable Yaml.toBool?
    nonBlocking := ← Yaml.fieldOr fields "non_blocking" std.nonBlocking Yaml.toBool?
    level := ← Yaml.fieldOr fields "level" std.level (Yaml.choice? LogLevel.all LogLevel.name)
    format := ← Yaml.fieldOr fields "format" std.format (Yaml.choice? LogFormat.all LogFormat.name)
    rotation := ← Yaml.fieldOr fields "rotation" std.rotation
      (Yaml.choice? LogRotation.all LogRotation.name)
    dir := ← Yaml.fieldOr fields "dir" std.dir Yaml.toText?
    filenamePrefix := ← Yaml.fieldOr fields "filename_prefix" std.filenamePrefix Yaml.toText?
    maxLogFiles := ← Yaml.optional? fields "max_log_files" Yaml.toNat64? }

def LoggerSettings.ofYaml? (node : Yaml) : Option LoggerSettings := do
  let std : LoggerSettings := {}
  let fields ← node.record? ["enable", "level", "format", "override_filter", "file_appender"]
  return {
    enable := ← Yaml.fieldOr fields "enable" std.enable Yaml.toBool?
    level := ← Yaml.fieldOr fields "level" std.level (Yaml.choice? LogLevel.all LogLevel.name)
    format := ← Yaml.fieldOr fields "format" std.format (Yaml.choice? LogFormat.all LogFormat.name)
    overrideFilter := ← Yaml.optional? fields "override_filter" Yaml.toText?
    fileAppender := ← Yaml.optional? fields "file_appender" FileAppender.ofYaml? }

def ChatSettings.ofYaml? (node : Yaml) : Option ChatSettings := do
  let .mapping _ := node | none
  let fields ← node.record? ["kind", "api_key", "model", "api_base", "temperature", "max_tokens",
    "system_prompt"]
  if (← (← fields.lookup "kind").toText?) ≠ "openai" then none
  else
    let apiKey ← (← fields.lookup "api_key").toPureText?
    let std : ChatSettings := { apiKey }
    return {
      apiKey
      model := ← Yaml.fieldOr fields "model" std.model Yaml.toPureText?
      apiBase := ← Yaml.optional? fields "api_base" Yaml.toPureText?
      temperature := ← Yaml.optional? fields "temperature" Yaml.toReal?
      maxTokens := ← Yaml.optional? fields "max_tokens" Yaml.toNat32?
      systemPrompt := ← Yaml.optional? fields "system_prompt" Yaml.toPureText? }

/-- The settings of the generation service, if there is one. -/
def ChatSettings.sectionOfYaml? (node : Yaml) : Option (Option ChatSettings) := do
  Yaml.optional? (← node.record? ["generator"]) "generator" ChatSettings.ofYaml?

def TranslationSettings.ofYaml? (node : Yaml) : Option TranslationSettings := do
  let std : TranslationSettings := {}
  let fields ← node.record? ["strategies", "max_attempts", "retry_delay_ms",
    "operation_timeout_ms"]
  return {
    strategies := ← Yaml.fieldOr fields "strategies" std.strategies Yaml.toTexts?
    maxAttempts := ← Yaml.fieldOr fields "max_attempts" std.maxAttempts Yaml.toNat32?
    retryDelay := ← Yaml.fieldOr fields "retry_delay_ms" std.retryDelay Yaml.toNat64?
    timeLimit := ← Yaml.optional? fields "operation_timeout_ms" Yaml.toNat64? }

def Bounds.ofYaml? (node : Yaml) : Option Bounds := do
  let std : Bounds := {}
  let fields ← node.record? ["max_depth", "max_solutions", "max_inferences"]
  return {
    maxDepth := ← Yaml.fieldOr fields "max_depth" std.maxDepth Yaml.toNat64?
    maxSolutions := ← Yaml.fieldOr fields "max_solutions" std.maxSolutions Yaml.toNat64?
    maxInferences := ← Yaml.fieldOr fields "max_inferences" std.maxInferences Yaml.toNat64? }

namespace Settings

/-- How many steps a chain of reasoning may have. -/
def stepsOfYaml? (node : Yaml) : Option Nat := do
  let std : Settings := {}
  Yaml.fieldOr (← node.record? ["max_steps"]) "max_steps" std.maxReasoningSteps Yaml.toNat32?

def ofYaml? (node : Yaml) : Option Settings := do
  let std : Settings := {}
  let fields ← node.record? ["logger", "ai", "translation", "reasoning", "engine"]
  return {
    logger := ← Yaml.fieldOr fields "logger" std.logger LoggerSettings.ofYaml?
    generator := ← Yaml.fieldOr fields "ai" std.generator ChatSettings.sectionOfYaml?
    translation := ← Yaml.fieldOr fields "translation" std.translation TranslationSettings.ofYaml?
    maxReasoningSteps := ← Yaml.fieldOr fields "reasoning" std.maxReasoningSteps stepsOfYaml?
    bounds := ← Yaml.fieldOr fields "engine" std.bounds Bounds.ofYaml? }

/-- The settings that a text describes: it is rendered, read and validated. -/
def ofText (environment : String → Option String) (text : String) : Except ConfigError Settings :=
  match Template.render environment text with
  | none => .error .template
  | some rendered =>
    match (Yaml.read rendered).bind ofYaml? with
    | none => .error .yaml
    | some settings => settings.validate.map fun _ => settings

end Settings

end OntoLogic
