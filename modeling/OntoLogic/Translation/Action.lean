-- SUMMARY: The next step of a chain of reasoning, described in JSON.
import OntoLogic.Translation.Structured

/-!
# Actions

A reasoning step is a JSON object with a `type`: a query or an assertion with its content, or a
conclusion with an answer and perhaps an explanation. Unlike the fields of other records, also those
that an action has no use for must be readable.
-/

namespace OntoLogic

/-- The next step of a chain of reasoning. -/
inductive AgentAction where
  /-- Ask the program. -/
  | query (content : String)
  /-- Add a clause to the program. -/
  | assert (content : String)
  /-- End with an answer. -/
  | conclude (answer : String) (explanation : Option String)
  deriving Inhabited, DecidableEq

namespace AgentAction

def name : AgentAction → String
  | .query _ => "query"
  | .assert _ => "assert"
  | .conclude .. => "conclude"

/-- A text field of an object that must be there once. -/
def textField? (name : String) (fields : List (String × Json.Source)) : Option String := do
  (← (← Json.Source.uniqueField? name fields)).toText?

/-- Reads an action from an object. -/
def ofSource? (levels : Nat) (s : Json.Source) : Option AgentAction := do
  let _ ← s.toJson? levels
  match s with
  | .object fields => do
    let fields ← fields.mapM fun (name, value) => do return (← name, value)
    match ← textField? "type" fields with
    | "query" => return .query (← textField? "content" fields)
    | "assert" => return .assert (← textField? "content" fields)
    | "conclude" => do
      let answer ← textField? "answer" fields
      match ← Json.Source.uniqueField? "explanation" fields with
      | none | some .null => return .conclude answer none
      | some explanation => return .conclude answer (some (← explanation.toText?))
    | _ => none
  | _ => none

def toJson : AgentAction → Json
  | .query content => .object [("type", .string "query"), ("content", .string content)]
  | .assert content => .object [("type", .string "assert"), ("content", .string content)]
  | .conclude answer explanation =>
    .object [("type", .string "conclude"), ("answer", .string answer),
      ("explanation", match explanation with
        | none => .null
        | some text => .string text)]

/-- Whether an action needs content and has none. -/
def isEmpty : AgentAction → Bool
  | .query content | .assert content => (Text.trim content).isEmpty
  | .conclude .. => false

def readFault (raw : String) (messages : JsonMessages) : Except OutputFault AgentAction := do
  let some object := extractObject raw | throw .noObject
  let some action := (Json.Source.read object).bind (ofSource? Json.maxLevels)
    | throw (.json (messages.action object))
  if action.isEmpty then
    throw (.emptyAction action.name)
  return action

/-- The action in a generated text. -/
def read (raw : String) (messages : JsonMessages := .placeholder) :
    Except TranslationError AgentAction :=
  match readFault raw messages with
  | .ok action => .ok action
  | .error fault => .error (.malformedOutput fault raw)

/-- The action in an answer of a generation service. -/
def ofAnswer (messages : JsonMessages) :
    Except GenerationError Generation → Except TranslationError AgentAction
  | .ok g => read g.text messages
  | .error e => .error (.generation e)

end AgentAction

end OntoLogic
