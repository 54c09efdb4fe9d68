-- SUMMARY: Clauses described in JSON.
import OntoLogic.Json.Decode
import OntoLogic.Syntax.Kind
import OntoLogic.Translation.Error

/-!
# Clauses described in JSON

A generated text may describe a clause as a JSON object, with other text around it: what stands from
the first opening brace to the last closing one is read. The description names the kind of the
clause, its head, and for a rule its body. Texts are taken over as they are, without blanks at the
ends; the result is clause text that may or may not be well formed.
-/

namespace OntoLogic

/-- A predicate with its arguments. -/
structure StructuredAtom where
  predicate : String
  args : List Json
  deriving Inhabited

/-- A description of a clause or a query. -/
structure StructuredClause where
  kind : ClauseKind
  head : StructuredAtom
  body : Option (List StructuredAtom)
  deriving Inhabited

/-- The part of a text from the first opening brace to the last closing brace. -/
def extractObject (raw : String) : Option String :=
  let fromBrace := raw.toList.dropWhile (· != '\x7b')
  match fromBrace.reverse.dropWhile (· != '\x7d') with
  | [] => none
  | backwards => some (String.ofList backwards.reverse)

namespace StructuredAtom

/-! ## Reading and writing JSON -/

/-- Reads a predicate with its arguments. -/
def ofSource? (levels : Nat) (s : Json.Source) : Option StructuredAtom := do
  match ← s.toFields? ["predicate", "args"] levels with
  | (levels, [some predicate, some args]) =>
    return { predicate := ← predicate.toText?
             args := ← args.toList? Json.Source.toJson? levels }
  | _ => none

def toJson (a : StructuredAtom) : Json :=
  .object [("predicate", .string a.predicate), ("args", .array a.args)]

/-! ## Clause text -/

def argText : Json → Except OutputFault String
  | .string s =>
    if (Text.trim s).isEmpty then .error (.unsupportedArgument (.string s)) else .ok (Text.trim s)
  | .number n => .ok n.text
  | .bool true => .ok "true"
  | .bool false => .ok "false"
  | other => .error (.unsupportedArgument other)

def text (a : StructuredAtom) : Except OutputFault String := do
  let predicate := Text.trim a.predicate
  if predicate.isEmpty then
    throw .emptyPredicate
  if a.args.isEmpty then
    return predicate
  let args ← a.args.mapM argText
  return predicate ++ "(" ++ ", ".intercalate args ++ ")"

end StructuredAtom

namespace StructuredClause

/-! ## Reading and writing JSON -/

def kindOfName? : String → Option ClauseKind
  | "fact" => some .fact
  | "rule" => some .rule
  | "query" => some .query
  | _ => none

/-- Reads a description. The body may be missing. -/
def ofSource? (levels : Nat) (s : Json.Source) : Option StructuredClause := do
  match ← s.toFields? ["type", "head", "body"] levels with
  | (levels, [some kind, some head, body]) =>
    return { kind := ← kindOfName? (← kind.toChoice? levels)
             head := ← StructuredAtom.ofSource? levels head
             body := ← match body with
               | none => pure none
               | some body =>
                 body.toOption? (fun levels => Json.Source.toList? StructuredAtom.ofSource? levels)
                   levels }
  | _ => none

def toJson (c : StructuredClause) : Json :=
  .object [("type", .string c.kind.name), ("head", c.head.toJson),
    ("body", match c.body with
      | none => .null
      | some body => .array (body.map StructuredAtom.toJson))]

/-! ## Clause text -/

/-- The text of the clause. Only a rule has a use for the body. -/
def text (c : StructuredClause) : Except OutputFault String := do
  let head ← c.head.text
  match c.kind with
  | .fact => return head ++ "."
  | .query => return head
  | .rule =>
    match c.body with
    | none | some [] => throw .ruleWithoutBody
    | some body =>
      let goals ← body.mapM StructuredAtom.text
      return head ++ " :- " ++ ", ".intercalate goals ++ "."

/-- The description in a generated text. -/
def read (raw : String) (messages : JsonMessages) : Except OutputFault StructuredClause := do
  let some object := extractObject raw | throw .noObject
  let some clause := (Json.Source.read object).bind (ofSource? Json.maxLevels)
    | throw (.json (messages.clause object))
  return clause

/-- The clause text that a generated text describes. -/
def clauseText (raw : String) (messages : JsonMessages := .placeholder) :
    Except TranslationError String :=
  match read raw messages >>= text with
  | .ok text => .ok text
  | .error fault => .error (.malformedOutput fault raw)

end StructuredClause

end OntoLogic
