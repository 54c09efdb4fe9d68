-- SUMMARY: Saved sessions and their JSON form.
import OntoLogic.Ontology.Json
import OntoLogic.Text.Timestamp

/-!
# Snapshots

A snapshot keeps the program and the ontology of a session. In its JSON form everything but the
session's id may be left out.
-/

namespace OntoLogic

/-- A saved session. -/
structure Snapshot where
  sessionId : String
  program : List String
  ontology : OntologyConfig
  /-- When the session was saved. -/
  savedAt : Option Timestamp
  deriving Inhabited, DecidableEq

namespace Snapshot

/-- Reads a point in time. -/
def timestamp? : Json.Source → Option (Option Timestamp)
  | .null => some none
  | s => do return some (← Timestamp.ofString? (← s.toText?))

def ofSource? (levels : Nat) (s : Json.Source) : Option Snapshot := do
  match ← s.toFields? ["sessionId", "program", "ontology", "savedAt"] levels with
  | (levels, [some sessionId, program, ontology, savedAt]) =>
    return { sessionId := ← sessionId.toText?
             program := ← Json.Source.fieldOr [] (·.toTexts? levels) program
             ontology := ← Json.Source.fieldOr {} (OntologyConfig.ofSource? levels) ontology
             savedAt := ← Json.Source.fieldOr none timestamp? savedAt }
  | _ => none

def ofJson? (text : String) : Option Snapshot :=
  (Json.Source.read text).bind (ofSource? Json.maxLevels)

def toJson (s : Snapshot) : Json :=
  .object <|
    [("sessionId", .string s.sessionId), ("program", .strings s.program),
      ("ontology", s.ontology.toJson)] ++
    match s.savedAt with
    | none => []
    | some time => [("savedAt", .string time.text)]

def text (s : Snapshot) : String :=
  s.toJson.indented

end Snapshot

end OntoLogic
