-- SUMMARY: The JSON form of a description of an ontology.
import OntoLogic.Json.Decode
import OntoLogic.Ontology.Config

/-!
# Descriptions of ontologies in JSON

Every part of a description may be left out.
-/

namespace OntoLogic.OntologyConfig

/-- Reads the description of an ontology. -/
def ofSource? (levels : Nat) (s : Json.Source) : Option OntologyConfig := do
  match ← s.toFields? ["types", "relationships", "constraints", "synonyms"] levels with
  | (levels, [types, relationships, constraints, synonyms]) =>
    return { types := ← Json.Source.fieldOr [] (·.toTexts? levels) types
             relationships := ← Json.Source.fieldOr [] (·.toTexts? levels) relationships
             constraints := ← Json.Source.fieldOr [] (·.toTexts? levels) constraints
             synonyms := ← Json.Source.fieldOr ∅ (·.toTextMap? levels) synonyms }
  | _ => none

def ofJson? (text : String) : Option OntologyConfig :=
  (Json.Source.read text).bind (ofSource? Json.maxLevels)

def toJson (c : OntologyConfig) : Json :=
  .object [("types", .strings c.types), ("relationships", .strings c.relationships),
    ("constraints", .strings c.constraints),
    ("synonyms", .object (c.synonyms.toList.map fun entry => (entry.1, .string entry.2)))]

end OntoLogic.OntologyConfig
