-- SUMMARY: The description of an ontology.
import OntoLogic.Text.Names

/-!
# Descriptions of ontologies

A description lists names as a caller wrote them, in any order and with repetitions.
-/

namespace OntoLogic

structure OntologyConfig where
  /-- Predicates with one argument. -/
  types : List String := []
  /-- Predicates with two arguments or more. -/
  relationships : List String := []
  constraints : List String := []
  /-- Other names of predicates, each with the name it stands for. -/
  synonyms : NameMap String := ∅
  deriving Inhabited, DecidableEq

end OntoLogic
