-- SUMMARY: The knowledge of a session.
import OntoLogic.Session.Basic

/-!
# Knowledge graphs

What a session knows is written as its program, or as JSON with facts, rules and the vocabulary
apart.
-/

namespace OntoLogic

structure KnowledgeGraph where
  facts : List String
  rules : List String
  entities : List String
  relationships : List String
  constraints : List String
  deriving Inhabited, DecidableEq

def KnowledgeGraph.toJson (g : KnowledgeGraph) : Json :=
  .object [("facts", .strings g.facts), ("rules", .strings g.rules),
    ("entities", .strings g.entities), ("relationships", .strings g.relationships),
    ("constraints", .strings g.constraints)]

namespace Session

variable {σ : Type}

/-- The program, one clause on a line. -/
def programText (s : Session σ) : String :=
  "\n".intercalate s.program

/-- The knowledge of a session. What is not a rule counts as a fact. -/
def graph (s : Session σ) : KnowledgeGraph where
  facts := s.program.filter fun clause => ClauseKind.ofText clause ≠ .rule
  rules := s.program.filter fun clause => ClauseKind.ofText clause = .rule
  entities := s.ontology.types.toList
  relationships := s.ontology.relationships.toList
  constraints := s.ontology.constraints.toList

end Session

end OntoLogic
