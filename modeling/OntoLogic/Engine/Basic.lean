-- SUMMARY: What a session asks of the engine that holds its program.
import OntoLogic.Resolution.Solution

/-!
# Knowledge engines

An engine holds a theory and answers queries from it. The theory is always replaced as a whole: when
a clause does not load, the previous theory stays. Answering a query may take time, which the engine
reports with the answer.
-/

namespace OntoLogic

inductive EngineError where
  /-- The query cannot be read. -/
  | malformedQuery (error : ParseError)
  /-- A clause cannot be read. -/
  | malformedClause (clause : MalformedClause)
  /-- The search was not carried out. -/
  | task (reason : String)
  /-- Any other failure. -/
  | backend (reason : String)
  deriving Inhabited, DecidableEq

namespace EngineError

def message : EngineError → String
  | .malformedQuery e => "query is malformed: " ++ e.message
  | .malformedClause c => "clause `" ++ c.text ++ "` is malformed: " ++ c.error.message
  | .task reason => "resolution task failed: " ++ reason
  | .backend reason => "engine error: " ++ reason

end EngineError

/-- A result and the milliseconds that pass before it is there. -/
structure Delayed (α : Type) where
  delay : Nat
  value : α

/-- A store of clauses that answers queries. Each operation gives the engine after it. -/
class Engine (σ : Type) where
  /-- Replaces the theory by the clauses, in order. -/
  assertAll : List String → σ → Except EngineError Unit × σ
  /-- Answers a query from the theory. -/
  solve : String → σ → Delayed (Except EngineError Solutions) × σ
  /-- Whether a text is a clause or a query. -/
  parseCheck : String → σ → Bool
  /-- The text of the theory. -/
  render : σ → String
  /-- Removes every clause. -/
  clear : σ → Except EngineError Unit × σ

end OntoLogic
