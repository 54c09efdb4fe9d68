-- SUMMARY: An engine that keeps its theory in memory.
import OntoLogic.Engine.Basic
import OntoLogic.Syntax.Kind

/-!
# The engine in memory

The engine reads clauses with `Theory.load` and answers queries by bounded resolution. Its answers
take no time.
-/

namespace OntoLogic

structure MemoryEngine where
  bounds : Bounds
  theory : Theory
  deriving Inhabited

namespace MemoryEngine

def new (bounds : Bounds) : MemoryEngine where
  bounds := bounds
  theory := .empty

/-- Replaces the theory, unless a clause does not load. -/
def assertAll (texts : List String) (e : MemoryEngine) : Except EngineError Unit × MemoryEngine :=
  match Theory.load texts with
  | .ok theory => (.ok (), { e with theory })
  | .error clause => (.error (.malformedClause clause), e)

def solve (text : String) (e : MemoryEngine) : Except EngineError Solutions :=
  match Query.parse text with
  | .ok query => .ok (e.theory.solve e.bounds query)
  | .error error => .error (.malformedQuery error)

def clear (e : MemoryEngine) : MemoryEngine :=
  { e with theory := .empty }

instance : Engine MemoryEngine where
  assertAll := assertAll
  solve text e := (⟨0, e.solve text⟩, e)
  parseCheck text _ := isWellFormed text
  render e := e.theory.render
  clear e := (.ok (), e.clear)

end MemoryEngine

end OntoLogic
