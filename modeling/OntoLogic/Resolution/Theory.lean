-- SUMMARY: Loaded programs with an index by predicate.
import OntoLogic.Syntax.Parser
import Std.Data.TreeMap

/-!
# Theories

A theory is a program that has been read: its clause texts, its clauses, and for each predicate the
ascending positions of the clauses whose head belongs to it.
-/

namespace OntoLogic

/-- The name and arity of a predicate. -/
abbrev Indicator := String × Nat

/-- The order of predicates in an index. -/
def Indicator.compare : Indicator → Indicator → Ordering :=
  compareLex (compareOn Prod.fst) (compareOn Prod.snd)

structure MalformedClause where
  text : String
  error : ParseError
  deriving Inhabited, DecidableEq

/-- A program that has been read. -/
structure Theory where
  /-- The clause texts, trimmed. -/
  texts : List String
  /-- The clauses in program order. -/
  clauses : Array Clause
  /-- The positions of the clauses of each predicate, in ascending order. -/
  index : Std.TreeMap Indicator (List Nat) Indicator.compare

namespace Theory

def empty : Theory where
  texts := []
  clauses := #[]
  index := ∅

instance : Inhabited Theory := ⟨empty⟩

def size (t : Theory) : Nat :=
  t.clauses.size

/-- The index of the clauses of a program, each given with its position. -/
def indexOf : List (Clause × Nat) → Std.TreeMap Indicator (List Nat) Indicator.compare
  | [] => ∅
  | (clause, position) :: rest =>
    let index := indexOf rest
    match clause.head.functor? with
    | none => index
    | some key => index.insert key (position :: index.getD key [])

/-- Reads clause texts in order; the first that is not a clause is an error. -/
def readClauses : List String → Except MalformedClause (List Clause)
  | [] => .ok []
  | text :: texts =>
    match Clause.parse text with
    | .error e => .error ⟨text, e⟩
    | .ok clause => (readClauses texts).map (clause :: ·)

/-- The theory of a list of clause texts. -/
def load (texts : List String) : Except MalformedClause Theory :=
  (readClauses texts).map fun clauses =>
    { texts := texts.map Text.trim
      clauses := clauses.toArray
      index := indexOf clauses.zipIdx }

/-- The clauses whose head belongs to a predicate, in program order. -/
def candidates (t : Theory) (key : Indicator) : List Clause :=
  (t.index.getD key []).filterMap (t.clauses[·]?)

/-- The text of a theory: one clause a line. -/
def render (t : Theory) : String :=
  "\n".intercalate t.texts

end Theory

end OntoLogic
