-- SUMMARY: What operations of a session report.
import OntoLogic.Session.Error
import OntoLogic.Translation.Strategy

/-!
# Results

An assertion reports the clause and how it ended. A query reports a verdict: it is proven from the
program, answered by the generation service from what the program says, or neither. A change of the
ontology reports which clauses are kept and which are dropped.
-/

namespace OntoLogic

/-! ## Assertions -/

/-- The result of an assertion. It succeeds when there is no failure. -/
structure AssertionResult where
  /-- The text of the clause, when there is one. -/
  clause : Option String
  /-- The translation that gave the clause. -/
  translation : Option Translation := none
  failure : Option Failure := none
  deriving Inhabited

namespace AssertionResult

/-- The result of an assertion that succeeds. -/
def asserted (clause : String) : AssertionResult where
  clause := clause

def failed (clause : Option String) (error : SessionError) : AssertionResult where
  clause := clause
  failure := error.failure

def succeeds (r : AssertionResult) : Bool :=
  r.failure.isNone

end AssertionResult

/-! ## Queries -/

/-- How a query ends. -/
inductive Verdict where
  /-- The program proves the query, once for each solution. -/
  | proven (solutions : List Solution)
  /-- The generation service answers the query. -/
  | answered (answer : String)
  /-- Neither; why there is no answer of the generation service, if it was asked. -/
  | failed (failure : Failure) (unavailable : Option String)
  deriving Inhabited

structure QueryResult where
  /-- The text of the query, when there is one. -/
  query : Option String
  verdict : Verdict
  /-- The translation that gave the query. -/
  translation : Option Translation := none
  deriving Inhabited

namespace Verdict

def succeeds : Verdict → Bool
  | .proven _ | .answered _ => true
  | .failed .. => false

def solutions : Verdict → List Solution
  | .proven solutions => solutions
  | .answered _ | .failed .. => []

/-- How far an answer can be trusted, in percent. -/
def confidence : Verdict → Nat
  | .proven _ => 100
  | .answered _ => 50
  | .failed .. => 0

/-- Whether the answer comes from the program. A query without an answer counts as one that does. -/
def isSymbolic : Verdict → Bool
  | .proven _ | .failed .. => true
  | .answered _ => false

/-- What a solution says about its proof. -/
def derivation (s : Solution) : String :=
  if s.bindings.isEmpty then "Directly proven from knowledge graph." else "Derived: " ++ s.text

def explanation : Verdict → List String
  | .proven solutions => solutions.map derivation
  | .answered answer => [answer]
  | .failed _ unavailable =>
    "No direct proof found in knowledge graph." ::
      (unavailable.map ("Fallback answer unavailable: " ++ ·)).toList

def fallbackAnswer : Verdict → Option String
  | .answered answer => answer
  | .proven _ | .failed .. => none

/-- Why a query has no answer. -/
def failure : Verdict → Option Failure
  | .failed failure _ => failure
  | .proven _ | .answered _ => none

/-- The written form of all solutions. -/
def bindingsText (v : Verdict) : String :=
  "; ".intercalate (v.solutions.map Solution.text)

end Verdict

def QueryResult.failed (query : Option String) (error : SessionError) : QueryResult where
  query := query
  verdict := .failed error.failure none

/-! ## Revalidation -/

/-- A clause that an ontology refuses. -/
structure DroppedClause where
  clause : String
  reason : Failure
  deriving Inhabited, DecidableEq

/-- The clauses that an ontology allows and those that it refuses, each in their order. -/
structure Report where
  kept : List String
  dropped : List DroppedClause
  deriving Inhabited, DecidableEq

end OntoLogic
