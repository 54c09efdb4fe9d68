-- SUMMARY: Goals, clauses and queries.
import OntoLogic.Term

/-!
# Goals, clauses and queries

A clause is a head and a body of goals; it is a fact when the body is empty and a rule otherwise. A
query is a conjunction of goals. A goal calls a predicate, negates another goal, or asks whether two
terms unify or do not unify.

The variables of a query that a solution reports are the visible ones: those whose name does not
start with an underscore.
-/

namespace OntoLogic

/-- A goal of a rule body or of a query. -/
inductive Goal where
  | call (t : Term)
  | not (g : Goal)
  | unify (l r : Term)
  | notUnify (l r : Term)
  deriving Inhabited, DecidableEq

namespace Goal

def occurrences : Goal → List String
  | .call t => t.occurrences
  | .not g => g.occurrences
  | .unify l r | .notUnify l r => l.occurrences ++ r.occurrences

def subst (f : String → Term) : Goal → Goal
  | .call t => .call (t.subst f)
  | .not g => .not (g.subst f)
  | .unify l r => .unify (l.subst f) (r.subst f)
  | .notUnify l r => .notUnify (l.subst f) (r.subst f)

def rename (suffix : Nat) : Goal → Goal
  | .call t => .call (t.rename suffix)
  | .not g => .not (g.rename suffix)
  | .unify l r => .unify (l.rename suffix) (r.rename suffix)
  | .notUnify l r => .notUnify (l.rename suffix) (r.rename suffix)

end Goal

structure Clause where
  head : Term
  body : List Goal
  deriving Inhabited, DecidableEq

/-- A conjunctive query. -/
structure Query where
  goals : List Goal
  deriving Inhabited, DecidableEq

namespace Query

def vars (q : Query) : List String :=
  (q.goals.flatMap Goal.occurrences).eraseDups

/-- A variable is visible when its name does not start with an underscore. -/
def isVisible (name : String) : Bool :=
  name.toList.head? != some '_'

/-- The variables that a solution reports, in order of first appearance. -/
def visibleVars (q : Query) : List String :=
  q.vars.filter isVisible

end Query

end OntoLogic
