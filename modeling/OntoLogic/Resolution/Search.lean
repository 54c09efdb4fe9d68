-- SUMMARY: Bounded depth-first resolution.
import OntoLogic.Resolution.Theory
import OntoLogic.Substitution

/-!
# Search

A query is answered by depth-first resolution: goals from left to right, clauses in program order.
Besides the predicates of the theory, `true` succeeds and `fail` and `false` fail; a negation
succeeds when no proof of its goal is found.

Three bounds keep the search finite.

* The depth counts the clauses and negations that have been entered on the way to a goal. A goal
  deeper than the bound is not tried, and the search goes on elsewhere.
* The inferences count the calls of predicates. The call that exceeds the bound ends the search.
* The solutions count the answers. The last answer that is wanted ends the search. At least one
  answer is always reported when there is one.

A negation has a search of its own that wants one answer. When that search ends, the search outside
goes on, whatever ended it. A search that met a bound is reported as truncated.

The search recurses on the levels of depth that are left, and within a level on the goals.
-/

namespace OntoLogic

structure Bounds where
  maxDepth : Nat := 512
  maxSolutions : Nat := 256
  maxInferences : Nat := 20000
  deriving Inhabited, DecidableEq

namespace Search

/-- Whether a search goes on. -/
inductive Flow where
  | more
  | stop
  deriving Inhabited, DecidableEq

/-- What a search has counted and found. -/
structure State where
  /-- How many predicates have been called. -/
  inferences : Nat
  /-- How many copies of clauses have been made. -/
  copies : Nat
  /-- Whether a bound has cut the search short. -/
  truncated : Bool
  /-- How many answers are still wanted. -/
  wanted : Nat
  /-- The answers, the latest first. -/
  answers : List Substitution
  deriving Inhabited

/-- The state before a search that wants so many answers. -/
def State.initial (wanted : Nat) : State where
  inferences := 0
  copies := 0
  truncated := false
  wanted := wanted
  answers := []

/-- A search for proofs of some goals. -/
abbrev Run := List Goal → Substitution → State → Flow × State

/-! ## Steps -/

/-- Reports an answer; the last one that is wanted ends the search. -/
def emit (s : Substitution) (st : State) : Flow × State :=
  (if st.wanted ≤ 1 then .stop else .more,
    { st with wanted := st.wanted - 1, answers := s :: st.answers })

/-- The predicates that need no clause: whether a call of one succeeds. -/
def builtin? : Indicator → Option Bool
  | ("true", 0) => some true
  | ("fail", 0) | ("false", 0) => some false
  | _ => none

/-- Tries clauses in order for a goal: a fresh copy of each is unified with the goal, and its body
takes the goal's place in front of the other goals. -/
def tryClauses (run : Run) (goal : Term) (rest : List Goal) (s : Substitution) :
    List Clause → State → Flow × State
  | [], st => (.more, st)
  | clause :: clauses, st =>
    let copy := st.copies + 1
    let st := { st with copies := copy }
    match s.unify goal (clause.head.rename copy) with
    | (false, _) => tryClauses run goal rest s clauses st
    | (true, s') =>
      match run (clause.body.map (Goal.rename copy) ++ rest) s' st with
      | (.stop, st) => (.stop, st)
      | (.more, st) => tryClauses run goal rest s clauses st

/-- Solves goals at one level of depth; `next` solves goals at the level below. -/
def level (theory : Theory) (maxInferences : Nat) (next : Run) : Run
  | [], s, st => emit s st
  | .unify l r :: rest, s, st =>
    match s.unify l r with
    | (true, s) => level theory maxInferences next rest s st
    | (false, _) => (.more, st)
  | .notUnify l r :: rest, s, st =>
    if (s.unify l r).1 then (.more, st) else level theory maxInferences next rest s st
  | .not goal :: rest, s, st =>
    let (_, inner) := next [goal] s { st with wanted := 1, answers := [] }
    let after := { inner with wanted := st.wanted, answers := st.answers }
    if inner.answers.isEmpty then level theory maxInferences next rest s after else (.more, after)
  | .call t :: rest, s, st =>
    let goal := s.resolve t
    match goal.functor? with
    | none => (.more, st)
    | some key =>
      let st := { st with inferences := st.inferences + 1 }
      if maxInferences < st.inferences then (.stop, { st with truncated := true })
      else
        match builtin? key with
        | some true => level theory maxInferences next rest s st
        | some false => (.more, st)
        | none => tryClauses next goal rest s (theory.candidates key) st

/-- Solves goals with `levels` levels of depth left. Without a level only the empty conjunction is
solved. -/
def prove (theory : Theory) (maxInferences : Nat) : (levels : Nat) → Run
  | 0, [], s, st => emit s st
  | 0, _ :: _, _, st => (.more, { st with truncated := true })
  | levels + 1, goals, s, st =>
    level theory maxInferences (prove theory maxInferences levels) goals s st

/-! ## Whole searches -/

/-- The search for the answers of a query. -/
def run (theory : Theory) (bounds : Bounds) (query : Query) : Flow × State :=
  prove theory bounds.maxInferences (bounds.maxDepth + 1) query.goals ∅
    (.initial (max 1 bounds.maxSolutions))

end Search

end OntoLogic
