-- SUMMARY: The search without bounds, by rules, and that it ends in at most one way.
import OntoLogic.Proofs.Resolution.Node

/-!
# The search without bounds

A search without bounds goes on forever or ends with a list of answers. The rules below say how it
ends. It takes the goals from left to right. For a call it tries the clauses of the predicate in
order, and goes through all that follows from the body of one clause before it tries the next one. A
search for one answer, which is what a negation makes, ends with the first answer; any other search
goes through everything.

The rules also count what a search takes: copies of clauses, calls, levels of depth.
-/

namespace OntoLogic.Search

/-! ## Outcomes -/

/-- What a search has to do. -/
inductive Task where
  | solve (goals : List Goal)
  | clauses (goal : Term) (rest : List Goal) (clauses : List Clause)

/-- What a search that has ended has found, and what it took. -/
structure Outcome where
  /-- In the order in which they are found. -/
  answers : List Substitution
  copies : Nat
  calls : Nat
  /-- How many levels of depth have been entered. -/
  levels : Nat

namespace Outcome

def nothing : Outcome := ⟨[], 0, 0, 0⟩

/-- One goal has been looked at. -/
def goal : Outcome := ⟨[], 0, 0, 1⟩

/-- One predicate has been called. -/
def call : Outcome := ⟨[], 0, 1, 1⟩

/-- One copy of a clause has been made. -/
def copy : Outcome := ⟨[], 1, 0, 0⟩

/-- One search after another. -/
def andThen (r r' : Outcome) : Outcome where
  answers := r.answers ++ r'.answers
  copies := r.copies + r'.copies
  calls := r.calls + r'.calls
  levels := max r.levels r'.levels

/-- A search on the next level. -/
def below (r : Outcome) : Outcome :=
  { r with levels := r.levels + 1 }

/-- What the search of a negation leaves behind. -/
def asked (r : Outcome) : Outcome :=
  { r.below with answers := [] }

/-- A search for one answer ends with it. -/
def ends (once : Bool) (r : Outcome) : Bool :=
  once && !r.answers.isEmpty

end Outcome

/-- A search without bounds, before which so many copies have been made, ends. -/
inductive Ends (theory : Theory) : (once : Bool) → Task → Substitution → (copies : Nat) →
    Outcome → Prop
  | answer {once s k} : Ends theory once (.solve []) s k ⟨[s], 0, 0, 0⟩
  | unify {once l r rest s s' k o} : s.unify l r = (true, s') →
    Ends theory once (.solve rest) s' k o →
    Ends theory once (.solve (.unify l r :: rest)) s k (.andThen .goal o)
  | unify_fails {once l r rest s k} : (s.unify l r).1 = false →
    Ends theory once (.solve (.unify l r :: rest)) s k .goal
  | notUnify {once l r rest s k o} : (s.unify l r).1 = false →
    Ends theory once (.solve rest) s k o →
    Ends theory once (.solve (.notUnify l r :: rest)) s k (.andThen .goal o)
  | notUnify_fails {once l r rest s k} : (s.unify l r).1 = true →
    Ends theory once (.solve (.notUnify l r :: rest)) s k .goal
  | not {once g rest s k inner o} : Ends theory true (.solve [g]) s k inner →
    inner.answers = [] → Ends theory once (.solve rest) s (k + inner.copies) o →
    Ends theory once (.solve (.not g :: rest)) s k (inner.asked.andThen o)
  | not_fails {once g rest s k inner} : Ends theory true (.solve [g]) s k inner →
    inner.answers ≠ [] → Ends theory once (.solve (.not g :: rest)) s k inner.asked
  | not_callable {once t rest s k} : (s.resolve t).functor? = none →
    Ends theory once (.solve (.call t :: rest)) s k .goal
  | truth {once t key rest s k o} : (s.resolve t).functor? = some key →
    builtin? key = some true → Ends theory once (.solve rest) s k o →
    Ends theory once (.solve (.call t :: rest)) s k (.andThen .call o)
  | falsity {once t key rest s k} : (s.resolve t).functor? = some key →
    builtin? key = some false → Ends theory once (.solve (.call t :: rest)) s k .call
  | call {once t key rest s k o} : (s.resolve t).functor? = some key → builtin? key = none →
    Ends theory once (.clauses (s.resolve t) rest (theory.candidates key)) s k o →
    Ends theory once (.solve (.call t :: rest)) s k (.andThen .call o)
  /-- No clause is left. -/
  | exhausted {once goal rest s k} : Ends theory once (.clauses goal rest []) s k .nothing
  /-- The head of a clause does not unify with the goal. -/
  | clash {once goal rest c cs s k o} : (s.unify goal (c.head.rename (k + 1))).1 = false →
    Ends theory once (.clauses goal rest cs) s (k + 1) o →
    Ends theory once (.clauses goal rest (c :: cs)) s k (.andThen .copy o)
  /-- The search ends with a clause. -/
  | last {once goal rest c cs s s' k o} :
    s.unify goal (c.head.rename (k + 1)) = (true, s') →
    Ends theory once (.solve (c.body.map (Goal.rename (k + 1)) ++ rest)) s' (k + 1) o →
    o.ends once = true →
    Ends theory once (.clauses goal rest (c :: cs)) s k (.andThen .copy o.below)
  /-- After all that follows from a clause the next one is tried. -/
  | next {once goal rest c cs s s' k o o'} :
    s.unify goal (c.head.rename (k + 1)) = (true, s') →
    Ends theory once (.solve (c.body.map (Goal.rename (k + 1)) ++ rest)) s' (k + 1) o →
    o.ends once = false →
    Ends theory once (.clauses goal rest cs) s (k + 1 + o.copies) o' →
    Ends theory once (.clauses goal rest (c :: cs)) s k ((Outcome.andThen .copy o.below).andThen o')

/-- A search without bounds ends in one way. -/
theorem Ends.unique {theory : Theory} {once : Bool} {task : Task} {s : Substitution} {k : Nat}
    {o o' : Outcome} (h : Ends theory once task s k o) (h' : Ends theory once task s k o') :
    o = o' := by
  induction h generalizing o' with
  | answer =>
    cases h'
    rfl
  | unify hunify _ ih =>
    cases h' with
    | unify hunify' h' =>
      obtain ⟨-, rfl⟩ := Prod.mk.inj (hunify.symm.trans hunify')
      rw [ih h']
    | unify_fails hfail => simp [hunify] at hfail
  | unify_fails hfail =>
    cases h' with
    | unify hunify => simp [hunify] at hfail
    | unify_fails => rfl
  | notUnify hfail _ ih =>
    cases h' with
    | notUnify _ h' => rw [ih h']
    | notUnify_fails hunify => simp [hunify] at hfail
  | notUnify_fails hunify =>
    cases h' with
    | notUnify hfail => simp [hunify] at hfail
    | notUnify_fails => rfl
  | not _ hnone _ ih ihrest =>
    cases h' with
    | not hinner _ hrest =>
      obtain rfl := ih hinner
      rw [ihrest hrest]
    | not_fails hinner hsome =>
      obtain rfl := ih hinner
      exact absurd hnone hsome
  | not_fails _ hsome ih =>
    cases h' with
    | not hinner hnone _ =>
      obtain rfl := ih hinner
      exact absurd hnone hsome
    | not_fails hinner _ => rw [ih hinner]
  | not_callable hkey =>
    cases h' with
    | not_callable => rfl
    | truth hkey' | falsity hkey' | call hkey' => simp [hkey] at hkey'
  | truth hkey htrue _ ih =>
    cases h' with
    | not_callable hkey' => simp [hkey] at hkey'
    | truth _ _ h' => rw [ih h']
    | falsity hkey' hfalse | call hkey' hfalse =>
      obtain rfl := Option.some.inj (hkey.symm.trans hkey')
      simp [htrue] at hfalse
  | falsity hkey hfalse =>
    cases h' with
    | not_callable hkey' => simp [hkey] at hkey'
    | falsity => rfl
    | truth hkey' htrue | call hkey' htrue =>
      obtain rfl := Option.some.inj (hkey.symm.trans hkey')
      simp [hfalse] at htrue
  | call hkey hnone _ ih =>
    cases h' with
    | not_callable hkey' => simp [hkey] at hkey'
    | truth hkey' hsome | falsity hkey' hsome =>
      obtain rfl := Option.some.inj (hkey.symm.trans hkey')
      simp [hnone] at hsome
    | call hkey' _ h' =>
      obtain rfl := Option.some.inj (hkey.symm.trans hkey')
      rw [ih h']
  | exhausted =>
    cases h'
    rfl
  | clash hfail _ ih =>
    cases h' with
    | clash _ h' => rw [ih h']
    | last hunify | next hunify => simp [hunify] at hfail
  | last hunify _ hends ih =>
    cases h' with
    | clash hfail => simp [hunify] at hfail
    | last hunify' h' _ =>
      obtain ⟨-, rfl⟩ := Prod.mk.inj (hunify.symm.trans hunify')
      rw [ih h']
    | next hunify' h' hends' _ =>
      obtain ⟨-, rfl⟩ := Prod.mk.inj (hunify.symm.trans hunify')
      obtain rfl := ih h'
      simp [hends] at hends'
  | next hunify _ hends _ ih ihnext =>
    cases h' with
    | clash hfail => simp [hunify] at hfail
    | last hunify' h' hends' =>
      obtain ⟨-, rfl⟩ := Prod.mk.inj (hunify.symm.trans hunify')
      obtain rfl := ih h'
      simp [hends] at hends'
    | next hunify' h' _ hnext =>
      obtain ⟨-, rfl⟩ := Prod.mk.inj (hunify.symm.trans hunify')
      obtain rfl := ih h'
      rw [ihnext hnext]

end OntoLogic.Search
