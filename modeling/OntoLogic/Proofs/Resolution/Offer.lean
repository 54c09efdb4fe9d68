-- SUMMARY: The search with clauses offered by a function, of which the search over a theory is a case.
import OntoLogic.Proofs.Resolution.Clauses

/-!
# Offered clauses

All that a search asks of a theory are the clauses to be tried for a call. Here these are offered by
a function of the predicate that is called, with an index behind it or not. The steps are those of a
search over a theory, which is offered the candidates of the predicate.
-/

namespace OntoLogic.Search

/-- Solves goals at one level of depth, with offered clauses; `next` solves goals at the level
below. -/
def levelOver (offer : Indicator → List Clause) (maxInferences : Nat) (next : Run) : Run
  | [], s, st => emit s st
  | .unify l r :: rest, s, st =>
    match s.unify l r with
    | (true, s) => levelOver offer maxInferences next rest s st
    | (false, _) => (.more, st)
  | .notUnify l r :: rest, s, st =>
    if (s.unify l r).1 then (.more, st) else levelOver offer maxInferences next rest s st
  | .not goal :: rest, s, st =>
    let (_, inner) := next [goal] s { st with wanted := 1, answers := [] }
    let after := { inner with wanted := st.wanted, answers := st.answers }
    if inner.answers.isEmpty then levelOver offer maxInferences next rest s after
    else (.more, after)
  | .call t :: rest, s, st =>
    let goal := s.resolve t
    match goal.functor? with
    | none => (.more, st)
    | some key =>
      let st := { st with inferences := st.inferences + 1 }
      if maxInferences < st.inferences then (.stop, { st with truncated := true })
      else
        match builtin? key with
        | some true => levelOver offer maxInferences next rest s st
        | some false => (.more, st)
        | none => tryClauses next goal rest s (offer key) st

/-- Solves goals with offered clauses and `levels` levels of depth left. -/
def proveOver (offer : Indicator → List Clause) (maxInferences : Nat) : (levels : Nat) → Run
  | 0, [], s, st => emit s st
  | 0, _ :: _, _, st => (.more, { st with truncated := true })
  | levels + 1, goals, s, st =>
    levelOver offer maxInferences (proveOver offer maxInferences levels) goals s st

variable {offer : Indicator → List Clause} {maxInferences k : Nat} {l r t : Term} {g : Goal}
  {goals rest : List Goal} {s : Substitution} {st : State} {key : Indicator} {next : Run}

theorem levelOver_candidates (theory : Theory) (maxInferences : Nat) (next : Run)
    (goals : List Goal) (s : Substitution) (st : State) :
    levelOver theory.candidates maxInferences next goals s st =
      level theory maxInferences next goals s st := by
  induction goals generalizing s st with
  | nil => rfl
  | cons g rest ih =>
    have hrest : levelOver theory.candidates maxInferences next rest =
        level theory maxInferences next rest := funext fun s => funext fun st => ih s st
    cases g <;> (rewrite [levelOver, level, hrest]; rfl)

/-- A search over a theory is offered the clauses that the theory finds in its index. -/
theorem proveOver_candidates (theory : Theory) (maxInferences k : Nat) :
    proveOver theory.candidates maxInferences k = prove theory maxInferences k := by
  induction k with
  | zero =>
    funext goals s st
    cases goals <;> rfl
  | succ k ih =>
    funext goals s st
    simp only [proveOver, prove, ih, levelOver_candidates]

/-! ## The first goal -/

theorem proveOver_nil : proveOver offer maxInferences k [] s st = emit s st := by
  cases k <;> rfl

theorem proveOver_unify : proveOver offer maxInferences (k + 1) (.unify l r :: rest) s st =
    match s.unify l r with
    | (true, s') => proveOver offer maxInferences (k + 1) rest s' st
    | (false, _) => (.more, st) := rfl

theorem proveOver_notUnify : proveOver offer maxInferences (k + 1) (.notUnify l r :: rest) s st =
    if (s.unify l r).1 then (.more, st)
    else proveOver offer maxInferences (k + 1) rest s st := rfl

theorem proveOver_not {inner : State}
    (h : (proveOver offer maxInferences k [g] s st.asking).2 = inner) :
    proveOver offer maxInferences (k + 1) (.not g :: rest) s st =
      if inner.answers.isEmpty then
        proveOver offer maxInferences (k + 1) rest s (st.resume inner)
      else (.more, st.resume inner) := by
  subst h
  rfl

theorem proveOver_not_callable (h : (s.resolve t).functor? = none) :
    proveOver offer maxInferences (k + 1) (.call t :: rest) s st = (.more, st) := by
  simp [proveOver, levelOver, h]

theorem proveOver_overrun (h : (s.resolve t).functor? = some key)
    (hst : maxInferences ≤ st.inferences) :
    proveOver offer maxInferences (k + 1) (.call t :: rest) s st =
      (.stop, { st.called with truncated := true }) := by
  simp [proveOver, levelOver, h, State.called, Nat.lt_succ_iff.mpr hst]

theorem proveOver_call (h : (s.resolve t).functor? = some key)
    (hst : st.inferences < maxInferences) :
    proveOver offer maxInferences (k + 1) (.call t :: rest) s st =
      match builtin? key with
      | some true => proveOver offer maxInferences (k + 1) rest s st.called
      | some false => (.more, st.called)
      | none =>
        tryClauses (proveOver offer maxInferences k) (s.resolve t) rest s (offer key)
          st.called := by
  simp only [proveOver, levelOver, h, Nat.not_lt.mpr (Nat.succ_le_iff.mpr hst), if_false]
  rfl

/-! ## What a search leaves behind -/

theorem levelOver_follows (hnext : ∀ goals s st, State.Follows st (next goals s st).2) :
    st.Follows (levelOver offer maxInferences next goals s st).2 := by
  induction goals generalizing s st with
  | nil => exact ⟨id, Nat.le_refl _, List.suffix_cons _ _⟩
  | cons g rest ih =>
    cases g with
    | unify l r =>
      unfold levelOver
      split
      · exact ih
      · exact .refl st
    | notUnify l r =>
      unfold levelOver
      split
      · exact .refl st
      · exact ih
    | not g =>
      have hasked : st.Follows (st.resume (next [g] s st.asking).2) := (hnext _ _ _).resume
      unfold levelOver
      dsimp only
      split
      · exact hasked.trans ih
      · exact hasked
    | call t =>
      unfold levelOver
      dsimp only
      split
      · exact .refl st
      · split
        · exact ⟨fun _ => rfl, Nat.le_refl _, List.suffix_rfl⟩
        · split
          · exact st.follows_called.trans ih
          · exact st.follows_called
          · exact st.follows_called.trans (tryClauses_follows hnext)

theorem proveOver_follows (k : Nat) (goals : List Goal) (s : Substitution) (st : State) :
    st.Follows (proveOver offer maxInferences k goals s st).2 := by
  induction k generalizing goals s st with
  | zero =>
    cases goals with
    | nil => exact ⟨id, Nat.le_refl _, List.suffix_cons _ _⟩
    | cons g rest => exact ⟨fun _ => rfl, Nat.le_refl _, List.suffix_rfl⟩
  | succ k ih => exact levelOver_follows ih

end OntoLogic.Search
