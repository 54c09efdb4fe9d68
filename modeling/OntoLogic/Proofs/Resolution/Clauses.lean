-- SUMMARY: How a search tries the clauses for a goal, and what it never takes back.
import Mathlib.Data.List.Infix
import OntoLogic.Proofs.Substitution.Unify
import OntoLogic.Resolution.Search

/-!
# Trying clauses

The clauses for a goal are tried in order, each with a search for its body and the goals after it.
Whatever that search is, it is enough to know what it does with each clause: the search among the
clauses ends with one of them or goes on after all, and what it finds it finds with one of them.
-/

namespace OntoLogic.Search

/-! ## States -/

namespace State

def called (st : State) : State :=
  { st with inferences := st.inferences + 1 }

def copied (st : State) : State :=
  { st with copies := st.copies + 1 }

/-- The state before the search of a negation. -/
def asking (st : State) : State :=
  { st with wanted := 1, answers := [] }

/-- The state after the search of a negation that has ended with `inner`. -/
def resume (st inner : State) : State :=
  { inner with wanted := st.wanted, answers := st.answers }

/-- What a search never takes back: a bound that was met, the copies, the answers. -/
structure Follows (st st' : State) : Prop where
  truncated : st.truncated = true → st'.truncated = true
  copies : st.copies ≤ st'.copies
  answers : st.answers <:+ st'.answers

variable {st st' st'' : State}

theorem Follows.refl (st : State) : st.Follows st :=
  ⟨id, Nat.le_refl _, List.suffix_rfl⟩

theorem Follows.trans (h : st.Follows st') (h' : st'.Follows st'') : st.Follows st'' :=
  ⟨h'.truncated ∘ h.truncated, h.copies.trans h'.copies, h.answers.trans h'.answers⟩

theorem follows_called (st : State) : st.Follows st.called :=
  ⟨id, Nat.le_refl _, List.suffix_rfl⟩

theorem follows_copied (st : State) : st.Follows st.copied :=
  ⟨id, Nat.le_succ _, List.suffix_rfl⟩

theorem Follows.resume (h : st.asking.Follows st') : st.Follows (st.resume st') :=
  ⟨h.truncated, h.copies, List.suffix_rfl⟩

theorem Follows.truncated_eq_false (h : st.Follows st') (ht : st'.truncated = false) :
    st.truncated = false :=
  Bool.eq_false_iff.mpr fun hst => Bool.eq_false_iff.mp ht (h.truncated hst)

end State

/-! ## Trying clauses -/

section Clauses

variable (run : Run) (goal : Term) (rest : List Goal) (s : Substitution)

/-- Tries one clause for a goal. -/
def attempt (c : Clause) (st : State) : Flow × State :=
  match s.unify goal (c.head.rename st.copied.copies) with
  | (false, _) => (.more, st.copied)
  | (true, s') => run (c.body.map (Goal.rename st.copied.copies) ++ rest) s' st.copied

/-- A clause of a list is tried in a state when those before it have let the search go on. -/
inductive Tries : List Clause → State → Clause → State → Prop where
  | here (c : Clause) (cs : List Clause) (st : State) : Tries (c :: cs) st c st
  | later {c c' : Clause} {cs : List Clause} {st st₁ st' : State} :
    attempt run goal rest s c st = (.more, st₁) → Tries cs st₁ c' st' → Tries (c :: cs) st c' st'

variable {run : Run} {goal : Term} {rest : List Goal} {s : Substitution} {c : Clause}
  {cs : List Clause} {st st' : State}

theorem tryClauses_cons :
    tryClauses run goal rest s (c :: cs) st =
      match attempt run goal rest s c st with
      | (.stop, st) => (.stop, st)
      | (.more, st) => tryClauses run goal rest s cs st := by
  simp only [tryClauses, attempt, State.copied]
  generalize s.unify goal (c.head.rename (st.copies + 1)) = result
  obtain ⟨_ | _, s'⟩ := result
  · rfl
  · rfl

theorem attempt_of_clash (h : (s.unify goal (c.head.rename st.copied.copies)).1 = false) :
    attempt run goal rest s c st = (.more, st.copied) := by
  have hunify : s.unify goal (c.head.rename st.copied.copies) =
      (false, (s.unify goal (c.head.rename st.copied.copies)).2) := Prod.ext h rfl
  unfold attempt
  rw [hunify]

theorem attempt_of_unify {s' : Substitution}
    (h : s.unify goal (c.head.rename st.copied.copies) = (true, s')) :
    attempt run goal rest s c st =
      run (c.body.map (Goal.rename st.copied.copies) ++ rest) s' st.copied := by
  unfold attempt
  rw [h]

theorem Tries.mem (h : Tries run goal rest s cs st c st') : c ∈ cs := by
  induction h with
  | here c cs st => exact List.mem_cons_self
  | later _ _ ih => exact List.mem_cons_of_mem _ ih

theorem attempt_follows (hrun : ∀ goals s st, State.Follows st (run goals s st).2) :
    st.Follows (attempt run goal rest s c st).2 := by
  unfold attempt
  split
  · exact st.follows_copied
  · exact st.follows_copied.trans (hrun _ _ _)

theorem tryClauses_follows (hrun : ∀ goals s st, State.Follows st (run goals s st).2) :
    st.Follows (tryClauses run goal rest s cs st).2 := by
  induction cs generalizing st with
  | nil => exact .refl st
  | cons c cs ih =>
    have hhead : st.Follows (attempt run goal rest s c st).2 := attempt_follows hrun
    rw [tryClauses_cons]
    split
    · next st₁ heq => exact heq ▸ hhead
    · next st₁ heq =>
      rw [heq] at hhead
      exact hhead.trans ih

theorem Tries.follows (hrun : ∀ goals s st, State.Follows st (run goals s st).2)
    (h : Tries run goal rest s cs st c st') : st.Follows st' := by
  induction h with
  | here c cs st => exact .refl st
  | @later c _ _ st st₁ _ heq _ ih =>
    have hhead : st.Follows (attempt run goal rest s c st).2 := attempt_follows hrun
    rw [heq] at hhead
    exact hhead.trans ih

/-- The state after a clause is not taken back by the clauses after it. -/
theorem Tries.attempt_follows (hrun : ∀ goals s st, State.Follows st (run goals s st).2)
    (h : Tries run goal rest s cs st c st') :
    (attempt run goal rest s c st').2.Follows (tryClauses run goal rest s cs st).2 := by
  induction h with
  | here c cs st =>
    rw [tryClauses_cons]
    split
    · next st₁ heq => exact heq ▸ .refl _
    · next st₁ heq => exact heq ▸ tryClauses_follows hrun
  | later heq _ ih =>
    rw [tryClauses_cons, heq]
    exact ih

/-- A search that goes on after the clauses has gone on after each of them. -/
theorem Tries.attempt_more (h : Tries run goal rest s cs st c st')
    (hmore : (tryClauses run goal rest s cs st).1 = .more) :
    (attempt run goal rest s c st').1 = .more := by
  induction h with
  | here c cs st =>
    rw [tryClauses_cons] at hmore
    split at hmore
    · exact absurd hmore (by simp)
    · next st₁ heq => rw [heq]
  | later heq _ ih =>
    rw [tryClauses_cons, heq] at hmore
    exact ih hmore

theorem exists_tries (hmore : (tryClauses run goal rest s cs st).1 = .more) (hc : c ∈ cs) :
    ∃ st', Tries run goal rest s cs st c st' := by
  induction cs generalizing st with
  | nil => cases hc
  | cons c' cs ih =>
    rw [tryClauses_cons] at hmore
    split at hmore
    · exact absurd hmore (by simp)
    · next st₁ heq =>
      cases hc with
      | head => exact ⟨st, .here c cs st⟩
      | tail _ hc =>
        obtain ⟨st', htries⟩ := ih hmore hc
        exact ⟨st', .later heq htries⟩

/-- A search that ends within the clauses ends with one of them. -/
theorem tryClauses_stop (hstop : (tryClauses run goal rest s cs st).1 = .stop) :
    ∃ c st', Tries run goal rest s cs st c st' ∧
      tryClauses run goal rest s cs st = attempt run goal rest s c st' := by
  induction cs generalizing st with
  | nil => exact absurd hstop (by simp [tryClauses])
  | cons c cs ih =>
    rw [tryClauses_cons] at hstop ⊢
    split at hstop
    · next st₁ heq => exact ⟨c, st, .here c cs st, by rw [heq]⟩
    · next st₁ heq =>
      obtain ⟨c', st', htries, hend⟩ := ih hstop
      exact ⟨c', st', .later heq htries, hend⟩

/-- What is lost among the clauses is lost with one of them. -/
theorem tryClauses_loses {P : State → Prop} (hst : P st)
    (hlost : ¬P (tryClauses run goal rest s cs st).2) :
    ∃ c st', Tries run goal rest s cs st c st' ∧ P st' ∧
      ¬P (attempt run goal rest s c st').2 := by
  induction cs generalizing st with
  | nil => exact absurd hst hlost
  | cons c cs ih =>
    rw [tryClauses_cons] at hlost
    split at hlost
    · next st₁ heq => exact ⟨c, st, .here c cs st, hst, heq ▸ hlost⟩
    · next st₁ heq =>
      by_cases hst₁ : P st₁
      · obtain ⟨c', st', htries, hst', hlost'⟩ := ih hst₁ hlost
        exact ⟨c', st', .later heq htries, hst', hlost'⟩
      · exact ⟨c, st, .here c cs st, hst, heq ▸ hst₁⟩

/-- An answer that is found among the clauses is found with one of them. -/
theorem tryClauses_answers {a : Substitution}
    (ha : a ∈ (tryClauses run goal rest s cs st).2.answers) :
    a ∈ st.answers ∨ ∃ c st', Tries run goal rest s cs st c st' ∧ a ∉ st'.answers ∧
      a ∈ (attempt run goal rest s c st').2.answers := by
  by_cases hst : a ∈ st.answers
  · exact .inl hst
  · obtain ⟨c, st', htries, hnot, h⟩ :=
      tryClauses_loses (P := fun st => a ∉ st.answers) hst (not_not.mpr ha)
    exact .inr ⟨c, st', htries, hnot, not_not.mp h⟩

/-- A clause with which the search ends is the last one. -/
theorem Tries.tryClauses_eq (h : Tries run goal rest s cs st c st')
    (hstop : (attempt run goal rest s c st').1 = .stop) :
    tryClauses run goal rest s cs st = attempt run goal rest s c st' := by
  induction h with
  | here c cs st =>
    rw [tryClauses_cons]
    split
    · next st₁ heq => rw [heq]
    · next st₁ heq => exact absurd hstop (by simp [heq])
  | later heq _ ih =>
    rw [tryClauses_cons, heq]
    exact ih hstop

end Clauses

end OntoLogic.Search
