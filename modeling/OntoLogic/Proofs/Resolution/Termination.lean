-- SUMMARY: A bounded search returns, in one way, whatever the theory and wherever a bound is met.
import OntoLogic.Proofs.Resolution.Node
import OntoLogic.Proofs.Substitution.Acyclic

/-!
# Bounded searches return

Solving goals and trying clauses call each other. A call is smaller than the one that makes it:
fewer levels of depth are left, or there are as many and fewer goals, or as many of both and fewer
clauses. Neither the goals nor the inferences alone get fewer. The body of a clause comes with new
goals, and a negation goes on after a search that has used up the inferences.

The rules below are the search without limits on its recursion, down to the unification of terms.
They also allow the search to be called off, which it notices when it makes an inference, and they
write down every copy of a clause that is made. What a call returns is determined, and if the search
is not called off it is what the functions return.
-/

namespace OntoLogic.Search

/-! ## Calls under way -/

/-- A call that is under way. -/
inductive Frame where
  /-- Solving goals at some depth. -/
  | solve (depth : Nat) (goals : List Goal)
  /-- Trying clauses for a term of a goal and what it stands for, in front of other goals. -/
  | clauses (depth : Nat) (t goal : Term) (rest : List Goal) (cs : List Clause)

/-- What a call may go on with, whatever the bindings and the counts are. -/
inductive Invokes (theory : Theory) (maxDepth : Nat) : Frame → Frame → Prop where
  /-- The other goals. -/
  | rest {d g rest} : d ≤ maxDepth → Invokes theory maxDepth (.solve d (g :: rest)) (.solve d rest)
  /-- The goal of a negation. -/
  | asking {d g rest} : d ≤ maxDepth →
    Invokes theory maxDepth (.solve d (.not g :: rest)) (.solve (d + 1) [g])
  /-- The clauses of a predicate. -/
  | call {d t goal rest key} : d ≤ maxDepth → Invokes theory maxDepth (.solve d (.call t :: rest))
    (.clauses d t goal rest (theory.candidates key))
  /-- A copy of the body of a clause. -/
  | body {d t goal rest c cs} (k : Nat) : Invokes theory maxDepth
    (.clauses d t goal rest (c :: cs)) (.solve (d + 1) (c.body.map (Goal.rename k) ++ rest))
  /-- The next clause. -/
  | next {d t goal rest c cs} : Invokes theory maxDepth
    (.clauses d t goal rest (c :: cs)) (.clauses d t goal rest cs)

/-- The levels that are left, the goals and the clauses. Too deep nothing is left to do. -/
def Frame.rank (maxDepth : Nat) : Frame → Nat × Nat × Nat
  | .solve d goals => if d ≤ maxDepth then (maxDepth + 1 - d, goals.length, 0) else (0, 0, 0)
  | .clauses d _ _ rest cs => (maxDepth + 1 - d, rest.length, cs.length + 1)

/-- The order of ranks: by levels, then by goals, then by clauses. -/
def RankLt : Nat × Nat × Nat → Nat × Nat × Nat → Prop :=
  Prod.Lex (· < ·) (Prod.Lex (· < ·) (· < ·))

theorem wellFounded_rankLt : WellFounded RankLt :=
  Nat.lt_wfRel.wf.prod_lex (Nat.lt_wfRel.wf.prod_lex Nat.lt_wfRel.wf)

theorem rankLt_iff {a b c a' b' c' : Nat} :
    RankLt (a, b, c) (a', b', c') ↔ a < a' ∨ a = a' ∧ (b < b' ∨ b = b' ∧ c < c') := by
  simp [RankLt, Prod.lex_def]

theorem Invokes.rank_lt {theory : Theory} {maxDepth : Nat} {f f' : Frame}
    (h : Invokes theory maxDepth f f') : RankLt (f'.rank maxDepth) (f.rank maxDepth) := by
  cases h with
  | rest hd | call hd => simp [Frame.rank, hd, rankLt_iff]
  | asking hd =>
    rw [Frame.rank, Frame.rank, if_pos hd]
    split
    · exact rankLt_iff.mpr (.inl (by omega))
    · exact rankLt_iff.mpr (.inl (by omega))
  | body k =>
    rw [Frame.rank, Frame.rank]
    split
    · exact rankLt_iff.mpr (.inl (by omega))
    · exact rankLt_iff.mpr (by omega)
  | next => simp [Frame.rank, rankLt_iff]

/-- No calls are nested without end. -/
theorem wellFounded_invokes (theory : Theory) (maxDepth : Nat) :
    WellFounded fun f' f => Invokes theory maxDepth f f' :=
  Subrelation.wf Invokes.rank_lt (InvImage.wf (Frame.rank maxDepth) wellFounded_rankLt)

/-! ## Rules of the search -/

/-- What a call of a predicate comes to before any clause is tried. -/
inductive Verdict where
  /-- The search returns. -/
  | returns (result : Flow × State)
  /-- The call succeeds. -/
  | succeeds
  /-- The clauses of the predicate are tried. -/
  | tries (key : Indicator)

/-- A call that exceeds the inferences, or that notices that the search is called off, ends it. -/
def verdict (bounds : Bounds) (calledOff : Nat → Bool) (goal : Term) (st : State) : Verdict :=
  match goal.functor? with
  | none => .returns (.more, st)
  | some key =>
    if bounds.maxInferences < st.called.inferences ∨ calledOff st.called.inferences = true then
      .returns (.stop, { st.called with truncated := true })
    else
      match builtin? key with
      | some true => .succeeds
      | some false => .returns (.more, st.called)
      | none => .tries key

/-- A copy of a clause and what the search holds when it makes the copy. -/
structure Copy where
  clause : Clause
  number : Nat
  /-- The goals, the first of which is called. -/
  goals : List Goal
  bindings : Substitution

/-- A search that is called off at certain inferences returns, and makes copies. -/
inductive Returns (theory : Theory) (bounds : Bounds) (calledOff : Nat → Bool) :
    Frame → Substitution → State → Flow × State → List Copy → Prop where
  | answer {d s st} : Returns theory bounds calledOff (.solve d []) s st (emit s st) []
  | deep {d g rest s st} : bounds.maxDepth < d →
    Returns theory bounds calledOff (.solve d (g :: rest)) s st
      (.more, { st with truncated := true }) []
  | unify {d l r rest s s' st res log} : d ≤ bounds.maxDepth → s.Unifies [l] [r] true s' →
    Returns theory bounds calledOff (.solve d rest) s' st res log →
    Returns theory bounds calledOff (.solve d (.unify l r :: rest)) s st res log
  | unify_fails {d l r rest s s' st} : d ≤ bounds.maxDepth → s.Unifies [l] [r] false s' →
    Returns theory bounds calledOff (.solve d (.unify l r :: rest)) s st (.more, st) []
  | notUnify {d l r rest s s' st res log} : d ≤ bounds.maxDepth → s.Unifies [l] [r] false s' →
    Returns theory bounds calledOff (.solve d rest) s st res log →
    Returns theory bounds calledOff (.solve d (.notUnify l r :: rest)) s st res log
  | notUnify_fails {d l r rest s s' st} : d ≤ bounds.maxDepth → s.Unifies [l] [r] true s' →
    Returns theory bounds calledOff (.solve d (.notUnify l r :: rest)) s st (.more, st) []
  /-- Whatever ended the search of a negation, without an answer the other goals are next. -/
  | not {d g rest s st flow inner log res log'} : d ≤ bounds.maxDepth →
    Returns theory bounds calledOff (.solve (d + 1) [g]) s st.asking (flow, inner) log →
    inner.answers = [] →
    Returns theory bounds calledOff (.solve d rest) s (st.resume inner) res log' →
    Returns theory bounds calledOff (.solve d (.not g :: rest)) s st res (log ++ log')
  | not_fails {d g rest s st flow inner log} : d ≤ bounds.maxDepth →
    Returns theory bounds calledOff (.solve (d + 1) [g]) s st.asking (flow, inner) log →
    inner.answers ≠ [] →
    Returns theory bounds calledOff (.solve d (.not g :: rest)) s st (.more, st.resume inner) log
  | call_returns {d t goal rest s st res} : d ≤ bounds.maxDepth → s.Resolves [t] [goal] →
    verdict bounds calledOff goal st = .returns res →
    Returns theory bounds calledOff (.solve d (.call t :: rest)) s st res []
  | call_succeeds {d t goal rest s st res log} : d ≤ bounds.maxDepth → s.Resolves [t] [goal] →
    verdict bounds calledOff goal st = .succeeds →
    Returns theory bounds calledOff (.solve d rest) s st.called res log →
    Returns theory bounds calledOff (.solve d (.call t :: rest)) s st res log
  | call_tries {d t goal key rest s st res log} : d ≤ bounds.maxDepth → s.Resolves [t] [goal] →
    verdict bounds calledOff goal st = .tries key →
    Returns theory bounds calledOff (.clauses d t goal rest (theory.candidates key)) s st.called
      res log →
    Returns theory bounds calledOff (.solve d (.call t :: rest)) s st res log
  | exhausted {d t goal rest s st} :
    Returns theory bounds calledOff (.clauses d t goal rest []) s st (.more, st) []
  /-- The head of a clause does not unify with the goal. -/
  | clash {d t goal rest c cs s s' st res log} :
    s.Unifies [goal] [c.head.rename st.copied.copies] false s' →
    Returns theory bounds calledOff (.clauses d t goal rest cs) s st.copied res log →
    Returns theory bounds calledOff (.clauses d t goal rest (c :: cs)) s st res
      (⟨c, st.copied.copies, .call t :: rest, s⟩ :: log)
  /-- The search ends with a clause. -/
  | last {d t goal rest c cs s s' st st' log} :
    s.Unifies [goal] [c.head.rename st.copied.copies] true s' →
    Returns theory bounds calledOff
      (.solve (d + 1) (c.body.map (Goal.rename st.copied.copies) ++ rest)) s' st.copied
      (.stop, st') log →
    Returns theory bounds calledOff (.clauses d t goal rest (c :: cs)) s st (.stop, st')
      (⟨c, st.copied.copies, .call t :: rest, s⟩ :: log)
  /-- After all that follows from a clause the next one is tried. -/
  | next {d t goal rest c cs s s' st st' log res log'} :
    s.Unifies [goal] [c.head.rename st.copied.copies] true s' →
    Returns theory bounds calledOff
      (.solve (d + 1) (c.body.map (Goal.rename st.copied.copies) ++ rest)) s' st.copied
      (.more, st') log →
    Returns theory bounds calledOff (.clauses d t goal rest cs) s st' res log' →
    Returns theory bounds calledOff (.clauses d t goal rest (c :: cs)) s st res
      (⟨c, st.copied.copies, .call t :: rest, s⟩ :: (log ++ log'))

variable {theory : Theory} {bounds : Bounds} {calledOff : Nat → Bool} {f : Frame}
  {s s' : Substitution} {st : State} {res res' : Flow × State} {log log' : List Copy}
  {l r t goal : Term} {b : Bool}

/-! ## Every call returns -/

theorem wellFormed_of_unifies {ls rs : List Term} (hs : s.WellFormed) (h : s.Unifies ls rs b s') :
    s'.WellFormed :=
  (h.grows hs).wellFormed hs

/-- A call returns under all bindings without circles and in all states. -/
def Frame.Halts (theory : Theory) (bounds : Bounds) (calledOff : Nat → Bool) (f : Frame) : Prop :=
  ∀ s st, s.WellFormed → ∃ res log, Returns theory bounds calledOff f s st res log

/-- Solving goals returns when what it goes on with does. -/
theorem Frame.halts_solve {d : Nat} {goals : List Goal}
    (h : ∀ f, Invokes theory bounds.maxDepth (.solve d goals) f → f.Halts theory bounds calledOff) :
    (Frame.solve d goals).Halts theory bounds calledOff := by
  intro s st hs
  cases goals with
  | nil => exact ⟨_, _, .answer⟩
  | cons g rest =>
    rcases Nat.lt_or_ge bounds.maxDepth d with hd | hd
    · exact ⟨_, _, .deep hd⟩
    have hrest := h _ (.rest hd)
    cases g with
    | unify l r =>
      have hunify := hs.unifies l r
      cases hb : (s.unify l r).1 with
      | false => exact ⟨_, _, .unify_fails hd (hb ▸ hunify)⟩
      | true =>
        obtain ⟨res, log, hlater⟩ := hrest _ st (wellFormed_of_unifies hs hunify)
        exact ⟨res, log, .unify hd (hb ▸ hunify) hlater⟩
    | notUnify l r =>
      have hunify := hs.unifies l r
      cases hb : (s.unify l r).1 with
      | true => exact ⟨_, _, .notUnify_fails hd (hb ▸ hunify)⟩
      | false =>
        obtain ⟨res, log, hlater⟩ := hrest s st hs
        exact ⟨res, log, .notUnify hd (hb ▸ hunify) hlater⟩
    | not g =>
      obtain ⟨⟨flow, inner⟩, log, hinner⟩ := h _ (.asking hd) s st.asking hs
      by_cases hnone : inner.answers = []
      · obtain ⟨res, log', hlater⟩ := hrest s (st.resume inner) hs
        exact ⟨res, log ++ log', .not hd hinner hnone hlater⟩
      · exact ⟨_, log, .not_fails hd hinner hnone⟩
    | call t =>
      have hgoal := hs.resolves t
      cases hverdict : verdict bounds calledOff (s.resolve t) st with
      | returns res => exact ⟨res, _, .call_returns hd hgoal hverdict⟩
      | succeeds =>
        obtain ⟨res, log, hlater⟩ := hrest s st.called hs
        exact ⟨res, log, .call_succeeds hd hgoal hverdict hlater⟩
      | tries key =>
        obtain ⟨res, log, hclauses⟩ := h _ (.call hd) s st.called hs
        exact ⟨res, log, .call_tries hd hgoal hverdict hclauses⟩

/-- Trying clauses returns when what it goes on with does. -/
theorem Frame.halts_clauses {d : Nat} {rest : List Goal} {cs : List Clause}
    (h : ∀ f, Invokes theory bounds.maxDepth (.clauses d t goal rest cs) f →
      f.Halts theory bounds calledOff) :
    (Frame.clauses d t goal rest cs).Halts theory bounds calledOff := by
  intro s st hs
  cases cs with
  | nil => exact ⟨_, _, .exhausted⟩
  | cons c cs =>
    have hnext := h _ .next
    have hunify := hs.unifies goal (c.head.rename st.copied.copies)
    cases hb : (s.unify goal (c.head.rename st.copied.copies)).1 with
    | false =>
      obtain ⟨res, log, hlater⟩ := hnext s st.copied hs
      exact ⟨res, _, .clash (hb ▸ hunify) hlater⟩
    | true =>
      obtain ⟨⟨flow, st'⟩, log, hbody⟩ :=
        h _ (.body st.copied.copies) _ st.copied (wellFormed_of_unifies hs hunify)
      cases flow with
      | stop => exact ⟨_, _, .last (hb ▸ hunify) hbody⟩
      | more =>
        obtain ⟨res, log', hlater⟩ := hnext s st' hs
        exact ⟨res, _, .next (hb ▸ hunify) hbody hlater⟩

/-- The induction is on what a call goes on with, so it needs no bound on the calls that follow. -/
theorem Frame.halts (theory : Theory) (bounds : Bounds) (calledOff : Nat → Bool) (f : Frame) :
    f.Halts theory bounds calledOff := by
  induction f using (wellFounded_invokes theory bounds.maxDepth).induction with
  | _ f ih =>
    cases f with
    | solve d goals => exact halts_solve ih
    | clauses d t goal rest cs => exact halts_clauses ih

/-- What a call returns, and the copies it makes, are determined. -/
theorem Returns.unique (h : Returns theory bounds calledOff f s st res log)
    (h' : Returns theory bounds calledOff f s st res' log') : res = res' ∧ log = log' := by
  induction h generalizing res' log' with
  | answer =>
    cases h'
    exact ⟨rfl, rfl⟩
  | deep hd =>
    cases h' with
    | deep => exact ⟨rfl, rfl⟩
    | unify hd' | unify_fails hd' | notUnify hd' | notUnify_fails hd' | not hd' | not_fails hd'
    | call_returns hd' | call_succeeds hd' | call_tries hd' => exact absurd hd (Nat.not_lt.mpr hd')
  | unify hd hunify _ ih =>
    cases h' with
    | deep hd' => exact absurd hd' (Nat.not_lt.mpr hd)
    | unify _ hunify' h' =>
      obtain ⟨-, rfl⟩ := hunify.unique hunify'
      exact ih h'
    | unify_fails _ hunify' => cases (hunify.unique hunify').1
  | unify_fails hd hunify =>
    cases h' with
    | deep hd' => exact absurd hd' (Nat.not_lt.mpr hd)
    | unify _ hunify' => cases (hunify.unique hunify').1
    | unify_fails => exact ⟨rfl, rfl⟩
  | notUnify hd hunify _ ih =>
    cases h' with
    | deep hd' => exact absurd hd' (Nat.not_lt.mpr hd)
    | notUnify _ _ h' => exact ih h'
    | notUnify_fails _ hunify' => cases (hunify.unique hunify').1
  | notUnify_fails hd hunify =>
    cases h' with
    | deep hd' => exact absurd hd' (Nat.not_lt.mpr hd)
    | notUnify _ hunify' => cases (hunify.unique hunify').1
    | notUnify_fails => exact ⟨rfl, rfl⟩
  | not hd _ hnone _ ih ihrest =>
    cases h' with
    | deep hd' => exact absurd hd' (Nat.not_lt.mpr hd)
    | not _ hinner _ hrest =>
      obtain ⟨heq, rfl⟩ := ih hinner
      cases heq
      obtain ⟨rfl, rfl⟩ := ihrest hrest
      exact ⟨rfl, rfl⟩
    | not_fails _ hinner hsome =>
      cases (ih hinner).1
      exact absurd hnone hsome
  | not_fails hd _ hsome ih =>
    cases h' with
    | deep hd' => exact absurd hd' (Nat.not_lt.mpr hd)
    | not _ hinner hnone =>
      cases (ih hinner).1
      exact absurd hnone hsome
    | not_fails _ hinner =>
      obtain ⟨heq, rfl⟩ := ih hinner
      cases heq
      exact ⟨rfl, rfl⟩
  | call_returns hd hgoal hverdict =>
    cases h' with
    | deep hd' => exact absurd hd' (Nat.not_lt.mpr hd)
    | call_returns _ hgoal' hverdict' =>
      cases hgoal.unique hgoal'
      cases hverdict.symm.trans hverdict'
      exact ⟨rfl, rfl⟩
    | call_succeeds _ hgoal' hverdict' | call_tries _ hgoal' hverdict' =>
      cases hgoal.unique hgoal'
      cases hverdict.symm.trans hverdict'
  | call_succeeds hd hgoal hverdict _ ih =>
    cases h' with
    | deep hd' => exact absurd hd' (Nat.not_lt.mpr hd)
    | call_succeeds _ _ _ h' => exact ih h'
    | call_returns _ hgoal' hverdict' | call_tries _ hgoal' hverdict' =>
      cases hgoal.unique hgoal'
      cases hverdict.symm.trans hverdict'
  | call_tries hd hgoal hverdict _ ih =>
    cases h' with
    | deep hd' => exact absurd hd' (Nat.not_lt.mpr hd)
    | call_tries _ hgoal' hverdict' h' =>
      cases hgoal.unique hgoal'
      cases hverdict.symm.trans hverdict'
      exact ih h'
    | call_returns _ hgoal' hverdict' | call_succeeds _ hgoal' hverdict' =>
      cases hgoal.unique hgoal'
      cases hverdict.symm.trans hverdict'
  | exhausted =>
    cases h'
    exact ⟨rfl, rfl⟩
  | clash hunify _ ih =>
    cases h' with
    | clash _ h' =>
      obtain ⟨rfl, rfl⟩ := ih h'
      exact ⟨rfl, rfl⟩
    | last hunify' | next hunify' => cases (hunify.unique hunify').1
  | last hunify _ ih =>
    cases h' with
    | clash hunify' => cases (hunify.unique hunify').1
    | last hunify' h' =>
      obtain ⟨-, rfl⟩ := hunify.unique hunify'
      obtain ⟨heq, rfl⟩ := ih h'
      exact ⟨heq, rfl⟩
    | next hunify' h' =>
      obtain ⟨-, rfl⟩ := hunify.unique hunify'
      cases (ih h').1
  | next hunify _ _ ih ihnext =>
    cases h' with
    | clash hunify' => cases (hunify.unique hunify').1
    | last hunify' h' =>
      obtain ⟨-, rfl⟩ := hunify.unique hunify'
      cases (ih h').1
    | next hunify' h' hnext =>
      obtain ⟨-, rfl⟩ := hunify.unique hunify'
      obtain ⟨heq, rfl⟩ := ih h'
      cases heq
      obtain ⟨rfl, rfl⟩ := ihnext hnext
      exact ⟨rfl, rfl⟩

/-! ## Searches that are not called off -/

/-- What the functions of the search return for a call. -/
def Frame.run (theory : Theory) (bounds : Bounds) : Frame → Substitution → State → Flow × State
  | .solve d goals, s, st =>
    prove theory bounds.maxInferences (bounds.maxDepth + 1 - d) goals s st
  | .clauses d _ goal rest cs, s, st =>
    tryClauses (prove theory bounds.maxInferences (bounds.maxDepth - d)) goal rest s cs st

variable {d k : Nat} {goals rest : List Goal}

theorem Frame.run_solve (hd : d ≤ bounds.maxDepth) :
    Frame.run theory bounds (.solve d goals) s st =
      prove theory bounds.maxInferences (bounds.maxDepth - d + 1) goals s st := by
  rw [Frame.run, Nat.sub_add_comm hd]

theorem Frame.run_solve_succ : Frame.run theory bounds (.solve (d + 1) goals) s st =
    prove theory bounds.maxInferences (bounds.maxDepth - d) goals s st := by
  rw [Frame.run, Nat.add_sub_add_right]

theorem prove_verdict (hoff : ∀ n, calledOff n = false) :
    prove theory bounds.maxInferences (k + 1) (.call t :: rest) s st =
      match verdict bounds calledOff (s.resolve t) st with
      | .returns res => res
      | .succeeds => prove theory bounds.maxInferences (k + 1) rest s st.called
      | .tries key => tryClauses (prove theory bounds.maxInferences k) (s.resolve t) rest s
        (theory.candidates key) st.called := by
  unfold verdict
  cases hkey : (s.resolve t).functor? with
  | none => exact prove_not_callable hkey
  | some key =>
    rcases Nat.lt_or_ge st.inferences bounds.maxInferences with hst | hst
    · have hnot : ¬bounds.maxInferences < st.called.inferences := Nat.not_lt.mpr hst
      rw [prove_call hkey hst]
      cases hbuiltin : builtin? key with
      | none => simp [hnot, hoff, hbuiltin]
      | some holds => cases holds <;> simp [hnot, hoff, hbuiltin]
    · have hover : bounds.maxInferences < st.called.inferences := Nat.lt_succ_of_le hst
      simp [prove_overrun hkey hst, hover]

theorem unify_eq_of_unifies (hs : s.WellFormed) (h : s.Unifies [l] [r] b s') :
    s.unify l r = (b, s') :=
  Prod.ext_iff.mpr ((hs.unifies l r).unique h)

/-- A search that is not called off returns what the functions return. -/
theorem Returns.eq_run (h : Returns theory bounds calledOff f s st res log)
    (hoff : ∀ n, calledOff n = false) (hs : s.WellFormed) : res = f.run theory bounds s st := by
  induction h with
  | answer => exact prove_nil.symm
  | deep hd => rw [Frame.run, Nat.sub_eq_zero_of_le hd, prove_zero]
  | unify hd hunify _ ih =>
    rw [ih (wellFormed_of_unifies hs hunify), Frame.run_solve hd, Frame.run_solve hd, prove_unify,
      unify_eq_of_unifies hs hunify]
  | unify_fails hd hunify =>
    rw [Frame.run_solve hd, prove_unify, unify_eq_of_unifies hs hunify]
  | notUnify hd hunify _ ih =>
    rw [ih hs, Frame.run_solve hd, Frame.run_solve hd, prove_notUnify,
      unify_eq_of_unifies hs hunify]
    rfl
  | notUnify_fails hd hunify =>
    rw [Frame.run_solve hd, prove_notUnify, unify_eq_of_unifies hs hunify]
    rfl
  | @not d g rest s st flow inner log res log' hd _ hnone _ ih ihrest =>
    have hinner := ih hs
    rw [Frame.run_solve_succ] at hinner
    rw [ihrest hs, Frame.run_solve hd, Frame.run_solve hd,
      prove_not (congrArg Prod.snd hinner.symm), hnone]
    rfl
  | @not_fails d g rest s st flow inner log hd _ hsome ih =>
    have hinner := ih hs
    rw [Frame.run_solve_succ] at hinner
    rw [Frame.run_solve hd, prove_not (congrArg Prod.snd hinner.symm),
      if_neg (by simpa using hsome)]
  | call_returns hd hgoal hverdict =>
    cases hgoal.unique (hs.resolves _)
    rw [Frame.run_solve hd, prove_verdict hoff, hverdict]
  | call_succeeds hd hgoal hverdict _ ih =>
    cases hgoal.unique (hs.resolves _)
    rw [ih hs, Frame.run_solve hd, Frame.run_solve hd, prove_verdict hoff, hverdict]
  | call_tries hd hgoal hverdict _ ih =>
    cases hgoal.unique (hs.resolves _)
    rw [ih hs, Frame.run_solve hd, prove_verdict hoff, hverdict]
    rfl
  | exhausted => rfl
  | clash hunify _ ih =>
    rw [ih hs, Frame.run, Frame.run, tryClauses_cons,
      attempt_of_clash (by rw [unify_eq_of_unifies hs hunify])]
  | last hunify _ ih =>
    have hbody := ih (wellFormed_of_unifies hs hunify)
    rw [Frame.run_solve_succ] at hbody
    rw [Frame.run, tryClauses_cons, attempt_of_unify (unify_eq_of_unifies hs hunify), ← hbody]
  | next hunify _ _ ih ihnext =>
    have hbody := ih (wellFormed_of_unifies hs hunify)
    rw [Frame.run_solve_succ] at hbody
    rw [ihnext hs, Frame.run, Frame.run, tryClauses_cons,
      attempt_of_unify (unify_eq_of_unifies hs hunify), ← hbody]

/-! ## Whole searches -/

/-- A search for the answers of a query returns, and makes copies. -/
def RunReturns (theory : Theory) (bounds : Bounds) (calledOff : Nat → Bool) (query : Query) :
    Flow × State → List Copy → Prop :=
  Returns theory bounds calledOff (.solve 0 query.goals) ∅ (.initial (max 1 bounds.maxSolutions))

theorem existsUnique_returns (theory : Theory) (bounds : Bounds) (calledOff : Nat → Bool)
    (f : Frame) (hs : s.WellFormed) (st : State) :
    ∃! p : (Flow × State) × List Copy, Returns theory bounds calledOff f s st p.1 p.2 := by
  obtain ⟨res, log, h⟩ := f.halts theory bounds calledOff s st hs
  exact ⟨(res, log), h, fun p h' => Prod.ext_iff.mpr (h'.unique h)⟩

/-- Nested calls come to an end. So each call returns in exactly one way, under whatever bindings it
is made, whatever has been counted before and whenever the search is called off, and so does a whole
search. Without being called off it returns what the function returns. -/
theorem run_returns (theory : Theory) (bounds : Bounds) (calledOff : Nat → Bool) (query : Query) :
    (WellFounded fun f' f => Invokes theory bounds.maxDepth f f') ∧
    (∀ f s st, s.Reachable →
      ∃! p : (Flow × State) × List Copy, Returns theory bounds calledOff f s st p.1 p.2) ∧
    (∃! p : (Flow × State) × List Copy, RunReturns theory bounds calledOff query p.1 p.2) ∧
    ((∀ n, calledOff n = false) →
      ∃ log, RunReturns theory bounds calledOff query (run theory bounds query) log) := by
  have hempty : (∅ : Substitution).WellFormed := Substitution.wellFormed_empty
  refine ⟨wellFounded_invokes theory bounds.maxDepth, fun f s st hs => ?_, ?_, fun hoff => ?_⟩
  · exact existsUnique_returns theory bounds calledOff f hs.wellFormed st
  · exact existsUnique_returns theory bounds calledOff _ hempty _
  · obtain ⟨res, log, h⟩ := Frame.halts theory bounds calledOff (.solve 0 query.goals) ∅
      (.initial (max 1 bounds.maxSolutions)) hempty
    obtain rfl : res = run theory bounds query := h.eq_run hoff hempty
    exact ⟨log, h⟩

/-- The bound of the inferences is met in a negation, then an equation and the next clause follow,
then the bound is met in a negation again. The answer after it is the one that is always wanted. -/
theorem run_returns_after_negation :
    let texts := ["loop :- loop.", "p(X) :- \\+ loop, X = a, X = b.", "p(X) :- \\+ loop, X = b."]
    let theory := (Theory.load texts).toOption.getD .empty
    let query := (Query.parse "p(X)").toOption.getD ⟨[]⟩
    let bounds : Bounds := ⟨3, 0, 2⟩
    Theory.load texts = .ok theory ∧ Query.parse "p(X)" = .ok query ∧
    (run theory bounds query).2.inferences = 4 ∧ (run theory bounds query).2.copies = 3 ∧
    (run theory bounds query).2.answers.map (·.resolve (.var "X")) = [.atom "b"] ∧
    (∃! p : (Flow × State) × List Copy,
      Returns theory bounds (fun _ => false) (.solve 0 query.goals) ∅ (.initial 1) p.1 p.2) ∧
    ∃ log, RunReturns theory bounds (fun _ => false) query (run theory bounds query) log := by
  intro texts theory query bounds
  obtain ⟨-, hreturns, -, hrun⟩ := run_returns theory bounds (fun _ => false) query
  exact ⟨by rfl, by rfl, by decide +kernel, by decide +kernel, by decide +kernel,
    hreturns (.solve 0 query.goals) ∅ (.initial 1) .empty, hrun fun _ => rfl⟩

end OntoLogic.Search
