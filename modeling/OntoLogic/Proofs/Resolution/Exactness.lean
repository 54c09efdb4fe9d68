-- SUMMARY: A search that no bound cuts short is the search without bounds.
import OntoLogic.Proofs.Resolution.Unbounded

/-!
# Searches that no bound cuts short

A bounded search that meets no bound does what the search without bounds does, step by step. The
other way round, a bounded search does what the search without bounds does when the bounds leave
room for what that takes. So the solutions of a search that is not truncated are those of the search
without bounds, in their order, and larger bounds change nothing.

Both directions hold for every part of a search. Within a negation a search is for one answer, and
stops there; outside it must not stop at all.
-/

namespace OntoLogic.Search

variable {theory : Theory} {once : Bool} {task task' : Task} {maxInferences levels k : Nat}
  {s s' : Substitution} {st st' : State} {o o' : Outcome} {res : Flow × State}
  {l r t : Term} {g : Goal} {rest : List Goal}

/-! ## Bounded searches -/

/-- The state after a search with some outcome. -/
def State.after (st : State) (o : Outcome) : State where
  inferences := st.inferences + o.calls
  copies := st.copies + o.copies
  truncated := st.truncated
  wanted := st.wanted - o.answers.length
  answers := o.answers.reverse ++ st.answers

namespace Outcome

/-- What a bounded search gives that ends with some outcome. -/
def result (once : Bool) (st : State) (o : Outcome) : Flow × State :=
  (if o.ends once then .stop else .more, st.after o)

/-- The bounds leave room for an outcome. -/
structure Fits (once : Bool) (levels maxInferences : Nat) (st : State) (o : Outcome) : Prop where
  levels : o.levels ≤ levels
  calls : o.calls ≤ maxInferences - st.inferences
  wanted : if once then st.wanted ≤ 1 else o.answers.length ≤ st.wanted - 1

@[simp] theorem after_nothing : st.after .nothing = st := rfl
@[simp] theorem after_goal : st.after .goal = st := rfl
@[simp] theorem after_call : st.after .call = st.called := rfl
@[simp] theorem after_copy : st.after .copy = st.copied := rfl
@[simp] theorem after_below : st.after o.below = st.after o := rfl

@[simp] theorem answers_after_asking : (st.asking.after o).answers = o.answers.reverse := by
  simp [State.after, State.asking]

@[simp] theorem after_asked : st.after o.asked = st.resume (st.asking.after o) := rfl

@[simp] theorem after_andThen : st.after (o.andThen o') = (st.after o).after o' := by
  simp [State.after, andThen, Nat.add_assoc, Nat.sub_sub]

@[simp] theorem ends_nothing : nothing.ends once = false := by simp [ends, nothing]
@[simp] theorem ends_goal : goal.ends once = false := by simp [ends, goal]
@[simp] theorem ends_call : call.ends once = false := by simp [ends, call]
@[simp] theorem ends_copy : copy.ends once = false := by simp [ends, copy]
@[simp] theorem ends_below : o.below.ends once = o.ends once := rfl
@[simp] theorem ends_asked : o.asked.ends once = false := by simp [ends, asked]

@[simp] theorem ends_andThen : (o.andThen o').ends once = (o.ends once || o'.ends once) := by
  cases once <;> cases h : o.answers <;> simp [ends, andThen, h]

theorem result_andThen (h : o.ends once = false) :
    (o.andThen o').result once st = o'.result once (st.after o) := by
  simp [result, h]

theorem fits_andThen : (o.andThen o').Fits once levels maxInferences st ↔
    o.Fits once levels maxInferences st ∧ o'.Fits once levels maxInferences (st.after o) := by
  refine ⟨fun h => ?_, fun ⟨h, h'⟩ => ?_⟩
  · have hlevels : max o.levels o'.levels ≤ levels := h.levels
    have hcalls : o.calls + o'.calls ≤ maxInferences - st.inferences := h.calls
    have hwanted := h.wanted
    refine ⟨⟨by omega, by omega, ?_⟩, ⟨by omega, ?_, ?_⟩⟩
    · cases once <;> simp_all [andThen]
      omega
    · simp only [State.after]
      omega
    · cases once <;> simp_all [andThen, State.after] <;> omega
  · have hcalls : o'.calls ≤ maxInferences - (st.inferences + o.calls) := h'.calls
    have := h.calls
    refine ⟨Nat.max_le.mpr ⟨h.levels, h'.levels⟩, ?_, ?_⟩
    · simp only [andThen]
      omega
    · have hwanted := h.wanted
      have hwanted' := h'.wanted
      cases once <;> simp_all [andThen, State.after]
      omega

theorem result_eq_more (h : o.result once st = (.more, st')) :
    o.ends once = false ∧ st' = st.after o := by
  obtain ⟨hflow, hst⟩ := Prod.mk.inj h
  cases hends : o.ends once with
  | true => simp [hends] at hflow
  | false => exact ⟨rfl, hst.symm⟩

theorem result_eq_stop (h : o.result once st = (.stop, st')) : o.ends once = true := by
  have hflow := congrArg Prod.fst h
  by_contra hends
  simp [result, hends] at hflow

theorem fits_nothing (h : once = true → st.wanted ≤ 1) :
    nothing.Fits once levels maxInferences st where
  levels := Nat.zero_le _
  calls := Nat.zero_le _
  wanted := by cases once <;> simp_all [nothing]

theorem fits_goal (h : once = true → st.wanted ≤ 1) :
    goal.Fits once (levels + 1) maxInferences st where
  levels := Nat.succ_le_succ (Nat.zero_le _)
  calls := Nat.zero_le _
  wanted := by cases once <;> simp_all [goal]

theorem fits_call (h : once = true → st.wanted ≤ 1) (hst : st.inferences < maxInferences) :
    call.Fits once (levels + 1) maxInferences st where
  levels := Nat.succ_le_succ (Nat.zero_le _)
  calls := Nat.sub_pos_of_lt hst
  wanted := by cases once <;> simp_all [call]

theorem fits_copy (h : once = true → st.wanted ≤ 1) : copy.Fits once levels maxInferences st where
  levels := Nat.zero_le _
  calls := Nat.zero_le _
  wanted := by cases once <;> simp_all [copy]

theorem fits_below :
    o.below.Fits once (levels + 1) maxInferences st ↔ o.Fits once levels maxInferences st :=
  ⟨fun h => ⟨Nat.le_of_succ_le_succ h.levels, h.calls, h.wanted⟩,
    fun h => ⟨Nat.succ_le_succ h.levels, h.calls, h.wanted⟩⟩

theorem fits_asked (h : once = true → st.wanted ≤ 1) :
    o.asked.Fits once (levels + 1) maxInferences st ↔
      o.Fits true levels maxInferences st.asking := by
  refine ⟨fun h => ⟨Nat.le_of_succ_le_succ h.levels, h.calls, Nat.le_refl 1⟩,
    fun h' => ⟨Nat.succ_le_succ h'.levels, h'.calls, ?_⟩⟩
  cases once <;> simp_all [asked]

end Outcome

/-- What a bounded search does with a task. Clauses are tried one level below the goal. -/
def Task.run (theory : Theory) (maxInferences levels : Nat) : Task → Substitution → State →
    Flow × State
  | .solve goals, s, st => prove theory maxInferences levels goals s st
  | .clauses goal rest cs, s, st =>
    tryClauses (prove theory maxInferences (levels - 1)) goal rest s cs st

/-- A bounded search does what the search without bounds does, and there is room for it. -/
def Completes (theory : Theory) (maxInferences levels : Nat) (once : Bool) (task : Task)
    (s : Substitution) (st : State) (res : Flow × State) : Prop :=
  ∃ o, Ends theory once task s st.copies o ∧ o.Fits once levels maxInferences st ∧
    res = o.result once st

/-- No bound has cut a search short. -/
structure Unhindered (once : Bool) (st : State) (res : Flow × State) : Prop where
  truncated : res.2.truncated = false
  wanted : once = true → st.wanted ≤ 1
  more : once = false → res.1 = .more

/-- After something that finds no answer the rest of the search decides. -/
theorem Completes.step {e : Outcome} {st' : State} (hst : st.after e = st')
    (hfits : e.Fits once levels maxInferences st) (hends : e.ends once = false)
    (hrule : ∀ o, Ends theory once task' s' st'.copies o →
      Ends theory once task s st.copies (e.andThen o))
    (h : Completes theory maxInferences levels once task' s' st' res) :
    Completes theory maxInferences levels once task s st res := by
  subst hst
  obtain ⟨o, ho, hfits', rfl⟩ := h
  exact ⟨e.andThen o, hrule o ho, Outcome.fits_andThen.mpr ⟨hfits, hfits'⟩,
    (Outcome.result_andThen hends).symm⟩

theorem Completes.of_ends (hfits : o.Fits once levels maxInferences st)
    (h : Ends theory once task s st.copies o) :
    Completes theory maxInferences levels once task s st (o.result once st) :=
  ⟨o, h, hfits, rfl⟩

/-- With so many levels the search for some goals does what the search without bounds does, under
whatever bindings and wherever it is made, if no bound cuts it short. -/
def Faithful (theory : Theory) (maxInferences levels : Nat) (goals : List Goal) : Prop :=
  ∀ {once s st}, Unhindered once st (prove theory maxInferences levels goals s st) →
    Completes theory maxInferences levels once (.solve goals) s st
      (prove theory maxInferences levels goals s st)

/-- The search ends with a clause. -/
theorem Completes.last {goal : Term} {c : Clause} {cs : List Clause}
    (hwanted : once = true → st.wanted ≤ 1)
    (hunify : s.unify goal (c.head.rename st.copied.copies) = (true, s'))
    (h : Completes theory maxInferences k once
      (.solve (c.body.map (Goal.rename st.copied.copies) ++ rest)) s' st.copied (.stop, st')) :
    Completes theory maxInferences (k + 1) once (.clauses goal rest (c :: cs)) s st
      (.stop, st') := by
  obtain ⟨o, ho, hfits, heq⟩ := h
  have hends : o.ends once = true := Outcome.result_eq_stop heq.symm
  refine ⟨_, .last hunify ho hends, Outcome.fits_andThen.mpr
    ⟨Outcome.fits_copy hwanted, Outcome.fits_below.mpr hfits⟩, ?_⟩
  rw [heq, Outcome.result_andThen (by simp)]
  rfl

/-- The search goes on with the next clause, and a search for one answer still wants it. -/
theorem Completes.next {goal : Term} {c : Clause} {cs : List Clause}
    (hwanted : once = true → st.wanted ≤ 1)
    (hunify : s.unify goal (c.head.rename st.copied.copies) = (true, s'))
    (h : Completes theory maxInferences k once
      (.solve (c.body.map (Goal.rename st.copied.copies) ++ rest)) s' st.copied (.more, st'))
    (hnext : (once = true → st'.wanted ≤ 1) →
      Completes theory maxInferences (k + 1) once (.clauses goal rest cs) s st' res) :
    Completes theory maxInferences (k + 1) once (.clauses goal rest (c :: cs)) s st res := by
  obtain ⟨o, ho, hfits, heq⟩ := h
  obtain ⟨hends, rfl⟩ := Outcome.result_eq_more heq.symm
  have hcopy : Outcome.copy.Fits once (k + 1) maxInferences st := Outcome.fits_copy hwanted
  exact .step (e := Outcome.andThen .copy o.below) (by simp)
    (Outcome.fits_andThen.mpr ⟨hcopy, Outcome.fits_below.mpr hfits⟩) (by simp [hends])
    (fun o' ho' => .next hunify ho hends ho')
    (hnext fun honce => (Nat.sub_le _ _).trans (hwanted honce))

theorem completes_clauses {goal : Term} {cs : List Clause}
    (hrun : ∀ goals, Faithful theory maxInferences k goals)
    (h : Unhindered once st (tryClauses (prove theory maxInferences k) goal rest s cs st)) :
    Completes theory maxInferences (k + 1) once (.clauses goal rest cs) s st
      (tryClauses (prove theory maxInferences k) goal rest s cs st) := by
  induction cs generalizing st with
  | nil =>
    have hnothing : Outcome.nothing.Fits once (k + 1) maxInferences st :=
      Outcome.fits_nothing h.wanted
    simpa [tryClauses, Outcome.result] using Completes.of_ends hnothing .exhausted
  | cons c cs ih =>
    rw [tryClauses_cons] at h ⊢
    unfold attempt at h ⊢
    cases hunify : s.unify goal (c.head.rename st.copied.copies) with
    | mk b s' =>
      cases b with
      | false =>
        simp only [hunify] at h ⊢
        refine .step Outcome.after_copy (Outcome.fits_copy h.wanted) (by simp)
          (fun o ho => .clash ?_ ho) (ih ⟨h.truncated, h.wanted, h.more⟩)
        exact congrArg Prod.fst hunify
      | true =>
        simp only [hunify] at h ⊢
        generalize hbody : prove theory maxInferences k
          (c.body.map (Goal.rename st.copied.copies) ++ rest) s' st.copied = found at h ⊢
        have hsolve : Unhindered once st.copied found →
            Completes theory maxInferences k once
              (.solve (c.body.map (Goal.rename st.copied.copies) ++ rest)) s' st.copied found :=
          hbody ▸ hrun _
        obtain ⟨_ | _, st₁⟩ := found
        · dsimp only at h ⊢
          have htruncated : st₁.truncated = false :=
            (tryClauses_follows (prove_follows k)).truncated_eq_false h.truncated
          exact .next h.wanted hunify (hsolve ⟨htruncated, h.wanted, fun _ => rfl⟩)
            fun hwanted => ih ⟨h.truncated, hwanted, h.more⟩
        · dsimp only at h ⊢
          have honce : once = true := by
            cases once with
            | true => rfl
            | false => exact absurd (h.more rfl) (by simp)
          exact .last h.wanted hunify (hsolve ⟨h.truncated, h.wanted, by simp [honce]⟩)

/-! One lemma for each kind of goal, given what is searched for next. -/

theorem Faithful.nil : Faithful theory maxInferences k [] := by
  intro once s st h
  rw [prove_nil] at h ⊢
  have hwanted := h.wanted
  have hmore := h.more
  refine ⟨_, .answer, ⟨Nat.zero_le _, Nat.zero_le _, ?_⟩, ?_⟩
  · cases once <;> simp_all [emit]
    omega
  · cases once <;> simp_all [emit, Outcome.result, Outcome.ends, State.after]

/-- A goal that fails without a call ends the search. -/
theorem completes_fails (hwanted : once = true → st.wanted ≤ 1)
    (h : Ends theory once task s st.copies .goal) :
    Completes theory maxInferences (k + 1) once task s st (.more, st) := by
  simpa [Outcome.result] using Completes.of_ends (Outcome.fits_goal hwanted) h

theorem Faithful.unify (hrest : Faithful theory maxInferences (k + 1) rest) :
    Faithful theory maxInferences (k + 1) (.unify l r :: rest) := by
  intro once s st h
  rw [prove_unify] at h ⊢
  cases hunify : s.unify l r with
  | mk b s' =>
    cases b with
    | true =>
      simp only [hunify] at h ⊢
      exact .step rfl (Outcome.fits_goal h.wanted) (by simp) (fun o ho => .unify hunify ho)
        (hrest h)
    | false => exact completes_fails h.wanted (.unify_fails (congrArg Prod.fst hunify))

theorem Faithful.notUnify (hrest : Faithful theory maxInferences (k + 1) rest) :
    Faithful theory maxInferences (k + 1) (.notUnify l r :: rest) := by
  intro once s st h
  rw [prove_notUnify] at h ⊢
  cases hunify : (s.unify l r).1 with
  | true => exact completes_fails h.wanted (.notUnify_fails hunify)
  | false =>
    simp only [hunify] at h ⊢
    exact .step rfl (Outcome.fits_goal h.wanted) (by simp) (fun o ho => .notUnify hunify ho)
      (hrest h)

theorem Faithful.not (hgoal : Faithful theory maxInferences k [g])
    (hrest : Faithful theory maxInferences (k + 1) rest) :
    Faithful theory maxInferences (k + 1) (.not g :: rest) := by
  intro once s st h
  generalize hfound : prove theory maxInferences k [g] s st.asking = found
  have hinner : Unhindered true st.asking found →
      Completes theory maxInferences k true (.solve [g]) s st.asking found := hfound ▸ hgoal
  rw [prove_not (congrArg Prod.snd hfound)] at h ⊢
  have htruncated : (st.resume found.2).truncated = false := by
    have hend := h.truncated
    split at hend
    · exact (prove_follows (k + 1) rest s _).truncated_eq_false hend
    · exact hend
  obtain ⟨inner, hends, hfits, rfl⟩ := hinner ⟨htruncated, fun _ => Nat.le_refl 1, nofun⟩
  have hasked := (Outcome.fits_asked h.wanted).mpr hfits
  cases hempty : inner.answers.isEmpty with
  | true =>
    simp only [Outcome.result, Outcome.answers_after_asking, List.isEmpty_reverse, hempty,
      if_true] at h ⊢
    exact .step Outcome.after_asked hasked (by simp)
      (fun o ho => .not hends (List.isEmpty_iff.mp hempty) ho)
      (hrest ⟨h.truncated, h.wanted, h.more⟩)
  | false =>
    have hrule : Ends theory once (.solve (.not g :: rest)) s st.copies inner.asked :=
      .not_fails hends (by simpa using hempty)
    simpa [Outcome.result, hempty] using Completes.of_ends hasked hrule

theorem Faithful.call (hrun : ∀ goals, Faithful theory maxInferences k goals)
    (hrest : Faithful theory maxInferences (k + 1) rest) :
    Faithful theory maxInferences (k + 1) (.call t :: rest) := by
  intro once s st h
  cases hkey : (s.resolve t).functor? with
  | none =>
    rw [prove_not_callable hkey]
    exact completes_fails h.wanted (.not_callable hkey)
  | some key =>
    rcases Nat.lt_or_ge st.inferences maxInferences with hst | hst
    · have hcall : Outcome.call.Fits once (k + 1) maxInferences st :=
        Outcome.fits_call h.wanted hst
      rw [prove_call hkey hst] at h ⊢
      cases hbuiltin : builtin? key with
      | none =>
        simp only [hbuiltin] at h ⊢
        exact .step Outcome.after_call hcall (by simp) (fun o ho => .call hkey hbuiltin ho)
          (completes_clauses hrun ⟨h.truncated, h.wanted, h.more⟩)
      | some b =>
        cases b with
        | true =>
          simp only [hbuiltin] at h ⊢
          exact .step Outcome.after_call hcall (by simp) (fun o ho => .truth hkey hbuiltin ho)
            (hrest ⟨h.truncated, h.wanted, h.more⟩)
        | false =>
          simpa [Outcome.result] using Completes.of_ends hcall (.falsity hkey hbuiltin)
    · rw [prove_overrun hkey hst] at h
      exact absurd h.truncated (by simp)

/-- A bounded search that no bound cuts short does what the search without bounds does. -/
theorem prove_faithful (theory : Theory) (maxInferences levels : Nat) (goals : List Goal) :
    Faithful theory maxInferences levels goals := by
  induction levels generalizing goals with
  | zero =>
    cases goals with
    | nil => exact Faithful.nil
    | cons g rest => exact fun h => absurd h.truncated (by simp [prove_zero])
  | succ k ih =>
    induction goals with
    | nil => exact Faithful.nil
    | cons g rest ihrest =>
      cases g with
      | unify l r => exact Faithful.unify ihrest
      | notUnify l r => exact Faithful.notUnify ihrest
      | not g => exact Faithful.not (ih [g]) ihrest
      | call t => exact Faithful.call ih ihrest

theorem Outcome.Fits.single (h : o.Fits once levels maxInferences st) (honce : once = true) :
    st.wanted ≤ 1 := by
  simpa [honce] using h.wanted

theorem Outcome.Fits.inferences_lt (h : Outcome.call.Fits once levels maxInferences st) :
    st.inferences < maxInferences :=
  Nat.lt_of_sub_pos (Nat.one_pos.trans_le h.calls)

/-- Where a goal has been looked at there is a level for it. -/
theorem Outcome.Fits.exists_succ (h : o.Fits once levels maxInferences st) (ho : 0 < o.levels) :
    ∃ j, levels = j + 1 :=
  Nat.exists_eq_succ_of_ne_zero (ho.trans_le h.levels).ne'

/-- A bounded search with room for what the search without bounds takes does the same. -/
theorem Ends.run_eq (h : Ends theory once task s k o) (hk : st.copies = k)
    (hfits : o.Fits once levels maxInferences st) :
    task.run theory maxInferences levels s st = o.result once st := by
  induction h generalizing st levels with
  | @answer once s k =>
    have hwanted := hfits.wanted
    simp only [Task.run, prove_nil]
    cases once <;> simp_all [emit, Outcome.result, Outcome.ends, State.after]
    omega
  | unify hunify _ ih =>
    obtain ⟨-, hrest⟩ := Outcome.fits_andThen.mp hfits
    obtain ⟨j, rfl⟩ := hfits.exists_succ (by simp [Outcome.andThen, Outcome.goal])
    rw [Outcome.result_andThen (by simp), Outcome.after_goal, ← ih hk hrest]
    simp [Task.run, prove_unify, hunify]
  | @unify_fails once l r rest s k hfail =>
    obtain ⟨j, rfl⟩ := hfits.exists_succ (by simp [Outcome.goal])
    have hunify : s.unify l r = (false, (s.unify l r).2) := Prod.ext hfail rfl
    simp only [Task.run, prove_unify]
    rw [hunify]
    simp [Outcome.result]
  | notUnify hfail _ ih =>
    obtain ⟨-, hrest⟩ := Outcome.fits_andThen.mp hfits
    obtain ⟨j, rfl⟩ := hfits.exists_succ (by simp [Outcome.andThen, Outcome.goal])
    rw [Outcome.result_andThen (by simp), Outcome.after_goal, ← ih hk hrest]
    simp [Task.run, prove_notUnify, hfail]
  | notUnify_fails hunify =>
    obtain ⟨j, rfl⟩ := hfits.exists_succ (by simp [Outcome.goal])
    simp [Task.run, prove_notUnify, hunify, Outcome.result]
  | not _ hnone _ ih ihrest =>
    obtain ⟨hasked, hrest⟩ := Outcome.fits_andThen.mp hfits
    obtain ⟨j, rfl⟩ := hasked.exists_succ (Nat.succ_pos _)
    have hinner := @ih j st.asking hk ((Outcome.fits_asked hasked.single).mp hasked)
    have hgoals := ihrest (by rw [← hk]; rfl) hrest
    rw [Outcome.result_andThen (by simp), ← hgoals]
    simp only [Task.run]
    rw [prove_not (congrArg Prod.snd hinner)]
    simp [Outcome.result, hnone]
  | not_fails _ hsome ih =>
    obtain ⟨j, rfl⟩ := hfits.exists_succ (Nat.succ_pos _)
    have hinner := @ih j st.asking hk ((Outcome.fits_asked hfits.single).mp hfits)
    simp only [Task.run]
    rw [prove_not (congrArg Prod.snd hinner)]
    simp [Outcome.result, hsome]
  | not_callable hkey =>
    obtain ⟨j, rfl⟩ := hfits.exists_succ (by simp [Outcome.goal])
    simp [Task.run, prove_not_callable hkey, Outcome.result]
  | truth hkey htrue _ ih =>
    obtain ⟨hcall, hrest⟩ := Outcome.fits_andThen.mp hfits
    obtain ⟨j, rfl⟩ := hcall.exists_succ Nat.one_pos
    have hgoals := @ih (j + 1) st.called hk hrest
    rw [Outcome.result_andThen (by simp), Outcome.after_call, ← hgoals]
    simp only [Task.run]
    rw [prove_call hkey hcall.inferences_lt, htrue]
  | falsity hkey hfalse =>
    obtain ⟨j, rfl⟩ := hfits.exists_succ Nat.one_pos
    simp only [Task.run]
    rw [prove_call hkey hfits.inferences_lt, hfalse]
    simp [Outcome.result]
  | call hkey hnone _ ih =>
    obtain ⟨hcall, hrest⟩ := Outcome.fits_andThen.mp hfits
    obtain ⟨j, rfl⟩ := hcall.exists_succ Nat.one_pos
    have hclauses := @ih (j + 1) st.called hk hrest
    rw [Outcome.result_andThen (by simp), Outcome.after_call, ← hclauses]
    simp only [Task.run]
    rw [prove_call hkey hcall.inferences_lt, hnone]
    rfl
  | exhausted => simp [Task.run, tryClauses, Outcome.result]
  | @clash once goal rest c cs s k o hfail _ ih =>
    subst hk
    obtain ⟨-, hrest⟩ := Outcome.fits_andThen.mp hfits
    have hclauses := @ih levels st.copied rfl hrest
    rw [Outcome.result_andThen (by simp), Outcome.after_copy, ← hclauses]
    simp only [Task.run, tryClauses_cons]
    rw [attempt_of_clash hfail]
  | @last once goal rest c cs s s' k o hunify _ hends ih =>
    subst hk
    obtain ⟨-, hbody⟩ := Outcome.fits_andThen.mp hfits
    obtain ⟨j, rfl⟩ := hbody.exists_succ (Nat.succ_pos _)
    have hattempt : attempt (prove theory maxInferences j) goal rest s c st =
        o.result once st.copied :=
      (attempt_of_unify hunify).trans (@ih j st.copied rfl (Outcome.fits_below.mp hbody))
    simp [Task.run, tryClauses_cons, hattempt, Outcome.result, hends]
  | @next once goal rest c cs s s' k o o' hunify _ hends _ ih ihnext =>
    subst hk
    obtain ⟨hbody, hrest⟩ := Outcome.fits_andThen.mp hfits
    obtain ⟨-, hbody⟩ := Outcome.fits_andThen.mp hbody
    obtain ⟨j, rfl⟩ := hbody.exists_succ (Nat.succ_pos _)
    have hattempt : attempt (prove theory maxInferences j) goal rest s c st =
        o.result once st.copied :=
      (attempt_of_unify hunify).trans (@ih j st.copied rfl (Outcome.fits_below.mp hbody))
    have hnext := @ihnext (j + 1) (st.copied.after o) rfl (by simpa using hrest)
    rw [Outcome.result_andThen (by simp [hends]), Outcome.after_andThen, Outcome.after_copy,
      Outcome.after_below, ← hnext]
    simp only [Task.run, tryClauses_cons]
    simp [hattempt, Outcome.result, hends]

end OntoLogic.Search

/-! ## Solutions -/

namespace OntoLogic.Theory

variable {theory : Theory} {query : Query} {bounds : Bounds} {xs ys : List Solution}

/-- The search without bounds ends, with these solutions in this order. -/
def Enumerates (theory : Theory) (query : Query) (xs : List Solution) : Prop :=
  ∃ o, Search.Ends theory false (.solve query.goals) ∅ 0 o ∧
    xs = o.answers.map (Solution.ofAnswer query.visibleVars)

theorem Enumerates.unique (h : theory.Enumerates query xs) (h' : theory.Enumerates query ys) :
    xs = ys := by
  obtain ⟨o, ho, rfl⟩ := h
  obtain ⟨o', ho', rfl⟩ := h'
  rw [ho.unique ho']

theorem solve_of_run {o : Search.Outcome}
    (h : Search.run theory bounds query = o.result false (.initial (max 1 bounds.maxSolutions))) :
    theory.solve bounds query =
      ⟨o.answers.map (Solution.ofAnswer query.visibleVars), false⟩ := by
  simp [solve, h, Search.Outcome.result, Search.Outcome.ends, Search.State.after,
    Search.State.initial]

/-- A search is not truncated exactly when its bounds leave room for the search without bounds. -/
theorem solve_eq_iff : theory.solve bounds query = ⟨xs, false⟩ ↔
    ∃ o, Search.Ends theory false (.solve query.goals) ∅ 0 o ∧
      o.Fits false (bounds.maxDepth + 1) bounds.maxInferences
        (.initial (max 1 bounds.maxSolutions)) ∧
      xs = o.answers.map (Solution.ofAnswer query.visibleVars) := by
  constructor
  · intro h
    have huncut := Search.Node.uncut_start (congrArg Solutions.truncated h)
    have hrun : Search.Unhindered false (.initial (max 1 bounds.maxSolutions))
        (Search.run theory bounds query) := ⟨huncut.truncated, nofun, fun _ => huncut.more⟩
    obtain ⟨o, ho, hfits, hres⟩ := Search.prove_faithful _ _ _ _ hrun
    refine ⟨o, ho, hfits, ?_⟩
    exact congrArg Solutions.solutions (h.symm.trans (solve_of_run hres))
  · rintro ⟨o, ho, hfits, rfl⟩
    exact solve_of_run (ho.run_eq rfl hfits)

/-- The search without bounds ends exactly when there are bounds that do not cut it short. -/
theorem enumerates_iff : theory.Enumerates query xs ↔
    ∃ bounds, theory.solve bounds query = ⟨xs, false⟩ := by
  constructor
  · rintro ⟨o, ho, rfl⟩
    let bounds : Bounds := ⟨o.levels, o.answers.length + 1, o.calls⟩
    refine ⟨bounds, solve_eq_iff.mpr ⟨o, ho, ⟨Nat.le_succ _, Nat.le_refl _, ?_⟩, rfl⟩⟩
    simp [bounds, Search.State.initial]
  · rintro ⟨bounds, h⟩
    obtain ⟨o, ho, -, hxs⟩ := solve_eq_iff.mp h
    exact ⟨o, ho, hxs⟩

/-- Larger bounds leave what is not truncated as it is. -/
theorem solve_mono {bounds' : Bounds} (hdepth : bounds.maxDepth ≤ bounds'.maxDepth)
    (hsolutions : bounds.maxSolutions ≤ bounds'.maxSolutions)
    (hinferences : bounds.maxInferences ≤ bounds'.maxInferences)
    (h : theory.solve bounds query = ⟨xs, false⟩) : theory.solve bounds' query = ⟨xs, false⟩ := by
  obtain ⟨o, ho, hfits, hxs⟩ := solve_eq_iff.mp h
  have hwanted : o.answers.length ≤ max 1 bounds.maxSolutions - 1 := hfits.wanted
  refine solve_eq_iff.mpr ⟨o, ho, ⟨?_, ?_, ?_⟩, hxs⟩
  · exact hfits.levels.trans (Nat.succ_le_succ hdepth)
  · exact hfits.calls.trans (Nat.sub_le_sub_right hinferences _)
  · show o.answers.length ≤ max 1 bounds'.maxSolutions - 1
    omega

/-- A search that is not truncated reports the answers of the search without bounds, in their
order. Every other search that is not truncated reports the same, and a search with bounds that are
nowhere smaller is not truncated either. -/
theorem solve_exact (theory : Theory) (query : Query) (bounds : Bounds)
    (h : (theory.solve bounds query).truncated = false) :
    (∀ xs, theory.Enumerates query xs ↔ xs = (theory.solve bounds query).solutions) ∧
    ∀ bounds' : Bounds,
      ((theory.solve bounds' query).truncated = false →
        (theory.solve bounds' query).solutions = (theory.solve bounds query).solutions) ∧
      (bounds.maxDepth ≤ bounds'.maxDepth → bounds.maxSolutions ≤ bounds'.maxSolutions →
        bounds.maxInferences ≤ bounds'.maxInferences →
        (theory.solve bounds' query).truncated = false ∧
        (theory.solve bounds' query).solutions = (theory.solve bounds query).solutions) := by
  have enumerates : ∀ b : Bounds, (theory.solve b query).truncated = false →
      theory.Enumerates query (theory.solve b query).solutions := fun b hb =>
    enumerates_iff.mpr ⟨b, congrArg (Solutions.mk _) hb⟩
  refine ⟨fun xs => ⟨fun hxs => hxs.unique (enumerates bounds h), ?_⟩, fun bounds' => ⟨?_, ?_⟩⟩
  · rintro rfl
    exact enumerates bounds h
  · intro h'
    exact (enumerates bounds' h').unique (enumerates bounds h)
  · intro hdepth hsolutions hinferences
    have h' : theory.solve bounds' query = ⟨(theory.solve bounds query).solutions, false⟩ :=
      solve_mono hdepth hsolutions hinferences (congrArg (Solutions.mk _) h)
    rw [h']
    exact ⟨rfl, rfl⟩

/-- With negations, with a predicate that has no clauses, and with bounds that are just enough. -/
theorem solve_exact_flies :
    let texts := ["bird(tweety).", "bird(pingu).", "bird(polly).", "penguin(pingu).",
      "flies(X) :- bird(X), \\+ penguin(X), \\+ injured(X)."]
    let theory := (Theory.load texts).toOption.getD .empty
    let query := (Query.parse "flies(X), X \\= polly, Y = X").toOption.getD ⟨[]⟩
    let bounds : Bounds := ⟨3, 2, 7⟩
    Theory.load texts = .ok theory ∧
    Query.parse "flies(X), X \\= polly, Y = X" = .ok query ∧
    (theory.solve bounds query).truncated = false ∧
    (theory.solve bounds query).solutions.map Solution.text = ["X = tweety, Y = tweety"] ∧
    (∀ xs, theory.Enumerates query xs ↔ xs = (theory.solve bounds query).solutions) ∧
    (theory.solve {} query).truncated = false ∧
    (theory.solve {} query).solutions = (theory.solve bounds query).solutions := by
  intro texts theory query bounds
  have h : (theory.solve bounds query).truncated = false := by decide +kernel
  obtain ⟨henumerates, hbounds⟩ := solve_exact theory query bounds h
  exact ⟨by rfl, by rfl, h, by decide +kernel, henumerates,
    (hbounds {}).2 (by decide) (by decide) (by decide)⟩

end OntoLogic.Theory
