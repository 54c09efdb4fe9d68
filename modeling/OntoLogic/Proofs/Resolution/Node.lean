-- SUMMARY: The search as a tree of nodes: every answer is at the end of a path, and no path is lost.
import Mathlib.Logic.Relation
import OntoLogic.Proofs.Resolution.Offer
import OntoLogic.Resolution.Solution

/-!
# The nodes of a search

A node holds what the search holds when it looks at its next goal. One step leads to a node at which
the search goes on: past a goal that succeeds without a clause, or into the body of a clause. The
answers of a search are the bindings at the nodes without goals that are reached by such steps.

A search that ends by itself and meets no bound is uncut. It tries every clause, and the searches
from the nodes it steps to are uncut as well.
-/

namespace OntoLogic.Search

/-! ## Nodes and steps -/

/-- What a search holds before its next goal. -/
structure Node where
  /-- The levels of depth that are left. -/
  levels : Nat
  goals : List Goal
  bindings : Substitution
  state : State

variable (theory : Theory) (maxInferences : Nat)

def Node.run (n : Node) : Flow × State :=
  prove theory maxInferences n.levels n.goals n.bindings n.state

/-- The search from a node with offered clauses. -/
def Node.runOver (offer : Indicator → List Clause) (maxInferences : Nat) (n : Node) :
    Flow × State :=
  proveOver offer maxInferences n.levels n.goals n.bindings n.state

/-- The node at which the search of a negation starts. -/
def Node.asking (levels : Nat) (goal : Goal) (s : Substitution) (st : State) : Node :=
  ⟨levels, [goal], s, st.asking⟩

/-- The node at which the search of a query starts. -/
def Node.start (bounds : Bounds) (query : Query) : Node :=
  ⟨bounds.maxDepth + 1, query.goals, ∅, .initial (max 1 bounds.maxSolutions)⟩

/-- One step of the search. -/
inductive Next : Node → Node → Prop where
  /-- The terms of a goal unify. -/
  | unify {k l r rest s s' st} : s.unify l r = (true, s') →
    Next ⟨k + 1, .unify l r :: rest, s, st⟩ ⟨k + 1, rest, s', st⟩
  /-- The terms of a goal do not unify. -/
  | notUnify {k l r rest s st} : (s.unify l r).1 = false →
    Next ⟨k + 1, .notUnify l r :: rest, s, st⟩ ⟨k + 1, rest, s, st⟩
  /-- The search of a negation finds nothing. -/
  | not {k g rest s st inner} : ((Node.asking k g s st).run theory maxInferences).2 = inner →
    inner.answers = [] →
    Next ⟨k + 1, .not g :: rest, s, st⟩ ⟨k + 1, rest, s, st.resume inner⟩
  /-- A goal is true. -/
  | truth {k t key rest s st} : (s.resolve t).functor? = some key → builtin? key = some true →
    st.inferences < maxInferences →
    Next ⟨k + 1, .call t :: rest, s, st⟩ ⟨k + 1, rest, s, st.called⟩
  /-- The head of a clause unifies with a goal. -/
  | clause {k t key rest s s' st st' c} : (s.resolve t).functor? = some key →
    builtin? key = none → st.inferences < maxInferences →
    Tries (prove theory maxInferences k) (s.resolve t) rest s (theory.candidates key) st.called
      c st' →
    s.unify (s.resolve t) (c.head.rename st'.copied.copies) = (true, s') →
    Next ⟨k + 1, .call t :: rest, s, st⟩
      ⟨k, c.body.map (Goal.rename st'.copied.copies) ++ rest, s', st'.copied⟩

/-- Steps lead from a node to a node without goals and with the given bindings. -/
def Reaches (step : Node → Node → Prop) (n : Node) (a : Substitution) : Prop :=
  ∃ m, Relation.ReflTransGen step n m ∧ m.goals = [] ∧ m.bindings = a

theorem Reaches.head {step : Node → Node → Prop} {n m : Node} {a : Substitution}
    (h : step n m) (hm : Reaches step m a) : Reaches step n a := by
  obtain ⟨leaf, hpath, hleaf⟩ := hm
  exact ⟨leaf, .head h hpath, hleaf⟩

/-! ## The search at one node -/

variable {theory maxInferences} {k : Nat} {l r t : Term} {g : Goal} {rest goals : List Goal}
  {s s' a : Substitution} {st : State} {key : Indicator} {c : Clause} {n m : Node}

theorem prove_nil : prove theory maxInferences k [] s st = emit s st := by
  rw [← proveOver_candidates]
  exact proveOver_nil

theorem prove_zero : prove theory maxInferences 0 (g :: rest) s st =
    (.more, { st with truncated := true }) := rfl

theorem prove_unify : prove theory maxInferences (k + 1) (.unify l r :: rest) s st =
    match s.unify l r with
    | (true, s') => prove theory maxInferences (k + 1) rest s' st
    | (false, _) => (.more, st) := by
  rw [← proveOver_candidates]
  exact proveOver_unify

theorem prove_notUnify : prove theory maxInferences (k + 1) (.notUnify l r :: rest) s st =
    if (s.unify l r).1 then (.more, st)
    else prove theory maxInferences (k + 1) rest s st := by
  rw [← proveOver_candidates]
  exact proveOver_notUnify

theorem prove_not {inner : State}
    (h : ((Node.asking k g s st).run theory maxInferences).2 = inner) :
    prove theory maxInferences (k + 1) (.not g :: rest) s st =
      if inner.answers.isEmpty then
        prove theory maxInferences (k + 1) rest s (st.resume inner)
      else (.more, st.resume inner) := by
  unfold Node.run at h
  rw [← proveOver_candidates] at h ⊢
  exact proveOver_not h

theorem prove_not_callable (h : (s.resolve t).functor? = none) :
    prove theory maxInferences (k + 1) (.call t :: rest) s st = (.more, st) := by
  rw [← proveOver_candidates]
  exact proveOver_not_callable h

theorem prove_overrun (h : (s.resolve t).functor? = some key)
    (hst : maxInferences ≤ st.inferences) :
    prove theory maxInferences (k + 1) (.call t :: rest) s st =
      (.stop, { st.called with truncated := true }) := by
  rw [← proveOver_candidates]
  exact proveOver_overrun h hst

theorem prove_call (h : (s.resolve t).functor? = some key) (hst : st.inferences < maxInferences) :
    prove theory maxInferences (k + 1) (.call t :: rest) s st =
      match builtin? key with
      | some true => prove theory maxInferences (k + 1) rest s st.called
      | some false => (.more, st.called)
      | none =>
        tryClauses (prove theory maxInferences k) (s.resolve t) rest s (theory.candidates key)
          st.called := by
  rw [← proveOver_candidates, ← proveOver_candidates]
  exact proveOver_call h hst

/-- Induction along a search. For a negation the search of its goal comes first. The clauses for a
call are tried in states that only the search itself determines, so there the hypothesis is about
all searches of the level below. -/
@[elab_as_elim]
theorem prove_induct (theory : Theory) (maxInferences : Nat)
    {motive : Nat → List Goal → Substitution → State → Prop}
    (answer : ∀ {k s st}, motive k [] s st)
    (deep : ∀ {g rest s st}, motive 0 (g :: rest) s st)
    (unify : ∀ {k l r rest s s' st}, s.unify l r = (true, s') → motive (k + 1) rest s' st →
      motive (k + 1) (.unify l r :: rest) s st)
    (unify_fails : ∀ {k l r rest s s' st}, s.unify l r = (false, s') →
      motive (k + 1) (.unify l r :: rest) s st)
    (notUnify : ∀ {k l r rest s st}, (s.unify l r).1 = false → motive (k + 1) rest s st →
      motive (k + 1) (.notUnify l r :: rest) s st)
    (notUnify_fails : ∀ {k l r rest s st}, (s.unify l r).1 = true →
      motive (k + 1) (.notUnify l r :: rest) s st)
    (not : ∀ {k g rest s st inner},
      ((Node.asking k g s st).run theory maxInferences).2 = inner → inner.answers = [] →
      motive k [g] s st.asking → motive (k + 1) rest s (st.resume inner) →
      motive (k + 1) (.not g :: rest) s st)
    (not_fails : ∀ {k g rest s st inner},
      ((Node.asking k g s st).run theory maxInferences).2 = inner → inner.answers ≠ [] →
      motive k [g] s st.asking → motive (k + 1) (.not g :: rest) s st)
    (not_callable : ∀ {k t rest s st}, (s.resolve t).functor? = none →
      motive (k + 1) (.call t :: rest) s st)
    (overrun : ∀ {k t key rest s st}, (s.resolve t).functor? = some key →
      maxInferences ≤ st.inferences → motive (k + 1) (.call t :: rest) s st)
    (truth : ∀ {k t key rest s st}, (s.resolve t).functor? = some key →
      builtin? key = some true → st.inferences < maxInferences →
      motive (k + 1) rest s st.called → motive (k + 1) (.call t :: rest) s st)
    (falsity : ∀ {k t key rest s st}, (s.resolve t).functor? = some key →
      builtin? key = some false → st.inferences < maxInferences →
      motive (k + 1) (.call t :: rest) s st)
    (clauses : ∀ {k t key rest s st}, (s.resolve t).functor? = some key → builtin? key = none →
      st.inferences < maxInferences → (∀ goals s st, motive k goals s st) →
      motive (k + 1) (.call t :: rest) s st)
    (k : Nat) (goals : List Goal) (s : Substitution) (st : State) : motive k goals s st := by
  induction k generalizing goals s st with
  | zero =>
    cases goals with
    | nil => exact answer
    | cons g rest => exact deep
  | succ k ih =>
    induction goals generalizing s st with
    | nil => exact answer
    | cons g rest ihrest =>
      cases g with
      | unify l r =>
        rcases hunify : s.unify l r with ⟨_ | _, s'⟩
        · exact unify_fails hunify
        · exact unify hunify (ihrest _ _)
      | notUnify l r =>
        cases hunify : (s.unify l r).1 with
        | false => exact notUnify hunify (ihrest _ _)
        | true => exact notUnify_fails hunify
      | not g =>
        by_cases hempty : ((Node.asking k g s st).run theory maxInferences).2.answers = []
        · exact not rfl hempty (ih _ _ _) (ihrest _ _)
        · exact not_fails rfl hempty (ih _ _ _)
      | call t =>
        cases hkey : (s.resolve t).functor? with
        | none => exact not_callable hkey
        | some key =>
          rcases Nat.lt_or_ge st.inferences maxInferences with hst | hst
          · cases hbuiltin : builtin? key with
            | none => exact clauses hkey hbuiltin hst ih
            | some holds =>
              cases holds with
              | false => exact falsity hkey hbuiltin hst
              | true => exact truth hkey hbuiltin hst (ihrest _ _)
          · exact overrun hkey hst

/-! ## What a search leaves behind -/

/-- What a search from a node leaves behind. -/
structure Explored (theory : Theory) (maxInferences : Nat) (n : Node) (r : Flow × State) :
    Prop where
  follows : n.state.Follows r.2
  /-- An answer that was not there before is reached from the node. -/
  reached : ∀ a ∈ r.2.answers, a ∈ n.state.answers ∨ Reaches (Next theory maxInferences) n a
  /-- Only a bound or an answer ends a search. -/
  stop : r.1 = .stop → r.2.truncated = true ∨ n.state.answers.length < r.2.answers.length

namespace Explored

variable {result : Flow × State} {flow : Flow} {st' : State}

/-- A node without goals is an answer. -/
theorem leaf : Explored theory maxInferences ⟨k, [], s, st⟩ (emit s st) where
  follows := ⟨id, Nat.le_refl _, List.suffix_cons _ _⟩
  reached a ha := by
    rcases List.mem_cons.mp ha with rfl | ha
    · exact .inr ⟨_, .refl, rfl, rfl⟩
    · exact .inl ha
  stop _ := .inr (Nat.lt_succ_self _)

/-- A search may leave a node without an answer; it ends only at a bound. -/
theorem given_up (h : n.state.Follows st') (hanswers : st'.answers = n.state.answers)
    (hstop : flow = .stop → st'.truncated = true) :
    Explored theory maxInferences n (flow, st') where
  follows := h
  reached _ ha := .inl (hanswers ▸ ha)
  stop hflow := .inl (hstop hflow)

/-- A search may go on at the node after a step. -/
theorem step (h : Next theory maxInferences n m) (hst : n.state.Follows m.state)
    (hanswers : m.state.answers = n.state.answers)
    (hm : Explored theory maxInferences m result) : Explored theory maxInferences n result where
  follows := hst.trans hm.follows
  reached a ha := by
    rcases hm.reached a ha with ha | ha
    · exact .inl (hanswers ▸ ha)
    · exact .inr (ha.head h)
  stop hstop := hanswers ▸ hm.stop hstop

/-- A search may try clauses. -/
theorem clauses
    (hrun : ∀ goals s st, Explored theory maxInferences ⟨k, goals, s, st⟩
      (prove theory maxInferences k goals s st))
    (hkey : (s.resolve t).functor? = some key) (hbuiltin : builtin? key = none)
    (hst : st.inferences < maxInferences) :
    Explored theory maxInferences ⟨k + 1, .call t :: rest, s, st⟩
      (tryClauses (prove theory maxInferences k) (s.resolve t) rest s (theory.candidates key)
        st.called) := by
  have hfollows : ∀ goals s st, State.Follows st (prove theory maxInferences k goals s st).2 :=
    fun goals s st => (hrun goals s st).follows
  refine ⟨st.follows_called.trans (tryClauses_follows hfollows), ?_, ?_⟩
  · intro a ha
    rcases tryClauses_answers ha with ha | ⟨c, st', htries, hnot, ha⟩
    · exact .inl ha
    · unfold attempt at ha
      split at ha
      · exact absurd ha hnot
      · next s' hunify =>
        rcases (hrun _ _ _).reached a ha with ha | ha
        · exact absurd ha hnot
        · exact .inr (ha.head (.clause hkey hbuiltin hst htries hunify))
  · intro hstop
    obtain ⟨c, st', htries, heq⟩ := tryClauses_stop hstop
    rw [heq] at hstop ⊢
    have hlen : st.answers.length ≤ st'.answers.length :=
      (htries.follows hfollows).answers.length_le
    unfold attempt at hstop ⊢
    split at hstop
    · exact absurd hstop (by simp)
    · next s' hunify =>
      exact ((hrun _ _ _).stop hstop).imp_right hlen.trans_lt

end Explored

theorem prove_explored (k : Nat) (goals : List Goal) (s : Substitution) (st : State) :
    Explored theory maxInferences ⟨k, goals, s, st⟩ (prove theory maxInferences k goals s st) := by
  induction k, goals, s, st using prove_induct theory maxInferences with
  | answer => exact prove_nil ▸ .leaf
  | deep =>
    exact prove_zero ▸ .given_up ⟨fun _ => rfl, Nat.le_refl _, List.suffix_rfl⟩ rfl fun _ => rfl
  | unify hunify ih =>
    simp only [prove_unify, hunify]
    exact .step (.unify hunify) (.refl _) rfl ih
  | unify_fails hunify =>
    simp only [prove_unify, hunify]
    exact .given_up (.refl _) rfl nofun
  | notUnify hunify ih =>
    simp only [prove_notUnify, hunify]
    exact .step (.notUnify hunify) (.refl _) rfl ih
  | notUnify_fails hunify =>
    simp only [prove_notUnify, hunify]
    exact .given_up (.refl _) rfl nofun
  | not hinner hempty ihinner ih =>
    have hfollows := hinner ▸ ihinner.follows
    simp only [prove_not hinner, hempty]
    exact .step (.not hinner hempty) hfollows.resume rfl ih
  | not_fails hinner hfound ihinner =>
    have hfollows := hinner ▸ ihinner.follows
    simp only [prove_not hinner, List.isEmpty_iff, hfound]
    exact .given_up hfollows.resume rfl nofun
  | not_callable hkey =>
    rw [prove_not_callable hkey]
    exact .given_up (.refl _) rfl nofun
  | overrun hkey hst =>
    rw [prove_overrun hkey hst]
    exact .given_up ⟨fun _ => rfl, Nat.le_refl _, List.suffix_rfl⟩ rfl fun _ => rfl
  | truth hkey htrue hst ih =>
    simp only [prove_call hkey hst, htrue]
    exact .step (.truth hkey htrue hst) (State.follows_called _) rfl ih
  | falsity hkey hfalse hst =>
    simp only [prove_call hkey hst, hfalse]
    exact .given_up (State.follows_called _) rfl nofun
  | clauses hkey hnone hst ih =>
    simp only [prove_call hkey hst, hnone]
    exact .clauses ih hkey hnone hst

theorem Node.explored (n : Node) :
    Explored theory maxInferences n (n.run theory maxInferences) :=
  prove_explored n.levels n.goals n.bindings n.state

theorem prove_follows (k : Nat) (goals : List Goal) (s : Substitution) (st : State) :
    st.Follows (prove theory maxInferences k goals s st).2 :=
  (prove_explored k goals s st).follows

theorem asking_follows {inner : State}
    (h : ((Node.asking k g s st).run theory maxInferences).2 = inner) :
    st.Follows (st.resume inner) := by
  subst h
  exact (prove_follows k [g] s st.asking).resume

/-! ## Steps and searches -/

/-- The searches of a node and of a node after a step: either they are the same one, or the second
is what trying a clause does. -/
theorem Next.run_cases (h : Next theory maxInferences n m) :
    n.run theory maxInferences = m.run theory maxInferences ∨
    ∃ run goal rest s cs st c st', (∀ goals s st, State.Follows st (run goals s st).2) ∧
      n.run theory maxInferences = tryClauses run goal rest s cs st ∧
      Tries run goal rest s cs st c st' ∧
      m.run theory maxInferences = attempt run goal rest s c st' := by
  cases h with
  | unify hunify => exact .inl (by simp [Node.run, prove_unify, hunify])
  | notUnify hunify => exact .inl (by simp [Node.run, prove_notUnify, hunify])
  | not hinner hempty => exact .inl (by simp [Node.run, prove_not hinner, hempty])
  | truth hkey htrue hst => exact .inl (by simp [Node.run, prove_call hkey hst, htrue])
  | clause hkey hnone hst htries hunify =>
    refine .inr ⟨_, _, _, _, _, _, _, _, prove_follows _, ?_, htries, ?_⟩
    · simp [Node.run, prove_call hkey hst, hnone]
    · simp [Node.run, attempt, hunify]

theorem Next.follows (h : Next theory maxInferences n m) :
    (m.run theory maxInferences).2.Follows (n.run theory maxInferences).2 := by
  rcases h.run_cases with heq | ⟨_, _, _, _, _, _, _, _, hrun, hn, htries, hm⟩
  · exact heq ▸ .refl _
  · exact hn ▸ hm ▸ htries.attempt_follows hrun

/-- Bindings that are reached are answers. -/
theorem Reaches.mem_answers (h : Reaches (Next theory maxInferences) n a) :
    a ∈ (n.run theory maxInferences).2.answers := by
  obtain ⟨m, hpath, hgoals, rfl⟩ := h
  induction hpath using Relation.ReflTransGen.head_induction_on with
  | refl =>
    rcases m with ⟨k, goals, s, st⟩
    obtain rfl : goals = [] := hgoals
    simp [Node.run, prove_nil, emit]
  | head hstep _ ih => exact hstep.follows.answers.subset ih

/-- The answers of a search that starts without answers are the bindings that are reached. -/
theorem mem_answers_iff (h : n.state.answers = []) :
    a ∈ (n.run theory maxInferences).2.answers ↔ Reaches (Next theory maxInferences) n a := by
  refine ⟨fun ha => ?_, Reaches.mem_answers⟩
  exact (n.explored.reached a ha).resolve_left (by simp [h])

/-- Every step goes to a lower level or leaves a goal out. -/
theorem wellFounded_next (theory : Theory) (maxInferences : Nat) :
    WellFounded fun m n => Next theory maxInferences n m := by
  let measure (n : Node) : Nat × Nat := (n.levels, n.goals.length)
  refine Subrelation.wf (r := InvImage (Prod.Lex (· < ·) (· < ·)) measure) ?_
    (InvImage.wf measure (Prod.lex Nat.lt_wfRel Nat.lt_wfRel).wf)
  intro m n h
  cases h with
  | clause => exact .left _ _ (Nat.lt_succ_self _)
  | unify | notUnify | not | truth => exact .right _ (Nat.lt_succ_self _)

/-! ## Goals and bindings -/

theorem mem_of_mem_candidates {key : Indicator} {c : Clause} (h : c ∈ theory.candidates key) :
    c ∈ theory.clauses.toList := by
  obtain ⟨position, -, hposition⟩ := List.mem_filterMap.mp h
  exact Array.mem_toList_iff.mpr (Array.mem_of_getElem? hposition)

/-- The state in which a clause is tried has at least the copies from before the call. -/
theorem Tries.copies_le {rest : List Goal} {cs : List Clause} {st' : State}
    (h : Tries (prove theory maxInferences k) t rest s cs st.called c st') :
    st.copies ≤ st'.copies :=
  (st.follows_called.trans (h.follows (prove_follows k))).copies

theorem Next.copies_le (h : Next theory maxInferences n m) : n.state.copies ≤ m.state.copies := by
  cases h with
  | not hinner => exact (asking_follows hinner).copies
  | clause _ _ _ htries _ => exact htries.copies_le.trans (Nat.le_succ _)
  | unify | notUnify | truth => exact Nat.le_refl _

/-- A property of goals that copies keep, and that the bodies of all clauses have, is kept. -/
theorem Next.forall_goals {P : Goal → Prop} (h : Next theory maxInferences n m)
    (hrename : ∀ k g, P g → P (g.rename k))
    (hprogram : ∀ c ∈ theory.clauses.toList, ∀ g ∈ c.body, P g) (hn : ∀ g ∈ n.goals, P g) :
    ∀ g ∈ m.goals, P g := by
  cases h with
  | clause _ _ _ htries _ =>
    refine List.forall_mem_append.mpr ⟨fun g hg => ?_, fun g hg => hn g (List.mem_cons_of_mem _ hg)⟩
    obtain ⟨g', hg', rfl⟩ := List.mem_map.mp hg
    exact hrename _ g' (hprogram _ (mem_of_mem_candidates htries.mem) g' hg')
  | unify | notUnify | not | truth => exact fun g hg => hn g (List.mem_cons_of_mem _ hg)

/-- A step adds bindings and keeps them well formed. -/
theorem Next.wellFormed (h : Next theory maxInferences n m) (hn : n.bindings.WellFormed) :
    m.bindings.WellFormed ∧ m.bindings.Extends n.bindings := by
  cases h with
  | unify hunify => exact (Substitution.unify_true hn hunify).imp_right And.left
  | clause _ _ _ _ hunify => exact (Substitution.unify_true hn hunify).imp_right And.left
  | notUnify | not | truth => exact ⟨hn, .refl _⟩

theorem Next.satisfies {σ : Assignment} (h : Next theory maxInferences n m)
    (hn : n.bindings.WellFormed) (hσ : σ.Satisfies m.bindings) : σ.Satisfies n.bindings :=
  (h.wellFormed hn).2.satisfies hσ

/-! ## Uncut searches -/

/-- The search from a node ends by itself and meets no bound. -/
structure Node.Uncut (theory : Theory) (maxInferences : Nat) (n : Node) : Prop where
  more : (n.run theory maxInferences).1 = .more
  truncated : (n.run theory maxInferences).2.truncated = false

theorem Next.uncut (h : Next theory maxInferences n m) (hn : n.Uncut theory maxInferences) :
    m.Uncut theory maxInferences := by
  refine ⟨?_, h.follows.truncated_eq_false hn.truncated⟩
  rcases h.run_cases with heq | ⟨_, _, _, _, _, _, _, _, -, hrun, htries, hm⟩
  · exact heq ▸ hn.more
  · exact hm ▸ htries.attempt_more (hrun ▸ hn.more)

/-- An uncut search has a level for its goals. -/
theorem Node.Uncut.levels (h : Node.Uncut theory maxInferences ⟨k, g :: rest, s, st⟩) :
    ∃ j, k = j + 1 := by
  cases k with
  | zero => exact absurd h.truncated (by simp [Node.run, prove_zero])
  | succ j => exact ⟨j, rfl⟩

theorem Node.Uncut.inferences (h : Node.Uncut theory maxInferences ⟨k + 1, .call t :: rest, s, st⟩)
    (hkey : (s.resolve t).functor? = some key) : st.inferences < maxInferences := by
  by_contra hst
  exact absurd h.truncated (by simp [Node.run, prove_overrun hkey (Nat.not_lt.mp hst)])

/-- An uncut search tries every clause. -/
theorem Node.Uncut.tries (h : Node.Uncut theory maxInferences ⟨k + 1, .call t :: rest, s, st⟩)
    (hkey : (s.resolve t).functor? = some key) (hbuiltin : builtin? key = none)
    (hc : c ∈ theory.candidates key) :
    ∃ st', Tries (prove theory maxInferences k) (s.resolve t) rest s (theory.candidates key)
      st.called c st' := by
  refine exists_tries ?_ hc
  have hmore := h.more
  simpa [Node.run, prove_call hkey (h.inferences hkey), hbuiltin] using hmore

/-- An uncut search of a negation that finds nothing is uncut itself. -/
theorem Node.uncut_of_answers_eq_nil (htruncated : (n.run theory maxInferences).2.truncated = false)
    (hanswers : (n.run theory maxInferences).2.answers = []) : n.Uncut theory maxInferences := by
  refine ⟨?_, htruncated⟩
  cases hflow : (n.run theory maxInferences).1 with
  | more => rfl
  | stop =>
    rcases n.explored.stop hflow with h | h
    · exact absurd h (by simp [htruncated])
    · exact absurd h (by simp [hanswers])

/-- A search that is not reported as truncated is uncut. -/
theorem Node.uncut_start {bounds : Bounds} {query : Query}
    (h : (theory.solve bounds query).truncated = false) :
    (Node.start bounds query).Uncut theory bounds.maxInferences := by
  have hreport : ((Search.run theory bounds query).2.truncated ||
      (Search.run theory bounds query).1 == .stop) = false := h
  obtain ⟨htruncated, hflow⟩ := Bool.or_eq_false_iff.mp hreport
  refine ⟨?_, htruncated⟩
  show (Search.run theory bounds query).1 = .more
  revert hflow
  cases (Search.run theory bounds query).1 with
  | more => exact fun _ => rfl
  | stop => exact nofun

end OntoLogic.Search
