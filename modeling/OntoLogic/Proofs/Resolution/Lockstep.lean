-- SUMMARY: Searches over clauses with the same instances do the same, step by step, and find the same values.
import OntoLogic.Proofs.Resolution.Alike
import OntoLogic.Proofs.Resolution.Offer

/-!
# Searches in lockstep

Two clauses are variants when each has the instances of the other. Two searches whose clauses are
variants of each other, and that start at alike nodes, stay alike: the same goals succeed, the same
bounds are met, and the answers come in the same order. The variables may have other names and the
copies of clauses other numbers. The second search may also try clauses of other predicates for a
call, as these never unify with it.

A search drops its goals as it solves them, and an answer is to be compared by the values of the
variables of the query. So the nodes are compared as if other goals came after their own. No search
gets to these goals; an answer of one search gives them the values that the answer of the other
gives to its own. The search of a negation has no such goals, since only the number of its answers
counts.
-/

namespace OntoLogic

/-- Two clauses of texts that have the same instances. -/
structure Clause.Variants (c c' : Clause) : Prop where
  fromText : c.FromText
  fromText' : c'.FromText
  covers : c.Covers c'
  covered : c'.Covers c

theorem Clause.Covers.length_body {c c' : Clause} (h : c.Covers c') :
    c.body.length = c'.body.length := by
  obtain ⟨θ', -, hbody⟩ := h .var
  simpa using congrArg List.length hbody

/-- Clauses that may be offered for the calls of a predicate in the place of others: variants of
these in the same order, with clauses of other predicates between them. -/
inductive Clause.Offered (key : Indicator) : List Clause → List Clause → Prop
  | nil : Offered key [] []
  | variant {c c' : Clause} {cs cs' : List Clause} (hc : c.Variants c')
    (h : Offered key cs cs') : Offered key (c :: cs) (c' :: cs')
  | other {c' : Clause} {cs cs' : List Clause} (hc' : c'.FromText)
    (hkey : c'.head.functor? ≠ some key) (h : Offered key cs cs') : Offered key cs (c' :: cs')

theorem Clause.Offered.of_variants {key : Indicator} {cs cs' : List Clause}
    (h : List.Forall₂ Clause.Variants cs cs') : Clause.Offered key cs cs' := by
  induction h with
  | nil => exact .nil
  | cons hc _ ih => exact .variant hc ih

namespace Search

variable {theory theory' : Theory} {offer : Indicator → List Clause} {key : Indicator}
  {functor : Option Indicator}
  {maxInferences k : Nat} {last last' : List Goal} {n n' : Node}
  {l l' r r' t t' : Term} {g g' : Goal} {c c' : Clause} {cs cs' : List Clause}
  {goals rest rest' : List Goal} {s s₁ s' s₁' a a' : Substitution}
  {st st' u u' inner inner' : State}

/-! ## States -/

/-- Two answers that give two lists of goals the same values. -/
structure SameValues (last last' : List Goal) (a a' : Substitution) : Prop where
  wellFormed : a.WellFormed
  wellFormed' : a'.WellFormed
  alike : Alike [] ⟨0, last, a, default⟩ ⟨0, last', a', default⟩

/-- Two states that differ in the number of copies, and in their answers only as far as these give
two lists of goals the same values. -/
structure State.Matches (last last' : List Goal) (st st' : State) : Prop where
  inferences : st.inferences = st'.inferences
  truncated : st.truncated = st'.truncated
  wanted : st.wanted = st'.wanted
  answers : List.Forall₂ (SameValues last last') st.answers st'.answers

/-- Two searches have ended alike. -/
structure Agree (last last' : List Goal) (result result' : Flow × State) : Prop where
  flow : result.1 = result'.1
  state : result.2.Matches last last' result'.2

namespace State.Matches

theorem cut (h : st.Matches last last' st') :
    State.Matches last last' { st with truncated := true } { st' with truncated := true } :=
  { h with truncated := rfl }

theorem called (h : st.Matches last last' st') : st.called.Matches last last' st'.called :=
  { h with inferences := congrArg (· + 1) h.inferences }

theorem copied (h : st.Matches last last' st') : st.copied.Matches last last' st'.copied :=
  { h with }

theorem asking (h : st.Matches last last' st') : st.asking.Matches [] [] st'.asking :=
  { h with wanted := rfl, answers := .nil }

theorem resume (h : st.Matches last last' st') (hinner : inner.Matches [] [] inner') :
    (st.resume inner).Matches last last' (st'.resume inner') :=
  { hinner with wanted := h.wanted, answers := h.answers }

theorem emit (h : st.Matches last last' st') (ha : SameValues last last' a a') :
    Agree last last' (emit a st) (emit a' st') where
  flow := by simp only [Search.emit, h.wanted]
  state := { h with wanted := congrArg (· - 1) h.wanted, answers := .cons ha h.answers }

theorem answers_eq_nil (h : st.Matches last last' st') : st.answers = [] ↔ st'.answers = [] := by
  rw [← List.length_eq_zero_iff, h.answers.length_eq, List.length_eq_zero_iff]

end State.Matches

/-! ## Nodes -/

/-- A node with other goals after its own. -/
def Node.followedBy (last : List Goal) (n : Node) : Node :=
  { n with goals := n.goals ++ last }

theorem Node.followedBy_append : Node.followedBy last ⟨k, goals ++ rest, s, st⟩ =
    ⟨k, goals ++ (rest ++ last), s, st⟩ := by
  simp [followedBy]

/-- Two nodes at which two searches do the same. -/
structure Lockstep (last last' : List Goal) (n n' : Node) : Prop where
  levels : n.levels = n'.levels
  length : n.goals.length = n'.goals.length
  alike : Alike [] (n.followedBy last) (n'.followedBy last')
  valid : (n.followedBy last).Valid
  valid' : (n'.followedBy last').Valid
  state : n.state.Matches last last' n'.state

namespace Lockstep

/-- The first goals are of the same form. -/
theorem exists_head (h : Lockstep last last' ⟨k, g :: rest, s, st⟩ n') :
    ∃ g' rest' s' st', n' = ⟨k, g' :: rest', s', st'⟩ ∧ g.SameForm g' := by
  obtain ⟨k', goals', s', st'⟩ := n'
  obtain rfl : k = k' := h.levels
  cases goals' with
  | nil => exact absurd h.length (by simp)
  | cons g' rest' =>
    obtain ⟨_, _, hgoals, hform⟩ := h.alike.covers.exists_head h.valid.wellFormed
    obtain ⟨rfl, -⟩ := List.cons.inj hgoals
    exact ⟨g', rest', s', st', rfl, hform⟩

theorem exists_nil (h : Lockstep last last' ⟨k, [], s, st⟩ n') :
    ∃ s' st', n' = ⟨k, [], s', st'⟩ := by
  obtain ⟨k', goals', s', st'⟩ := n'
  obtain rfl : k = k' := h.levels
  obtain rfl : goals' = [] := List.length_eq_zero_iff.mp h.length.symm
  exact ⟨s', st', rfl⟩

/-- Terms that are compared first unify in both searches or in neither. -/
theorem unify_fst (h : Lockstep last last' ⟨k, g :: rest, s, st⟩ ⟨k, g' :: rest', s', st'⟩)
    (hg : g.compared? = some (l, r)) (hg' : g'.compared? = some (l', r')) :
    (s'.unify l' r').1 = (s.unify l r).1 :=
  h.alike.unify_fst hg hg' h.valid.wellFormed h.valid'.wellFormed

/-- A call has a counterpart of the same predicate. -/
theorem functor?
    (h : Lockstep last last' ⟨k, .call t :: rest, s, st⟩ ⟨k, .call t' :: rest', s', st'⟩)
    (hkey : (s.resolve t).functor? = functor) : (s'.resolve t').functor? = functor :=
  (h.alike.covers.functor? h.valid h.valid').trans hkey

/-- At nodes without goals there are answers with the same values. -/
theorem sameValues (h : Lockstep last last' ⟨k, [], s, st⟩ ⟨k, [], s', st'⟩) :
    SameValues last last' s s' :=
  ⟨h.valid.wellFormed, h.valid'.wellFormed, h.alike.covers, h.alike.covered⟩

/-- The first goals may be left out. -/
theorem tail (h : Lockstep last last' ⟨k, g :: rest, s, st⟩ ⟨k, g' :: rest', s', st'⟩)
    (hu : u.Matches last last' u') (hst : st.copies ≤ u.copies) (hst' : st'.copies ≤ u'.copies) :
    Lockstep last last' ⟨k, rest, s, u⟩ ⟨k, rest', s', u'⟩ where
  levels := rfl
  length := Nat.succ.inj h.length
  alike := h.alike.tail
  valid := h.valid.tail hst
  valid' := h.valid'.tail hst'
  state := hu

theorem unify
    (h : Lockstep last last' ⟨k, .unify l r :: rest, s, st⟩ ⟨k, .unify l' r' :: rest', s', st'⟩)
    (hunify : s.unify l r = (true, s₁)) (hunify' : s'.unify l' r' = (true, s₁')) :
    Lockstep last last' ⟨k, rest, s₁, st⟩ ⟨k, rest', s₁', st'⟩ where
  levels := rfl
  length := Nat.succ.inj h.length
  alike := h.alike.equate h.valid.wellFormed h.valid'.wellFormed hunify hunify'
  valid := h.valid.unify hunify
  valid' := h.valid'.unify hunify'
  state := h.state

theorem asking
    (h : Lockstep last last' ⟨k + 1, .not g :: rest, s, st⟩ ⟨k + 1, .not g' :: rest', s', st'⟩) :
    Lockstep [] [] (.asking k g s st) (.asking k g' s' st') where
  levels := rfl
  length := rfl
  alike := h.alike.asking
  valid := h.valid.asking (Nat.le_refl _)
  valid' := h.valid'.asking (Nat.le_refl _)
  state := h.state.asking

/-- Variants of a clause unify with like calls, and their bodies may take the place of the calls. -/
theorem clause
    (h : Lockstep last last' ⟨k + 1, .call t :: rest, s, st⟩ ⟨k + 1, .call t' :: rest', s', st'⟩)
    (hc : c.Variants c') (hst : st.copies ≤ u.copies) (hst' : st'.copies ≤ u'.copies)
    (hu : u.Matches last last' u')
    (hunify : s.unify (s.resolve t) (c.head.rename u.copied.copies) = (true, s₁))
    (hunify' : s'.unify (s'.resolve t') (c'.head.rename u'.copied.copies) = (true, s₁')) :
    Lockstep last last'
      ⟨k, c.body.map (Goal.rename u.copied.copies) ++ rest, s₁, u.copied⟩
      ⟨k, c'.body.map (Goal.rename u'.copied.copies) ++ rest', s₁', u'.copied⟩ := by
  have hrest : rest.length = rest'.length := Nat.succ.inj h.length
  refine ⟨rfl, ?_, ⟨?_, ?_⟩, ?_, ?_, hu.copied⟩
  · simp [hc.covers.length_body, hrest]
  · rw [Node.followedBy_append, Node.followedBy_append]
    exact h.alike.covers.enter_covers h.valid.wellFormed h.valid' (by simp) hc.covers hc.fromText'
      hst' hunify hunify'
  · rw [Node.followedBy_append, Node.followedBy_append]
    exact h.alike.covered.enter_covers h.valid'.wellFormed h.valid (by simp) hc.covered hc.fromText
      hst hunify' hunify
  · rw [Node.followedBy_append]
    exact h.valid.clause hc.fromText hst hunify
  · rw [Node.followedBy_append]
    exact h.valid'.clause hc.fromText' hst' hunify'

/-- The heads of variants unify with like calls, or neither does. -/
theorem unify_head
    (h : Lockstep last last' ⟨k + 1, .call t :: rest, s, st⟩ ⟨k + 1, .call t' :: rest', s', st'⟩)
    (hc : c.Variants c') (hst : st.copies ≤ u.copies) (hst' : st'.copies ≤ u'.copies) :
    (s'.unify (s'.resolve t') (c'.head.rename u'.copied.copies)).1 =
      (s.unify (s.resolve t) (c.head.rename u.copied.copies)).1 := by
  have hs := h.valid.wellFormed
  have hs' := h.valid'.wellFormed
  refine unify_fst_eq (fun s₁ hunify => ?_) fun s₁' hunify' => ?_
  · obtain ⟨s₁', -, hunify', -⟩ := h.alike.covers.enter hs h.valid' (by simp) hc.covers hc.fromText'
      hst' hunify (Substitution.unify_true hs hunify).1.value_satisfies
    exact ⟨s₁', hunify'⟩
  · obtain ⟨s₁, -, hunify, -⟩ := h.alike.covered.enter hs' h.valid (by simp) hc.covered hc.fromText
      hst hunify' (Substitution.unify_true hs' hunify').1.value_satisfies
    exact ⟨s₁, hunify⟩

end Lockstep

/-! ## Searches -/

/-- With so many levels left, a search over a theory and one with offered clauses agree from nodes
in lockstep. -/
def AgreeOver (theory : Theory) (offer : Indicator → List Clause) (maxInferences k : Nat) : Prop :=
  ∀ goals s st last last' n', Lockstep last last' ⟨k, goals, s, st⟩ n' →
    Agree last last' (prove theory maxInferences k goals s st) (n'.runOver offer maxInferences)

/-- With so many levels left, searches over two theories agree from nodes in lockstep. -/
def AgreeAt (theory theory' : Theory) (maxInferences k : Nat) : Prop :=
  ∀ goals s st last last' n', Lockstep last last' ⟨k, goals, s, st⟩ n' →
    Agree last last' (prove theory maxInferences k goals s st) (n'.run theory' maxInferences)

theorem Agree.attempt (hrun : AgreeOver theory offer maxInferences k)
    (h : Lockstep last last' ⟨k + 1, .call t :: rest, s, st⟩ ⟨k + 1, .call t' :: rest', s', st'⟩)
    (hc : c.Variants c') (hst : st.copies ≤ u.copies) (hst' : st'.copies ≤ u'.copies)
    (hu : u.Matches last last' u') :
    Agree last last' (attempt (prove theory maxInferences k) (s.resolve t) rest s c u)
      (attempt (proveOver offer maxInferences k) (s'.resolve t') rest' s' c' u') := by
  have hhead := h.unify_head hc hst hst'
  rcases hunify : s.unify (s.resolve t) (c.head.rename u.copied.copies) with ⟨unifies, s₁⟩
  rcases hunify' : s'.unify (s'.resolve t') (c'.head.rename u'.copied.copies) with ⟨unifies', s₁'⟩
  simp only [hunify, hunify'] at hhead
  subst hhead
  cases unifies' with
  | false =>
    simp only [Search.attempt, hunify, hunify']
    exact ⟨rfl, hu.copied⟩
  | true =>
    simp only [Search.attempt, hunify, hunify']
    exact hrun _ _ _ _ _ _ (h.clause hc hst hst' hu hunify hunify')

/-- The search of a negation has a counterpart that ends alike. -/
theorem Lockstep.exists_inner
    (h : Lockstep last last' ⟨k + 1, .not g :: rest, s, st⟩ ⟨k + 1, .not g' :: rest', s', st'⟩)
    (hinner : ((Node.asking k g s st).run theory maxInferences).2 = inner)
    (hrun : ∀ last last' n', Lockstep last last' (.asking k g s st) n' →
      Agree last last' ((Node.asking k g s st).run theory maxInferences)
        (n'.runOver offer maxInferences)) :
    ∃ inner', (proveOver offer maxInferences k [g'] s' st'.asking).2 = inner' ∧
      inner.Matches [] [] inner' ∧ st'.copies ≤ (st'.resume inner').copies :=
  ⟨_, rfl, hinner ▸ (hrun _ _ _ h.asking).state,
    (proveOver_follows k [g'] s' st'.asking).resume.copies⟩

/-- Terms of different predicates do not unify. -/
theorem unify_of_functor?_ne (hs : s.WellFormed) (hl : l.functor? = some key)
    (hr : r.functor?.isSome) (hne : r.functor? ≠ some key) : (s.unify l r).1 = false := by
  rw [Bool.eq_false_iff]
  intro htrue
  obtain ⟨hs₁, -, hiff⟩ := Substitution.unify_true hs (Prod.ext htrue rfl)
  obtain ⟨-, heq⟩ := (hiff _).mp hs₁.value_satisfies
  have hfunctor := congrArg Term.functor? heq
  rw [Term.functor?_subst hl, Term.isSome_functor?_subst hr] at hfunctor
  exact hne hfunctor.symm

/-- A clause of another predicate that is tried only costs a copy. -/
theorem attempt_of_functor?_ne {run : Run} {goal : Term} (hs : s.WellFormed)
    (hgoal : goal.functor? = some key) (hc : c.FromText) (hne : c.head.functor? ≠ some key) :
    attempt run goal rest s c st = (.more, st.copied) := by
  refine attempt_of_clash (unify_of_functor?_ne hs hgoal ?_ ?_)
  · rw [Term.rename, Term.isSome_functor?_subst hc.callable]
    exact hc.callable
  · rwa [Term.rename, Term.isSome_functor?_subst hc.callable]

/-- Trying offered clauses in order ends alike. -/
theorem Agree.clauses (hrun : AgreeOver theory offer maxInferences k)
    (h : Lockstep last last' ⟨k + 1, .call t :: rest, s, st⟩ ⟨k + 1, .call t' :: rest', s', st'⟩)
    (hkey : (s'.resolve t').functor? = some key) (hcs : Clause.Offered key cs cs')
    (hst : st.copies ≤ u.copies) (hst' : st'.copies ≤ u'.copies) (hu : u.Matches last last' u') :
    Agree last last' (tryClauses (prove theory maxInferences k) (s.resolve t) rest s cs u)
      (tryClauses (proveOver offer maxInferences k) (s'.resolve t') rest' s' cs' u') := by
  induction hcs generalizing u u' with
  | nil => exact ⟨rfl, hu⟩
  | @variant c c' cs cs' hc _ ih =>
    have hfirst := Agree.attempt hrun h hc hst hst' hu
    have hfollows : u.Follows
        (Search.attempt (prove theory maxInferences k) (s.resolve t) rest s c u).2 :=
      attempt_follows (prove_follows k)
    have hfollows' : u'.Follows
        (Search.attempt (proveOver offer maxInferences k) (s'.resolve t') rest' s' c' u').2 :=
      attempt_follows (proveOver_follows k)
    simp only [tryClauses_cons]
    generalize Search.attempt (prove theory maxInferences k) (s.resolve t) rest s c u = result
      at hfirst hfollows
    generalize Search.attempt (proveOver offer maxInferences k) (s'.resolve t') rest' s' c' u' =
      result' at hfirst hfollows'
    obtain ⟨flow, u₁⟩ := result
    obtain ⟨flow', u₁'⟩ := result'
    obtain rfl : flow = flow' := hfirst.flow
    cases flow with
    | stop => exact ⟨rfl, hfirst.state⟩
    | more => exact ih (hst.trans hfollows.copies) (hst'.trans hfollows'.copies) hfirst.state
  | other hc' hne _ ih =>
    have hs' : s'.WellFormed := h.valid'.wellFormed
    rw [tryClauses_cons, attempt_of_functor?_ne hs' hkey hc' hne]
    exact ih hst (hst'.trans (Nat.le_succ _)) { hu with }

/-- A search over a theory agrees, from nodes in lockstep, with one that is offered variants of its
clauses, among clauses of other predicates. -/
theorem prove_lockstep_over (hoffer : ∀ key, Clause.Offered key (theory.candidates key) (offer key))
    (k : Nat) : AgreeOver theory offer maxInferences k := by
  intro goals s st
  -- The induction follows the first search. The goals after its own are not fixed, since the search
  -- of a negation has none.
  induction k, goals, s, st using prove_induct theory maxInferences with
  | answer =>
    intro last last' n' h
    obtain ⟨s', st', rfl⟩ := h.exists_nil
    simp only [Node.runOver, prove_nil, proveOver_nil]
    exact h.state.emit h.sameValues
  | deep =>
    intro last last' n' h
    obtain ⟨g', rest', s', st', rfl, -⟩ := h.exists_head
    exact ⟨rfl, h.state.cut⟩
  | @unify k l r rest s s₁ st hunify ih =>
    intro last last' n' h
    obtain ⟨_, rest', s', st', rfl, ⟨l', r'⟩⟩ := h.exists_head
    obtain ⟨s₁', hunify'⟩ :=
      h.alike.covers.exists_unify rfl rfl h.valid.wellFormed h.valid'.wellFormed hunify
    simp only [Node.runOver, prove_unify, proveOver_unify, hunify, hunify']
    exact ih _ _ _ (h.unify hunify hunify')
  | @unify_fails k l r rest s s₁ st hunify =>
    intro last last' n' h
    obtain ⟨_, rest', s', st', rfl, ⟨l', r'⟩⟩ := h.exists_head
    have hsame := h.unify_fst rfl rfl
    rcases hunify' : s'.unify l' r' with ⟨_ | _, s₁'⟩
    · simp only [Node.runOver, prove_unify, proveOver_unify, hunify, hunify']
      exact ⟨rfl, h.state⟩
    · exact absurd hsame (by simp [hunify, hunify'])
  | @notUnify k l r rest s st hunify ih =>
    intro last last' n' h
    obtain ⟨_, rest', s', st', rfl, ⟨l', r'⟩⟩ := h.exists_head
    have hunify' := (h.unify_fst rfl rfl).trans hunify
    simp only [Node.runOver, prove_notUnify, proveOver_notUnify, hunify, hunify']
    exact ih _ _ _ (h.tail h.state (Nat.le_refl _) (Nat.le_refl _))
  | @notUnify_fails k l r rest s st hunify =>
    intro last last' n' h
    obtain ⟨_, rest', s', st', rfl, ⟨l', r'⟩⟩ := h.exists_head
    have hunify' := (h.unify_fst rfl rfl).trans hunify
    simp only [Node.runOver, prove_notUnify, proveOver_notUnify, hunify, hunify']
    exact ⟨rfl, h.state⟩
  | @not k g rest s st inner hinner hempty ihinner ih =>
    intro last last' n' h
    obtain ⟨_, rest', s', st', rfl, ⟨g'⟩⟩ := h.exists_head
    obtain ⟨inner', hinner', hasked, hcopies'⟩ := h.exists_inner hinner ihinner
    have hempty' := hasked.answers_eq_nil.mp hempty
    simp only [Node.runOver, prove_not hinner, proveOver_not hinner', hempty, hempty',
      List.isEmpty_nil, if_true]
    exact ih _ _ _ (h.tail (h.state.resume hasked) (asking_follows hinner).copies hcopies')
  | @not_fails k g rest s st inner hinner hfound ihinner =>
    intro last last' n' h
    obtain ⟨_, rest', s', st', rfl, ⟨g'⟩⟩ := h.exists_head
    obtain ⟨inner', hinner', hasked, -⟩ := h.exists_inner hinner ihinner
    have hfound' := hasked.answers_eq_nil.not.mp hfound
    simp only [Node.runOver, prove_not hinner, proveOver_not hinner', List.isEmpty_iff, hfound,
      hfound', if_false]
    exact ⟨rfl, h.state.resume hasked⟩
  | not_callable hkey =>
    intro last last' n' h
    obtain ⟨_, rest', s', st', rfl, ⟨t'⟩⟩ := h.exists_head
    simp only [Node.runOver, prove_not_callable hkey, proveOver_not_callable (h.functor? hkey)]
    exact ⟨rfl, h.state⟩
  | overrun hkey hst =>
    intro last last' n' h
    obtain ⟨_, rest', s', st', rfl, ⟨t'⟩⟩ := h.exists_head
    have hst' : maxInferences ≤ st'.inferences := h.state.inferences ▸ hst
    simp only [Node.runOver, prove_overrun hkey hst, proveOver_overrun (h.functor? hkey) hst']
    exact ⟨rfl, h.state.called.cut⟩
  | truth hkey htrue hst ih =>
    intro last last' n' h
    obtain ⟨_, rest', s', st', rfl, ⟨t'⟩⟩ := h.exists_head
    have hst' : st'.inferences < maxInferences := h.state.inferences ▸ hst
    simp only [Node.runOver, prove_call hkey hst, proveOver_call (h.functor? hkey) hst', htrue]
    exact ih _ _ _ (h.tail h.state.called (Nat.le_refl _) (Nat.le_refl _))
  | falsity hkey hfalse hst =>
    intro last last' n' h
    obtain ⟨_, rest', s', st', rfl, ⟨t'⟩⟩ := h.exists_head
    have hst' : st'.inferences < maxInferences := h.state.inferences ▸ hst
    simp only [Node.runOver, prove_call hkey hst, proveOver_call (h.functor? hkey) hst', hfalse]
    exact ⟨rfl, h.state.called⟩
  | clauses hkey hnone hst ih =>
    intro last last' n' h
    obtain ⟨_, rest', s', st', rfl, ⟨t'⟩⟩ := h.exists_head
    have hst' : st'.inferences < maxInferences := h.state.inferences ▸ hst
    simp only [Node.runOver, prove_call hkey hst, proveOver_call (h.functor? hkey) hst', hnone]
    exact .clauses ih h (h.functor? hkey) (hoffer _) (Nat.le_refl _) (Nat.le_refl _) h.state.called

/-- Searches over variants of clauses agree from nodes in lockstep. -/
theorem prove_lockstep
    (hcandidates : ∀ key, List.Forall₂ Clause.Variants (theory.candidates key)
      (theory'.candidates key))
    (k : Nat) : AgreeAt theory theory' maxInferences k := by
  have hover : AgreeOver theory theory'.candidates maxInferences k :=
    prove_lockstep_over (fun key => .of_variants (hcandidates key)) k
  intro goals s st last last' n' h
  have hagree := hover goals s st last last' n' h
  rwa [Node.runOver, proveOver_candidates] at hagree

end Search

end OntoLogic
