-- SUMMARY: The call that exceeds the bound on inferences ends the search to which it belongs.
import OntoLogic.Proofs.Resolution.Soundness

/-!
# The bound on inferences

The call that notices that the inferences are used up ends the search to which it belongs: that of
the query, or that of the innermost negation. No clause is tried after it in that search, and no
answer is added.

The search around a negation does not ask how the search of the negation has ended. When no
negation that is reached uses up the inferences, the query makes at most one call too many, and
that call is the last thing it does.
-/

namespace OntoLogic

namespace Search

variable {theory : Theory} {maxInferences : Nat} {n m : Node}

/-- The state that a call leaves behind when the inferences are used up. -/
def State.overrun (st : State) : State :=
  { st.called with truncated := true }

/-- The next goal is a call, and the inferences are used up. -/
def Node.AtBound (maxInferences : Nat) : Node → Prop
  | ⟨_ + 1, .call t :: _, s, st⟩ => (s.resolve t).functor?.isSome ∧ maxInferences ≤ st.inferences
  | _ => False

/-- No negation that is reached from a node uses up the inferences. -/
def Node.NegationsWithin (theory : Theory) (maxInferences : Nat) (n : Node) : Prop :=
  ∀ k g rest s st, Relation.ReflTransGen (Next theory maxInferences) n
      ⟨k + 1, .not g :: rest, s, st⟩ →
    ((Node.asking k g s st).run theory maxInferences).2.inferences ≤ maxInferences

/-! ## The call that notices the bound -/

theorem Node.AtBound.run_eq (h : n.AtBound maxInferences) :
    n.run theory maxInferences = (.stop, n.state.overrun) := by
  match n, h with
  | ⟨_ + 1, .call t :: _, s, st⟩, ⟨hcallable, hst⟩ =>
    obtain ⟨key, hkey⟩ := Option.isSome_iff_exists.mp hcallable
    exact prove_overrun hkey hst

/-- What ends the search from a node after a step ends the search from the node before it. -/
theorem Next.run_eq_of_stop (h : Next theory maxInferences n m)
    (hstop : (m.run theory maxInferences).1 = .stop) :
    n.run theory maxInferences = m.run theory maxInferences := by
  rcases h.run_cases with heq | ⟨_, _, _, _, _, _, _, _, -, hn, htries, hm⟩
  · exact heq
  · rw [hn, hm]
    exact htries.tryClauses_eq (hm ▸ hstop)

/-- A search ends with the first call that notices the bound. -/
theorem run_eq_of_atBound (hpath : Relation.ReflTransGen (Next theory maxInferences) n m)
    (hm : m.AtBound maxInferences) :
    n.run theory maxInferences = (.stop, m.state.overrun) := by
  induction hpath using Relation.ReflTransGen.head_induction_on with
  | refl => exact hm.run_eq
  | head hstep _ ih => rw [hstep.run_eq_of_stop (by rw [ih]), ih]

/-! ## Searches whose negations keep within the bound -/

/-- The first call that notices the bound is one that the search reaches. -/
def FirstOverrun (theory : Theory) (maxInferences : Nat) (n : Node) : Prop :=
  ∃ m, Relation.ReflTransGen (Next theory maxInferences) n m ∧ m.AtBound maxInferences ∧
    m.state.inferences = maxInferences

theorem FirstOverrun.step (hstep : Next theory maxInferences n m)
    (hn : n.NegationsWithin theory maxInferences)
    (hm : m.NegationsWithin theory maxInferences → FirstOverrun theory maxInferences m) :
    FirstOverrun theory maxInferences n := by
  obtain ⟨last, hpath, hlast⟩ := hm fun k g rest s st hpath => hn k g rest s st (.head hstep hpath)
  exact ⟨last, .head hstep hpath, hlast⟩

/-- A search that uses up the inferences itself, and not within a negation, ends with the call that
notices it. -/
theorem prove_firstOverrun (k : Nat) (goals : List Goal) (s : Substitution) (st : State)
    (hwithin : Node.NegationsWithin theory maxInferences ⟨k, goals, s, st⟩)
    (hst : st.inferences ≤ maxInferences)
    (hover : maxInferences < (prove theory maxInferences k goals s st).2.inferences) :
    FirstOverrun theory maxInferences ⟨k, goals, s, st⟩ := by
  induction k, goals, s, st using prove_induct theory maxInferences with
  | answer =>
    rw [prove_nil] at hover
    exact absurd hst hover.not_ge
  | deep => exact absurd hst hover.not_ge
  | unify hunify ih =>
    simp only [prove_unify, hunify] at hover
    exact .step (.unify hunify) hwithin fun hrest => ih hrest hst hover
  | unify_fails hunify =>
    simp only [prove_unify, hunify] at hover
    exact absurd hst hover.not_ge
  | notUnify hunify ih =>
    simp only [prove_notUnify, hunify] at hover
    exact .step (.notUnify hunify) hwithin fun hrest => ih hrest hst hover
  | notUnify_fails hunify =>
    simp only [prove_notUnify, hunify] at hover
    exact absurd hst hover.not_ge
  | @not k g rest s st inner hinner hempty _ ih =>
    simp only [prove_not hinner, hempty] at hover
    have hkept : inner.inferences ≤ maxInferences := hinner ▸ hwithin _ _ _ _ _ .refl
    exact .step (.not hinner hempty) hwithin fun hrest => ih hrest hkept hover
  | @not_fails k g rest s st inner hinner hfound =>
    simp only [prove_not hinner, List.isEmpty_iff, hfound] at hover
    have hkept : inner.inferences ≤ maxInferences := hinner ▸ hwithin _ _ _ _ _ .refl
    exact absurd hkept hover.not_ge
  | not_callable hkey =>
    rw [prove_not_callable hkey] at hover
    exact absurd hst hover.not_ge
  | overrun hkey hmax => exact ⟨_, .refl, ⟨by simp [hkey], hmax⟩, hst.antisymm hmax⟩
  | truth hkey htrue hmax ih =>
    simp only [prove_call hkey hmax, htrue] at hover
    exact .step (.truth hkey htrue hmax) hwithin fun hrest => ih hrest hmax hover
  | falsity hkey hfalse hmax =>
    simp only [prove_call hkey hmax, hfalse] at hover
    exact absurd hmax hover.not_ge
  | @clauses k t key rest s st hkey hnone hmax ih =>
    simp only [prove_call hkey hmax, hnone] at hover
    have hcalled : st.called.inferences ≤ maxInferences := hmax
    obtain ⟨c, st', htries, hst', hattempt⟩ :=
      tryClauses_loses (P := fun st => st.inferences ≤ maxInferences) hcalled hover.not_ge
    unfold attempt at hattempt
    split at hattempt
    · exact absurd hst' hattempt
    · next s' hunify =>
      exact .step (.clause hkey hnone hmax htries hunify) hwithin fun hrest =>
        ih _ _ _ hrest hst' (Nat.not_le.mp hattempt)

theorem negationsWithin_of_withoutNegation
    (hprogram : ∀ c ∈ theory.clauses.toList, WithoutNegation c.body)
    (hn : WithoutNegation n.goals) : n.NegationsWithin theory maxInferences := by
  intro k g rest s st hpath
  have hlast : WithoutNegation (.not g :: rest) := by
    induction hpath using Relation.ReflTransGen.head_induction_on with
    | refl => exact hn
    | head hstep _ ih => exact ih (hstep.withoutNegation hprogram hn)
  exact absurd (hlast _ List.mem_cons_self) (by simp [Goal.isNegation])

/-- Only a negation in front can then use up the inferences. -/
theorem negationsWithin_not {k : Nat} {g : Goal} {rest : List Goal} {s : Substitution} {st : State}
    (hprogram : ∀ c ∈ theory.clauses.toList, WithoutNegation c.body)
    (hrest : WithoutNegation rest)
    (hasked : ((Node.asking k g s st).run theory maxInferences).2.inferences ≤ maxInferences) :
    Node.NegationsWithin theory maxInferences ⟨k + 1, .not g :: rest, s, st⟩ := by
  intro k' g' rest' s' st' hpath
  rcases hpath.cases_head with heq | ⟨m, hstep, hpath⟩
  · cases heq
    exact hasked
  · cases hstep with
    | not => exact negationsWithin_of_withoutNegation hprogram hrest _ _ _ _ _ hpath

end Search

/-! ## Solutions -/

namespace Theory

/-- The call that notices the bound on inferences ends the search to which it belongs. If no search
of a negation uses up the inferences, as when there are no negations, a query makes at most one call
too many: that call is the last, no clause is tried after it, and the solutions are those found
before it. -/
theorem solve_overrun (theory : Theory) (bounds : Bounds) (query : Query) :
    let start := Search.Node.start bounds query
    (∀ n m, Relation.ReflTransGen (Search.Next theory bounds.maxInferences) n m →
      m.AtBound bounds.maxInferences →
      n.run theory bounds.maxInferences = (.stop, m.state.overrun)) ∧
    (start.NegationsWithin theory bounds.maxInferences →
      (Search.run theory bounds query).2.inferences ≤ bounds.maxInferences ∨
      ∃ m, Relation.ReflTransGen (Search.Next theory bounds.maxInferences) start m ∧
        m.AtBound bounds.maxInferences ∧
        (Search.run theory bounds query).2.inferences = bounds.maxInferences + 1 ∧
        (Search.run theory bounds query).2.copies = m.state.copies ∧
        theory.solve bounds query =
          ⟨m.state.answers.reverse.map (Solution.ofAnswer query.visibleVars), true⟩) ∧
    ((∀ c ∈ theory.clauses.toList, WithoutNegation c.body) → WithoutNegation query.goals →
      start.NegationsWithin theory bounds.maxInferences) := by
  refine ⟨fun n m => Search.run_eq_of_atBound, fun hwithin => ?_, fun hprogram hquery =>
    Search.negationsWithin_of_withoutNegation hprogram hquery⟩
  rcases Nat.lt_or_ge bounds.maxInferences (Search.run theory bounds query).2.inferences with
    hover | hkept
  · obtain ⟨m, hpath, hm, hcalls⟩ := Search.prove_firstOverrun _ _ _ _ hwithin (Nat.zero_le _) hover
    have hrun : Search.run theory bounds query = (.stop, m.state.overrun) :=
      Search.run_eq_of_atBound hpath hm
    refine .inr ⟨m, hpath, hm, ?_, by rw [hrun]; rfl, ?_⟩
    · rw [hrun, ← hcalls]
      rfl
    · simp only [solve, hrun]
      rfl
  · exact .inl hkept

/-- A negation is granted in time, one solution is found, and the fourth call is one too many. -/
theorem solve_overrun_path :
    let theory := (load ["edge(a, b).", "edge(b, a).", "path(X, Y) :- edge(X, Y).",
      "path(X, Z) :- edge(X, Y), path(Y, Z)."]).toOption.getD .empty
    let query : Query := ⟨[.not (.call (.compound "edge" [.atom "b", .atom "b"])),
      .call (.compound "path" [.atom "a", .var "X"])]⟩
    let bounds : Bounds := { maxInferences := 3 }
    let start := Search.Node.start bounds query
    start.NegationsWithin theory bounds.maxInferences ∧
    (theory.solve bounds query).solutions.map Solution.text = ["X = b"] ∧
    ∃ m, Relation.ReflTransGen (Search.Next theory bounds.maxInferences) start m ∧
      m.AtBound bounds.maxInferences ∧
      (Search.run theory bounds query).2.inferences = bounds.maxInferences + 1 ∧
      (Search.run theory bounds query).2.copies = m.state.copies ∧
      theory.solve bounds query =
        ⟨m.state.answers.reverse.map (Solution.ofAnswer query.visibleVars), true⟩ := by
  intro theory query bounds start
  have hprogram : ∀ c ∈ theory.clauses.toList, WithoutNegation c.body := by decide +kernel
  have hrest : WithoutNegation query.goals.tail := by decide +kernel
  have hasked : ((Search.Node.asking bounds.maxDepth
      (.call (.compound "edge" [.atom "b", .atom "b"])) ∅
        (.initial (max 1 bounds.maxSolutions))).run theory bounds.maxInferences).2.inferences ≤
          bounds.maxInferences := by
    decide +kernel
  have hwithin : start.NegationsWithin theory bounds.maxInferences :=
    Search.negationsWithin_not hprogram hrest hasked
  have hover : ¬(Search.run theory bounds query).2.inferences ≤ bounds.maxInferences := by
    decide +kernel
  exact ⟨hwithin, by decide +kernel,
    ((solve_overrun theory bounds query).2.1 hwithin).resolve_left hover⟩

/-- With one inference the second call, in a negation, notices the bound. The negation is granted,
a third call is made, the next clause is tried, and two solutions are reported. -/
theorem negations_granted_past_bound :
    let theory := (load ["flies(X) :- \\+ penguin(X), \\+ injured(X).",
      "flies(robin)."]).toOption.getD .empty
    let query := (Query.parse "flies(Y)").toOption.getD ⟨[]⟩
    let bounds : Bounds := { maxInferences := 1 }
    let found (m : Nat) := Search.run theory { bounds with maxSolutions := m } query
    (found 1).2.answers.length = 1 ∧ (found 1).2.inferences = bounds.maxInferences + 2 ∧
    (found 1).2.copies = 1 ∧ (found 256).2.copies = 2 ∧
    (theory.solve bounds query).solutions.map Solution.text = ["Y = _", "Y = robin"] := by
  decide +kernel

end Theory

end OntoLogic
