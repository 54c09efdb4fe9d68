-- SUMMARY: A search that wants fewer answers finds the first ones, and says so.
import OntoLogic.Proofs.Resolution.Node

/-!
# The bound on solutions

A search that wants more answers does what a search that wants fewer does, until the latter has all
it wants. A negation wants one answer whatever the search around it wants, and hands back what was
wanted before, so its answers do not count.
-/

namespace OntoLogic

namespace Search

variable {theory : Theory} {maxInferences d : Nat} {run : Run} {goal : Term} {c : Clause}
  {cs : List Clause} {rest : List Goal} {s : Substitution} {st st' : State} {flow : Flow}
  {r r' : Flow × State}

/-- The state of a search that wants `d` more answers. -/
def State.wantMore (d : Nat) (st : State) : State :=
  { st with wanted := st.wanted + d }

/-! ## Searches that want fewer answers -/

/-- What a search from a state ends with, compared with the search that wants `d` more answers. -/
structure Shortens (d : Nat) (st : State) (r r' : Flow × State) : Prop where
  /-- Each answer uses up one that is wanted. -/
  count : r.2.answers.length + r.2.wanted = st.answers.length + st.wanted
  /-- The last one that is wanted ends the search. -/
  wanted : r.1 = .more → 1 ≤ r.2.wanted
  same_or_cut : r' = (r.1, r.2.wantMore d) ∨
    r.1 = .stop ∧ r.2.wanted = 0 ∧ r.2.answers <:+ r'.2.answers

namespace Shortens

/-- Without another answer the two searches end alike. -/
theorem given_up (hwanted : st'.wanted = st.wanted) (hanswers : st'.answers = st.answers)
    (hst : 1 ≤ st.wanted) : Shortens d st (flow, st') (flow, st'.wantMore d) where
  count := by simp only [hwanted, hanswers]
  wanted _ := hwanted ▸ hst
  same_or_cut := .inl rfl

/-- What a search does before it starts does not matter when the answers stay the same. -/
theorem after (h : Shortens d st' r r') (hwanted : st'.wanted = st.wanted)
    (hanswers : st'.answers = st.answers) : Shortens d st r r' where
  count := by rw [h.count, hwanted, hanswers]
  wanted := h.wanted
  same_or_cut := h.same_or_cut

theorem answer (hst : 1 ≤ st.wanted) : Shortens d st (emit s st) (emit s (st.wantMore d)) := by
  have hcount : (emit s st).2.answers.length + (emit s st).2.wanted =
      st.answers.length + st.wanted := by
    simp only [emit, List.length_cons]
    omega
  rcases hst.eq_or_lt with hlast | hmore
  · have hstop : (emit s st).1 = .stop := by simp [emit, ← hlast]
    refine ⟨hcount, by simp [hstop], .inr ⟨hstop, ?_, List.suffix_rfl⟩⟩
    simp [emit, ← hlast]
  · refine ⟨hcount, fun _ => Nat.le_sub_one_of_lt hmore, .inl ?_⟩
    have hfirst : ¬st.wanted ≤ 1 := Nat.not_le.mpr hmore
    have hsecond : ¬st.wanted + d ≤ 1 := by omega
    have hwanted : st.wanted + d - 1 = st.wanted - 1 + d := by omega
    simp [emit, State.wantMore, hfirst, hsecond, hwanted]

theorem attempt
    (hrun : ∀ goals s st, 1 ≤ st.wanted →
      Shortens d st (run goals s st) (run goals s (st.wantMore d)))
    (hst : 1 ≤ st.wanted) :
    Shortens d st (attempt run goal rest s c st) (attempt run goal rest s c (st.wantMore d)) := by
  have hcopied : (st.wantMore d).copied = st.copied.wantMore d := rfl
  have hcopies : (st.copied.wantMore d).copies = st.copied.copies := rfl
  simp only [Search.attempt, hcopied, hcopies]
  split
  · exact .given_up rfl rfl hst
  · exact (hrun _ _ st.copied hst).after rfl rfl

/-- The clauses after the one with which the shorter search ends can only add answers. -/
theorem clauses
    (hrun : ∀ goals s st, 1 ≤ st.wanted →
      Shortens d st (run goals s st) (run goals s (st.wantMore d)))
    (hfollows : ∀ goals s st, State.Follows st (run goals s st).2) (hst : 1 ≤ st.wanted) :
    Shortens d st (tryClauses run goal rest s cs st)
      (tryClauses run goal rest s cs (st.wantMore d)) := by
  induction cs generalizing st with
  | nil => exact .given_up rfl rfl hst
  | cons c cs ih =>
    have hfirst : Shortens d st (Search.attempt run goal rest s c st)
      (Search.attempt run goal rest s c (st.wantMore d)) := .attempt hrun hst
    simp only [tryClauses_cons]
    generalize Search.attempt run goal rest s c st = r at hfirst
    generalize Search.attempt run goal rest s c (st.wantMore d) = r' at hfirst
    obtain ⟨flow, st₁⟩ := r
    rcases hfirst.same_or_cut with rfl | ⟨rfl, hnone, hanswers⟩
    · cases flow with
      | stop => exact hfirst
      | more =>
        have hrest := ih (hfirst.wanted rfl)
        exact ⟨hrest.count.trans hfirst.count, hrest.wanted, hrest.same_or_cut⟩
    · refine ⟨hfirst.count, nofun, .inr ⟨rfl, hnone, ?_⟩⟩
      obtain ⟨_ | _, st₁'⟩ := r'
      · exact hanswers.trans (tryClauses_follows hfollows).answers
      · exact hanswers

end Shortens

theorem prove_shortens (theory : Theory) (maxInferences d k : Nat) (goals : List Goal)
    (s : Substitution) (st : State) (hst : 1 ≤ st.wanted) :
    Shortens d st (prove theory maxInferences k goals s st)
      (prove theory maxInferences k goals s (st.wantMore d)) := by
  induction k, goals, s, st using prove_induct theory maxInferences with
  | answer =>
    simp only [prove_nil]
    exact .answer hst
  | deep => exact .given_up rfl rfl hst
  | unify hunify ih =>
    simp only [prove_unify, hunify]
    exact ih hst
  | unify_fails hunify =>
    simp only [prove_unify, hunify]
    exact .given_up rfl rfl hst
  | notUnify hunify ih =>
    simp only [prove_notUnify, hunify]
    exact ih hst
  | notUnify_fails hunify =>
    simp only [prove_notUnify, hunify]
    exact .given_up rfl rfl hst
  | @not k g rest s st inner hinner hempty _ ih =>
    -- The negation itself does not see how many answers are wanted around it.
    have hinner' : ((Node.asking k g s (st.wantMore d)).run theory maxInferences).2 = inner :=
      hinner
    simp only [prove_not hinner, prove_not hinner', hempty, List.isEmpty_nil, if_true]
    exact (ih hst).after rfl rfl
  | @not_fails k g rest s st inner hinner hfound =>
    have hinner' : ((Node.asking k g s (st.wantMore d)).run theory maxInferences).2 = inner :=
      hinner
    simp only [prove_not hinner, prove_not hinner', List.isEmpty_iff, hfound]
    exact .given_up rfl rfl hst
  | not_callable hkey =>
    simp only [prove_not_callable hkey]
    exact .given_up rfl rfl hst
  | @overrun k t key rest s st hkey hmax =>
    have hmax' : maxInferences ≤ (st.wantMore d).inferences := hmax
    simp only [prove_overrun hkey hmax, prove_overrun hkey hmax']
    exact .given_up rfl rfl hst
  | @truth k t key rest s st hkey htrue hmax ih =>
    have hmax' : (st.wantMore d).inferences < maxInferences := hmax
    simp only [prove_call hkey hmax, prove_call hkey hmax', htrue]
    exact (ih hst).after rfl rfl
  | @falsity k t key rest s st hkey hfalse hmax =>
    have hmax' : (st.wantMore d).inferences < maxInferences := hmax
    simp only [prove_call hkey hmax, prove_call hkey hmax', hfalse]
    exact .given_up rfl rfl hst
  | @clauses k t key rest s st hkey hnone hmax ih =>
    have hmax' : (st.wantMore d).inferences < maxInferences := hmax
    simp only [prove_call hkey hmax, prove_call hkey hmax', hnone]
    have hcalled : 1 ≤ st.called.wanted := hst
    exact (Shortens.clauses ih (prove_follows k) hcalled).after rfl rfl

end Search

/-! ## Solutions -/

namespace Theory

/-- A bound on solutions takes the first solutions of a search with a higher bound, and at least
one. A search that finds as many as it may is reported as truncated. -/
theorem solve_take (theory : Theory) (query : Query) (bounds : Bounds) {m m' : Nat} (h : m ≤ m') :
    (theory.solve { bounds with maxSolutions := m } query).solutions =
      (theory.solve { bounds with maxSolutions := m' } query).solutions.take (max m 1) ∧
    (max m 1 ≤ (theory.solve { bounds with maxSolutions := m } query).solutions.length →
      (theory.solve { bounds with maxSolutions := m } query).truncated = true) := by
  obtain ⟨d, hd⟩ : ∃ d, max 1 m' = max 1 m + d := Nat.exists_eq_add_of_le (by omega)
  have hshort := Search.prove_shortens theory bounds.maxInferences d (bounds.maxDepth + 1)
    query.goals ∅ (.initial (max 1 m)) (Nat.le_max_left 1 m)
  have hstart : (Search.State.initial (max 1 m)).wantMore d = .initial (max 1 m') := by
    rw [hd]
    rfl
  simp only [solve, Search.run, max_comm m 1]
  rw [hstart] at hshort
  generalize Search.prove theory bounds.maxInferences (bounds.maxDepth + 1) query.goals ∅
    (.initial (max 1 m)) = r at hshort
  generalize Search.prove theory bounds.maxInferences (bounds.maxDepth + 1) query.goals ∅
    (.initial (max 1 m')) = r' at hshort
  obtain ⟨flow, st⟩ := r
  have hcount : st.answers.length + st.wanted = max 1 m := by
    simpa [Search.State.initial] using hshort.count
  rcases hshort.same_or_cut with rfl | ⟨hstop, hnone, hanswers⟩
  · refine ⟨?_, fun hall => ?_⟩
    · refine (List.take_of_length_le ?_).symm
      simp only [List.length_map, List.length_reverse]
      omega
    · cases flow with
      | stop => simp
      | more =>
        have hwanted : 1 ≤ st.wanted := hshort.wanted rfl
        simp only [List.length_map, List.length_reverse] at hall
        omega
  · obtain rfl : flow = .stop := hstop
    have hnone : st.wanted = 0 := hnone
    refine ⟨?_, fun _ => by simp⟩
    obtain ⟨later, hlater⟩ := hanswers
    simp only at hlater
    rw [← hlater, List.reverse_append, List.map_append, ← hcount, hnone]
    exact (List.take_left' (by simp)).symm

/-- With a negation between the answers, and with a bound of zero. -/
theorem solve_take_flies :
    let theory := (load ["bird(tweety).", "bird(pingu).", "bird(polly).", "penguin(pingu).",
      "flies(X) :- bird(X), \\+ penguin(X)."]).toOption.getD .empty
    let query := (Query.parse "flies(X)").toOption.getD ⟨[]⟩
    let found (m : Nat) := theory.solve { ({} : Bounds) with maxSolutions := m } query
    0 ≤ 3 ∧ (found 3).solutions.map Solution.text = ["X = tweety", "X = polly"] ∧
    (found 3).truncated = false ∧ (found 0).solutions.length = 1 ∧
    (found 0).solutions = (found 3).solutions.take 1 ∧ (found 0).truncated = true := by
  intro theory query found
  have hone : (found 0).solutions.length = 1 := by decide +kernel
  obtain ⟨htake, htruncated⟩ := solve_take theory query {} (Nat.zero_le 3)
  exact ⟨Nat.zero_le 3, by decide +kernel, by decide +kernel, hone, htake, htruncated hone.ge⟩

end Theory

end OntoLogic
