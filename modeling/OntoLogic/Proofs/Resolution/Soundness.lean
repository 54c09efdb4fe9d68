-- SUMMARY: Every answer of a search without negation makes all goals of the query derivable.
import OntoLogic.Proofs.Resolution.Node
import OntoLogic.Resolution.Solution

/-!
# Soundness of the search

What a program says is what can be derived from it: a call when it is `true` or when an instance of
a clause has it as its head and derivable goals as its body, an equation when both sides are the
same term, an inequation when the sides have no common instance.

A search without negations only answers what is derivable. The values at the end of a path are
values of all nodes on the way, and seen from the end of the path each step is a derivation.
-/

namespace OntoLogic

def Goal.isNegation : Goal → Bool
  | .not _ => true
  | _ => false

def WithoutNegation (goals : List Goal) : Prop :=
  ∀ g ∈ goals, g.isNegation = false

instance (goals : List Goal) : Decidable (WithoutNegation goals) :=
  inferInstanceAs (Decidable (∀ g ∈ goals, g.isNegation = false))

namespace Search

/-- What can be derived from a program. -/
inductive Derivable (program : List Clause) : Goal → Prop where
  | truth {t : Term} {key : Indicator} : t.functor? = some key → builtin? key = some true →
    Derivable program (.call t)
  /-- A call that is no builtin is derived by an instance of a clause. -/
  | clause {c : Clause} {t : Term} {key : Indicator} (θ : Assignment) : c ∈ program →
    t = c.head.subst θ → t.functor? = some key → builtin? key = none →
    (∀ g ∈ c.body, Derivable program (g.subst θ)) → Derivable program (.call t)
  | unify (t : Term) : Derivable program (.unify t t)
  | notUnify {l r : Term} : (∀ θ, l.subst θ ≠ r.subst θ) → Derivable program (.notUnify l r)

variable {theory : Theory} {maxInferences : Nat} {n m : Node} {σ : Assignment}

/-! ## Steps -/

theorem isNegation_rename (k : Nat) (g : Goal) : (g.rename k).isNegation = g.isNegation := by
  cases g <;> rfl

theorem Next.withoutNegation (h : Next theory maxInferences n m)
    (hprogram : ∀ c ∈ theory.clauses.toList, WithoutNegation c.body)
    (hn : WithoutNegation n.goals) : WithoutNegation m.goals :=
  h.forall_goals (fun k g hg => (isNegation_rename k g).trans hg) hprogram hn

/-- Goals that are derivable after a step are so before it. -/
theorem Next.derivable (h : Next theory maxInferences n m) (hn : n.bindings.WellFormed)
    (hgoals : WithoutNegation n.goals) (hσ : σ.Satisfies m.bindings)
    (hm : ∀ g ∈ m.goals, Derivable theory.clauses.toList (g.subst σ)) :
    ∀ g ∈ n.goals, Derivable theory.clauses.toList (g.subst σ) := by
  have hσn := h.satisfies hn hσ
  cases h with
  | unify hunify =>
    have heq := (((Substitution.unify_true hn hunify).2.2 σ).mp hσ).2
    refine List.forall_mem_cons.mpr ⟨?_, hm⟩
    rw [Goal.subst, heq]
    exact .unify _
  | notUnify hunify =>
    refine List.forall_mem_cons.mpr ⟨.notUnify fun θ heq => ?_, hm⟩
    refine Substitution.unify_false hn hunify (Substitution.satisfies_subst hσ θ) ?_
    rwa [← Term.subst_subst, ← Term.subst_subst]
  | not => exact absurd (hgoals _ List.mem_cons_self) (by simp [Goal.isNegation])
  | truth hkey htrue =>
    refine List.forall_mem_cons.mpr ⟨.truth ?_ htrue, hm⟩
    rw [← Substitution.resolve_subst hσ]
    exact Term.functor?_subst hkey
  | @clause _ t _ _ _ _ _ st' c hkey hnone _ htries hunify =>
    have heq := ((Substitution.unify_resolve_true hn hunify σ).mp hσ).2
    rw [Term.rename_subst] at heq
    obtain ⟨hbody, hrest⟩ := List.forall_mem_append.mp hm
    have hkey' : (t.subst σ).functor? = some _ :=
      Substitution.resolve_subst hσn t ▸ Term.functor?_subst hkey
    refine List.forall_mem_cons.mpr ⟨?_, hrest⟩
    refine .clause (fun x => σ (Term.suffixed x st'.copied.copies))
      (mem_of_mem_candidates htries.mem) heq hkey' hnone fun g hg => ?_
    rw [← Goal.rename_subst]
    exact hbody _ (List.mem_map_of_mem hg)

/-- The values at the end of a path make all goals at its start derivable. -/
theorem Reaches.derivable {a : Substitution} (h : Reaches (Next theory maxInferences) n a)
    (hprogram : ∀ c ∈ theory.clauses.toList, WithoutNegation c.body)
    (hgoals : WithoutNegation n.goals) (hn : n.bindings.WellFormed) :
    a.value.Satisfies n.bindings ∧
      ∀ g ∈ n.goals, Derivable theory.clauses.toList (g.subst a.value) := by
  obtain ⟨m, hpath, hm, rfl⟩ := h
  induction hpath using Relation.ReflTransGen.head_induction_on with
  | refl => exact ⟨hn.value_satisfies, by simp [hm]⟩
  | head hstep _ ih =>
    have ⟨hvalue, hderivable⟩ :=
      ih (hstep.withoutNegation hprogram hgoals) (hstep.wellFormed hn).1
    exact ⟨hstep.satisfies hn hvalue, hstep.derivable hn hgoals hvalue hderivable⟩

end Search

/-! ## Reports -/

/-- Members of a part of a list stand in the order of the list. -/
theorem idxOf_lt_of_filter {α : Type} [DecidableEq α] {p : α → Bool} {l : List α} {x y : α}
    (hx : p x) (hy : p y) (h : (l.filter p).idxOf x < (l.filter p).idxOf y) :
    l.idxOf x < l.idxOf y := by
  induction l with
  | nil => exact absurd h (by simp)
  | cons a l ih =>
    by_cases ha : p a
    · rw [List.filter_cons_of_pos ha] at h
      by_cases hay : a = y
      · exact absurd h (by simp [hay])
      by_cases hax : a = x
      · subst hax
        rw [List.idxOf_cons_self, List.idxOf_cons_ne _ hay]
        exact Nat.succ_pos _
      · simp only [List.idxOf_cons_ne _ hax, List.idxOf_cons_ne _ hay] at h ⊢
        exact Nat.succ_lt_succ (ih (Nat.lt_of_succ_lt_succ h))
    · have hax : a ≠ x := fun heq => ha (heq ▸ hx)
      have hay : a ≠ y := fun heq => ha (heq ▸ hy)
      simp only [List.filter_cons, ha] at h
      simp only [List.idxOf_cons_ne _ hax, List.idxOf_cons_ne _ hay]
      exact Nat.succ_lt_succ (ih h)

/-- Induction on a list whose repetitions are removed: of the first member, then of the others. -/
@[elab_as_elim]
theorem eraseDups_induct {α : Type} [DecidableEq α] {motive : List α → Prop} (nil : motive [])
    (cons : ∀ a l, motive (l.filter fun b => !b == a) → motive (a :: l)) (l : List α) :
    motive l := by
  induction hn : l.length using Nat.strong_induction_on generalizing l with
  | _ n ih =>
    cases l with
    | nil => exact nil
    | cons a l =>
      exact cons a l (ih _ (hn ▸ Nat.lt_succ_of_le (List.length_filter_le _ _)) _ rfl)

/-- Removing repetitions keeps the order of first appearance. -/
theorem pairwise_idxOf_eraseDups {α : Type} [DecidableEq α] (l : List α) :
    l.eraseDups.Pairwise fun x y => l.idxOf x < l.idxOf y := by
  induction l using eraseDups_induct with
  | nil => simp
  | cons a l ih =>
    have hne : ∀ x ∈ (l.filter fun b => !b == a).eraseDups, x ≠ a := fun x hx => by
      simpa using (List.mem_filter.mp (List.mem_eraseDups.mp hx)).2
    rw [List.eraseDups_cons, List.pairwise_cons]
    refine ⟨fun x hx => ?_, ih.imp_of_mem fun {x y} hx hy hlt => ?_⟩
    · rw [List.idxOf_cons_self, List.idxOf_cons_ne _ (hne x hx).symm]
      exact Nat.succ_pos _
    · rw [List.idxOf_cons_ne _ (hne x hx).symm, List.idxOf_cons_ne _ (hne y hy).symm]
      exact Nat.succ_lt_succ (idxOf_lt_of_filter (by simp [hne x hx]) (by simp [hne y hy]) hlt)

namespace Query

variable {q : Query} {x : String}

theorem mem_vars : x ∈ q.vars ↔ ∃ g ∈ q.goals, x ∈ g.occurrences := by
  simp [vars]

theorem mem_visibleVars :
    x ∈ q.visibleVars ↔ isVisible x = true ∧ ∃ g ∈ q.goals, x ∈ g.occurrences := by
  rw [visibleVars, List.mem_filter, mem_vars, and_comm]

/-- The visible variables stand in the order in which they first appear. -/
theorem pairwise_visibleVars (q : Query) :
    q.visibleVars.Pairwise fun x y =>
      (q.goals.flatMap Goal.occurrences).idxOf x < (q.goals.flatMap Goal.occurrences).idxOf y :=
  (pairwise_idxOf_eraseDups _).filter _

end Query

/-- A solution gives each of some variables the written form of its value. -/
structure Solution.Reports (names : List String) (a : Substitution) (x : Solution) : Prop where
  names : x.bindings.map Binding.name = names
  values : ∀ b ∈ x.bindings, b.value = (a.resolve (.var b.name)).anonymize.text

theorem Solution.reports_ofAnswer (names : List String) (a : Substitution) :
    (ofAnswer names a).Reports names a where
  names := by simp [ofAnswer, Function.comp_def]
  values b hb := by
    obtain ⟨name, -, rfl⟩ := List.mem_map.mp hb
    rfl

/-- Whatever the bounds, and whether they cut the search short or not: every answer makes all goals
of the query derivable, and the solutions report one answer each, with the values of the visible
variables in the order in which these first appear. -/
theorem Theory.solve_sound (theory : Theory) (bounds : Bounds) (query : Query)
    (hprogram : ∀ c ∈ theory.clauses.toList, WithoutNegation c.body)
    (hquery : WithoutNegation query.goals) :
    let answers := (Search.run theory bounds query).2.answers.reverse
    let occurrences := query.goals.flatMap Goal.occurrences
    (∀ a ∈ answers, ∀ g ∈ query.goals,
      Search.Derivable theory.clauses.toList (g.subst fun x => a.resolve (.var x))) ∧
    List.Forall₂ (Solution.Reports query.visibleVars) answers
      (theory.solve bounds query).solutions ∧
    (∀ x, x ∈ query.visibleVars ↔ Query.isVisible x = true ∧ x ∈ occurrences) ∧
    query.visibleVars.Pairwise fun x y => occurrences.idxOf x < occurrences.idxOf y := by
  refine ⟨?_, ?_, ?_, query.pairwise_visibleVars⟩
  · intro a ha g hg
    have hreach :=
      (Search.mem_answers_iff (n := .start bounds query) rfl).mp (List.mem_reverse.mp ha)
    exact (hreach.derivable hprogram hquery Substitution.wellFormed_empty).2 g hg
  · refine List.forall₂_map_right_iff.mpr (List.forall₂_same.mpr ?_)
    intro a _
    exact Solution.reports_ofAnswer _ _
  · intro x
    rw [Query.mem_visibleVars, List.mem_flatMap]

/-- A recursive program whose search is cut short after its first answer. -/
theorem Theory.solve_sound_path :
    let theory := (Theory.load ["edge(a, b).", "edge(b, a).", "path(X, Y) :- edge(X, Y).",
      "path(X, Z) :- edge(X, Y), path(Y, Z)."]).toOption.getD .empty
    let query := (Query.parse "path(a, X), X \\= b").toOption.getD ⟨[]⟩
    let found := theory.solve { maxSolutions := 1 } query
    let answers := (Search.run theory { maxSolutions := 1 } query).2.answers.reverse
    let occurrences := query.goals.flatMap Goal.occurrences
    (∀ c ∈ theory.clauses.toList, WithoutNegation c.body) ∧ WithoutNegation query.goals ∧
    found.solutions.map Solution.text = ["X = a"] ∧ found.truncated = true ∧
    (∀ a ∈ answers, ∀ g ∈ query.goals,
      Search.Derivable theory.clauses.toList (g.subst fun x => a.resolve (.var x))) ∧
    List.Forall₂ (Solution.Reports query.visibleVars) answers found.solutions ∧
    (∀ x, x ∈ query.visibleVars ↔ Query.isVisible x = true ∧ x ∈ occurrences) ∧
    query.visibleVars.Pairwise fun x y => occurrences.idxOf x < occurrences.idxOf y := by
  intro theory query found answers occurrences
  have hprogram : ∀ c ∈ theory.clauses.toList, WithoutNegation c.body := by decide +kernel
  have hquery : WithoutNegation query.goals := by decide +kernel
  refine ⟨hprogram, hquery, by decide +kernel, by decide +kernel, ?_⟩
  exact Theory.solve_sound theory _ query hprogram hquery

end OntoLogic
