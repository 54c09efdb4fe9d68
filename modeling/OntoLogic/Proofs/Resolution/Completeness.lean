-- SUMMARY: A search of definite goals that no bound cuts short finds an answer for every derivable instance.
import OntoLogic.Proofs.Resolution.Copies
import OntoLogic.Proofs.Resolution.Index

/-!
# Completeness of uncut searches

Take an assignment that satisfies the bindings at a node of an uncut search and makes all goals at
the node derivable. The way in which the first goal is derived is a step of the search, and with
values for the new copy of a clause the assignment again satisfies the bindings and makes all goals
derivable. The steps come to an end, so the assignment is an instance of an answer.
-/

namespace OntoLogic

/-- A goal that is a call or an equation. -/
def Goal.isDefinite : Goal → Bool
  | .call _ | .unify _ _ => true
  | .not _ | .notUnify _ _ => false

/-- All goals are calls or equations. -/
def Definite (goals : List Goal) : Prop :=
  ∀ g ∈ goals, g.isDefinite = true

instance (goals : List Goal) : Decidable (Definite goals) :=
  inferInstanceAs (Decidable (∀ g ∈ goals, g.isDefinite = true))

namespace Search

variable {texts : List String} {theory : Theory} {maxInferences k : Nat} {n : Node}
  {σ : Assignment} {g : Goal} {l r t : Term} {rest : List Goal} {s : Substitution} {st : State}

theorem isDefinite_rename (k : Nat) (g : Goal) : (g.rename k).isDefinite = g.isDefinite := by
  cases g <;> rfl

/-! ## One step -/

/-- The search steps to a node that an assignment satisfies, with derivable goals, and the values of
the variables so far are kept. -/
def StepsTo (theory : Theory) (maxInferences : Nat) (n : Node) (σ : Assignment) : Prop :=
  ∃ m τ, Next theory maxInferences n m ∧ τ.Satisfies m.bindings ∧ AgreeTo n.state.copies σ τ ∧
    ∀ g ∈ m.goals, Derivable theory.clauses.toList (g.subst τ)

/-- An equation that holds unifies. -/
theorem stepsTo_unify (hvalid : Node.Valid ⟨k + 1, .unify l r :: rest, s, st⟩) (hσ : σ.Satisfies s)
    (hgoal : Derivable theory.clauses.toList (.unify (l.subst σ) (r.subst σ)))
    (hrest : ∀ g ∈ rest, Derivable theory.clauses.toList (g.subst σ)) :
    StepsTo theory maxInferences ⟨k + 1, .unify l r :: rest, s, st⟩ σ := by
  have heq : l.subst σ = r.subst σ := by
    generalize l.subst σ = a, r.subst σ = b at hgoal
    cases hgoal
    rfl
  obtain ⟨s', hunify⟩ := Substitution.exists_unify hvalid.wellFormed hσ heq
  have hσ' := ((Substitution.unify_true hvalid.wellFormed hunify).2.2 σ).mpr ⟨hσ, heq⟩
  exact ⟨_, σ, .unify hunify, hσ', fun _ _ => rfl, hrest⟩

/-- An uncut search enters every clause with an instance of its head that is the value of the call.
The new copy can be given the values of the instance. -/
theorem Node.Uncut.enters {c : Clause} {θ : Assignment} {key : Indicator}
    (hload : Theory.load texts = .ok theory)
    (hn : Node.Uncut theory maxInferences ⟨k + 1, .call t :: rest, s, st⟩)
    (hvalid : Node.Valid ⟨k + 1, .call t :: rest, s, st⟩) (hσ : σ.Satisfies s)
    (hc : c ∈ theory.clauses.toList) (hhead : t.subst σ = c.head.subst θ)
    (hkey : c.head.functor? = some key) (hnone : builtin? key = none) :
    ∃ s' st' τ, Next theory maxInferences ⟨k + 1, .call t :: rest, s, st⟩
        ⟨k, c.body.map (Goal.rename st'.copies) ++ rest, s', st'⟩ ∧
      τ.Satisfies s' ∧ AgreeTo st.copies σ τ ∧ (∀ g ∈ rest, g.subst τ = g.subst σ) ∧
      ∀ g ∈ c.body, (g.rename st'.copies).subst τ = g.subst θ := by
  have hfrom := (Theory.load_cases hload).1 c hc
  have hkey' : (s.resolve t).functor? = some key := by
    rw [← hvalid.functor? σ, hhead, Term.isSome_functor?_subst hfrom.callable, hkey]
  -- The index has the clause under the predicate of the call, which is that of the head.
  have hcandidate : c ∈ theory.candidates key := by
    rw [Theory.candidates_eq_filter hload, List.mem_filter]
    exact ⟨hc, decide_eq_true hkey⟩
  obtain ⟨st', htries⟩ := hn.tries hkey' hnone hcandidate
  obtain ⟨s', τ, hunify, hτ, hagree, hkept, hcopy⟩ :=
    hvalid.enter hfrom htries.copies_le hσ hhead
  exact ⟨s', st'.copied, τ, .clause hkey' hnone (hn.inferences hkey') htries hunify, hτ,
    hagree.mono htries.copies_le, hkept, hcopy⟩

/-- A call that is derivable is true, or an uncut search enters the clause that derives it. -/
theorem stepsTo_call (hload : Theory.load texts = .ok theory)
    (hn : Node.Uncut theory maxInferences ⟨k + 1, .call t :: rest, s, st⟩)
    (hvalid : Node.Valid ⟨k + 1, .call t :: rest, s, st⟩) (hσ : σ.Satisfies s)
    (hgoal : Derivable theory.clauses.toList (.call (t.subst σ)))
    (hrest : ∀ g ∈ rest, Derivable theory.clauses.toList (g.subst σ)) :
    StepsTo theory maxInferences ⟨k + 1, .call t :: rest, s, st⟩ σ := by
  have hfunctor := hvalid.functor? σ
  generalize hinstance : t.subst σ = u at hgoal hfunctor
  cases hgoal with
  | truth hkey htrue =>
    have hkey' := hfunctor.symm.trans hkey
    exact ⟨_, σ, .truth hkey' htrue (hn.inferences hkey'), hσ, fun _ _ => rfl, hrest⟩
  | @clause c _ key θ hc hhead hkey hnone hbody =>
    have hfrom := (Theory.load_cases hload).1 c hc
    rw [hhead, Term.isSome_functor?_subst hfrom.callable] at hkey
    obtain ⟨s', st', τ, hstep, hτ, hagree, hkept, hcopy⟩ :=
      hn.enters hload hvalid hσ hc (hinstance.trans hhead) hkey hnone
    refine ⟨_, τ, hstep, hτ, hagree, ?_⟩
    refine List.forall_mem_append.mpr ⟨fun g hg => ?_, fun g hg => hkept g hg ▸ hrest g hg⟩
    obtain ⟨g', hg', rfl⟩ := List.mem_map.mp hg
    exact hcopy g' hg' ▸ hbody g' hg'

theorem Node.Uncut.stepsTo (hload : Theory.load texts = .ok theory)
    (hn : n.Uncut theory maxInferences) (hvalid : n.Valid) (hdefinite : Definite n.goals)
    (hσ : σ.Satisfies n.bindings)
    (hgoals : ∀ g ∈ n.goals, Derivable theory.clauses.toList (g.subst σ)) (hne : n.goals ≠ []) :
    StepsTo theory maxInferences n σ := by
  obtain ⟨k, goals, s, st⟩ := n
  cases goals with
  | nil => exact absurd rfl hne
  | cons g rest =>
    obtain ⟨k, rfl⟩ := hn.levels
    obtain ⟨hgoal, hrest⟩ := List.forall_mem_cons.mp hgoals
    have hdef : g.isDefinite = true := hdefinite g List.mem_cons_self
    cases g with
    | call t => exact stepsTo_call hload hn hvalid hσ hgoal hrest
    | unify l r => exact stepsTo_unify hvalid hσ hgoal hrest
    | not g => exact absurd hdef (by simp [Goal.isDefinite])
    | notUnify l r => exact absurd hdef (by simp [Goal.isDefinite])

/-! ## Runs -/

/-- An uncut search reaches an answer that covers a given assignment. -/
theorem Node.Uncut.exists_reaches (hload : Theory.load texts = .ok theory)
    (hprogram : ∀ c ∈ theory.clauses.toList, Definite c.body)
    (hn : n.Uncut theory maxInferences) (hvalid : n.Valid) (hdefinite : Definite n.goals)
    (hσ : σ.Satisfies n.bindings)
    (hgoals : ∀ g ∈ n.goals, Derivable theory.clauses.toList (g.subst σ)) :
    ∃ a τ, Reaches (Next theory maxInferences) n a ∧ τ.Satisfies a ∧
      AgreeTo n.state.copies σ τ := by
  induction n using (wellFounded_next theory maxInferences).induction
    generalizing σ with
  | _ n ih =>
    by_cases hne : n.goals = []
    · exact ⟨n.bindings, σ, ⟨n, .refl, hne, rfl⟩, hσ, fun _ _ => rfl⟩
    obtain ⟨m, τ, hstep, hτ, hagree, hm⟩ := hn.stepsTo hload hvalid hdefinite hσ hgoals hne
    have hdefinite' : Definite m.goals :=
      hstep.forall_goals (fun k g hg => (isDefinite_rename k g).trans hg) hprogram hdefinite
    obtain ⟨a, υ, hreach, hυ, hagree'⟩ := ih m hstep (hstep.uncut hn)
      (hstep.valid (Theory.load_cases hload).1 hvalid) hdefinite' hτ hm
    exact ⟨a, υ, hreach.head hstep, hυ, hagree.trans (hagree'.mono hstep.copies_le)⟩

end Search

/-- When no bound cuts the search short, every assignment that makes all goals of the query
derivable is an instance of an answer on the variables of the query. Without solutions there is no
such assignment. -/
theorem Theory.solve_complete {texts : List String} {theory : Theory} {text : String}
    {query : Query} (bounds : Bounds) (hload : Theory.load texts = .ok theory)
    (hparse : Query.parse text = .ok query)
    (hprogram : ∀ c ∈ theory.clauses.toList, Definite c.body) (hquery : Definite query.goals)
    (huncut : (theory.solve bounds query).truncated = false) :
    (∀ σ : Assignment, (∀ g ∈ query.goals, Search.Derivable theory.clauses.toList (g.subst σ)) →
      ∃ a ∈ (Search.run theory bounds query).2.answers, ∃ τ : Assignment,
        ∀ x ∈ query.vars, σ x = (a.resolve (.var x)).subst τ) ∧
    ((theory.solve bounds query).solutions = [] →
      ∀ σ : Assignment,
        ∃ g ∈ query.goals, ¬Search.Derivable theory.clauses.toList (g.subst σ)) := by
  have hcover : ∀ σ : Assignment,
      (∀ g ∈ query.goals, Search.Derivable theory.clauses.toList (g.subst σ)) →
      ∃ a ∈ (Search.run theory bounds query).2.answers, ∃ τ : Assignment,
        ∀ x ∈ query.vars, σ x = (a.resolve (.var x)).subst τ := by
    intro σ hσ
    have hfrom := Query.parse_fromText text query hparse
    obtain ⟨a, τ, hreach, hτ, hagree⟩ :=
      (Search.Node.uncut_start huncut).exists_reaches hload hprogram (Search.Node.valid_start hfrom)
        hquery Substitution.satisfies_empty hσ
    refine ⟨a, hreach.mem_answers, τ, ?_⟩
    intro x hx
    obtain ⟨g, hg, hxg⟩ := Query.mem_vars.mp hx
    rw [Substitution.resolve_subst hτ, Term.subst_var]
    exact hagree x (Search.old_of_isSource ((hfrom g hg).isSource x hxg))
  refine ⟨hcover, ?_⟩
  intro hnone σ
  by_contra hall
  obtain ⟨a, ha, -⟩ := hcover σ fun g hg => by_contra fun hnot => hall ⟨g, hg, hnot⟩
  have hanswers : (Search.run theory bounds query).2.answers = [] := by
    simpa [Theory.solve] using hnone
  exact absurd (hanswers ▸ ha) List.not_mem_nil

/-- A recursive program on a graph without cycles is searched to the end. -/
theorem Theory.solve_complete_path :
    let texts := ["edge(a, b).", "edge(b, c).", "path(X, Y) :- edge(X, Y).",
      "path(X, Z) :- edge(X, Y), path(Y, Z)."]
    let theory := (Theory.load texts).toOption.getD .empty
    let query := (Query.parse "path(a, X), X = Y").toOption.getD ⟨[]⟩
    Theory.load texts = .ok theory ∧ Query.parse "path(a, X), X = Y" = .ok query ∧
    (∀ c ∈ theory.clauses.toList, Definite c.body) ∧ Definite query.goals ∧
    (theory.solve {} query).truncated = false ∧
    (theory.solve {} query).solutions.map Solution.text = ["X = b, Y = b", "X = c, Y = c"] ∧
    (∀ σ : Assignment, (∀ g ∈ query.goals, Search.Derivable theory.clauses.toList (g.subst σ)) →
      ∃ a ∈ (Search.run theory {} query).2.answers, ∃ τ : Assignment,
        ∀ x ∈ query.vars, σ x = (a.resolve (.var x)).subst τ) ∧
    ((theory.solve {} query).solutions = [] →
      ∀ σ : Assignment,
        ∃ g ∈ query.goals, ¬Search.Derivable theory.clauses.toList (g.subst σ)) := by
  intro texts theory query
  have hload : Theory.load texts = .ok theory := by rfl
  have hparse : Query.parse "path(a, X), X = Y" = .ok query := by rfl
  have hprogram : ∀ c ∈ theory.clauses.toList, Definite c.body := by decide +kernel
  have hquery : Definite query.goals := by decide +kernel
  have huncut : (theory.solve {} query).truncated = false := by decide +kernel
  exact ⟨hload, hparse, hprogram, hquery, huncut, by decide +kernel,
    Theory.solve_complete {} hload hparse hprogram hquery huncut⟩

end OntoLogic
