-- SUMMARY: A fact of the program can be asked with its own text and is found.
import OntoLogic.Engine.Memory
import OntoLogic.Proofs.Resolution.Completeness
import OntoLogic.Proofs.Syntax.Ending

/-!
# Asking for a stored fact

The text of a fact is also the text of a query with its head as the only call. The variables of the
query are those of the fact as it was written, and the search unifies the call with a copy of the
head. As a term and its copy have a common instance, they unify whatever variables occur in them,
and as often as they may. Clauses that stand before the fact can only keep the search from coming to
it when they make it meet a bound.
-/

namespace OntoLogic

variable {texts : List String} {theory : Theory} {bounds : Bounds} {text : String} {c : Clause}
  {t : Term} {key : Indicator}

/-- The text of a fact is that of a query. -/
theorem Query.parse_of_fact (hparse : Clause.parse text = .ok c) (hfact : c.body = []) :
    Query.parse text = .ok ⟨[.call c.head]⟩ := by
  obtain ⟨tokens, hscans, hderived⟩ := Clause.parse_iff_scans.mp hparse
  exact Query.parse_iff_scans.mpr ⟨tokens, hscans, hderived.query hfact⟩

namespace Search

/-- The predicates other than these need a clause. -/
theorem builtin?_eq_none (h : key ∉ [("true", 0), ("fail", 0), ("false", 0)]) :
    builtin? key = none := by
  unfold builtin?
  split <;> simp_all

/-- An uncut search for a call finds every fact with an instance of its head that is an instance of
the call: this instance is also one of an answer. -/
theorem exists_answer_of_fact {σ θ : Assignment} (hload : Theory.load texts = .ok theory)
    (huncut : (theory.solve bounds ⟨[.call t]⟩).truncated = false)
    (hquery : (Goal.call t).FromText) (hc : c ∈ theory.clauses.toList) (hfact : c.body = [])
    (hkey : c.head.functor? = some key) (hnone : builtin? key = none)
    (hhead : t.subst σ = c.head.subst θ) :
    ∃ a ∈ (run theory bounds ⟨[.call t]⟩).2.answers, ∃ τ : Assignment,
      t.subst σ = (a.resolve t).subst τ := by
  have hvalid : (Node.start bounds ⟨[.call t]⟩).Valid :=
    Node.valid_start (List.forall_mem_singleton.mpr hquery)
  obtain ⟨s', st', τ, hstep, hτ, hagree, -, -⟩ := (Node.uncut_start huncut).enters hload hvalid
    Substitution.satisfies_empty hc hhead hkey hnone
  -- The copy of the fact has no goals, so the step is to an answer.
  have hreach : Reaches (Next theory bounds.maxInferences) (Node.start bounds ⟨[.call t]⟩) s' :=
    .head hstep ⟨_, .refl, by simp [hfact], rfl⟩
  refine ⟨s', hreach.mem_answers, τ, ?_⟩
  rw [Substitution.resolve_subst hτ]
  exact hagree.term fun x hx => old_of_isSource (hquery.isSource x hx)

end Search

namespace MemoryEngine

variable {e e' : MemoryEngine}

/-- The engine accepts clauses when they load, and then it holds them. -/
theorem assertAll_eq_ok : e.assertAll texts = (.ok (), e') ↔
    ∃ theory, Theory.load texts = .ok theory ∧ e' = { e with theory } := by
  unfold assertAll
  cases Theory.load texts <;> simp [eq_comm]

/-- A fact of a program that the engine accepts, other than one that needs no clause, can be asked
with its own text: the query is the call of its head and has a solution unless a bound is met. -/
theorem solve_stored (hassert : e.assertAll texts = (.ok (), e'))
    (htext : text ∈ texts) (hparse : Clause.parse text = .ok c) (hfact : c.body = [])
    (hkey : ∀ key, c.head.functor? = some key → key ∉ [("true", 0), ("fail", 0), ("false", 0)]) :
    Query.parse text = .ok ⟨[.call c.head]⟩ ∧
    ∃ r, e'.solve text = .ok r ∧ (r.solutions ≠ [] ∨ r.truncated = true) := by
  have hquery := Query.parse_of_fact hparse hfact
  obtain ⟨theory, hload, rfl⟩ := assertAll_eq_ok.mp hassert
  refine ⟨hquery, theory.solve e.bounds ⟨[.call c.head]⟩, by simp [solve, hquery], ?_⟩
  cases htruncated : (theory.solve e.bounds ⟨[.call c.head]⟩).truncated with
  | true => exact .inr rfl
  | false =>
    have hc := Theory.mem_clauses_of_load hload htext hparse
    obtain ⟨key, hfunctor⟩ := Option.isSome_iff_exists.mp
      ((Theory.load_cases hload).1 c hc).callable
    have hfrom := List.forall_mem_singleton.mp (Query.parse_fromText text _ hquery)
    obtain ⟨a, ha, -⟩ := Search.exists_answer_of_fact (σ := .var) (θ := .var) hload htruncated hfrom
      hc hfact hfunctor (Search.builtin?_eq_none (hkey key hfunctor)) rfl
    refine .inl fun hnone => ?_
    have hanswers : (Search.run theory e.bounds ⟨[.call c.head]⟩).2.answers = [] := by
      simpa [Theory.solve] using hnone
    exact absurd (hanswers ▸ ha) List.not_mem_nil

/-- A fact with a variable that occurs twice, an anonymous one and a comment, after a recursive rule
for the same predicate. -/
theorem solve_stored_likes :
    let text := "likes(Z, pair(Z, _)). % and anything"
    let texts := ["likes(X, Y) :- likes(Y, X), \\+ hates(X, Y).", text, "likes(bob, mary)."]
    let e := MemoryEngine.new { maxDepth := 2 }
    let e' := { e with theory := (Theory.load texts).toOption.getD .empty }
    let c := (Clause.parse text).toOption.getD default
    e.assertAll texts = (.ok (), e') ∧ Clause.parse text = .ok c ∧ c.body = [] ∧
    c.head.functor? = some ("likes", 2) ∧
    (e'.solve text).toOption.map (fun r => (r.solutions.map Solution.text, r.truncated)) =
      some (["Z = _"], true) ∧
    Query.parse text = .ok ⟨[.call c.head]⟩ ∧
    ∃ r, e'.solve text = .ok r ∧ (r.solutions ≠ [] ∨ r.truncated = true) := by
  intro text texts e e' c
  have hload := eq_ok_getD (r := Theory.load texts) (by decide +kernel) .empty
  have hassert : e.assertAll texts = (.ok (), e') := assertAll_eq_ok.mpr ⟨_, hload, rfl⟩
  have hparse : Clause.parse text = .ok c := eq_ok_getD (by decide +kernel) _
  have hfact : c.body = [] := by decide +kernel
  have hfunctor : c.head.functor? = some ("likes", 2) := by decide +kernel
  have hkey : ∀ key, c.head.functor? = some key →
      key ∉ [("true", 0), ("fail", 0), ("false", 0)] := by
    rw [hfunctor]
    rintro key ⟨⟩
    decide +kernel
  exact ⟨hassert, hparse, hfact, hfunctor, by decide +kernel,
    solve_stored hassert (by decide +kernel) hparse hfact hkey⟩

end MemoryEngine

end OntoLogic
