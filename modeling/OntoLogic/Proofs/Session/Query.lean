-- SUMMARY: What a proven query of a session says about searches under other bounds.
import OntoLogic.Engine.Memory
import OntoLogic.Generation.Script
import OntoLogic.Proofs.Resolution.Bounds
import OntoLogic.Session.Query

/-!
# Proven queries

A query of a session is proven when the search of the engine has found a solution, whether a bound
has cut the search short or not. A solution can then rest on a negation that was granted only
because its own search was cut short. Apart from such solutions, bounds only lose solutions.
-/

namespace OntoLogic

theorem Verdict.proven_of_confidence {v : Verdict} (h : v.confidence = 100) :
    v = .proven v.solutions := by
  cases v with
  | proven solutions => rfl
  | answered answer => cases h
  | failed failure unavailable => cases h

namespace Session

variable {γ : Type} [GenerationService γ] {s s' : Session MemoryEngine} {input text : String}
  {allowFallback : Bool} {env env' : Environment (Option γ)} {found : Except EngineError Solutions}
  {solutions : List Solution}

omit [GenerationService γ] in
/-- The answer of the engine is the one of its search. -/
theorem engine_solve_of_solve (h : s.solve text env = (some found, s', env')) :
    s.engine.solve text = found := by
  unfold Session.solve at h
  split at h
  · cases h
  · dsimp only [Engine.solve] at h
    split at h
    · exact Option.some.inj (Prod.mk.inj h).1
    · cases h

/-- The generation service proves nothing. -/
theorem fallback_ne_proven : (s.fallback text env).1 ≠ .proven solutions := by
  unfold Session.fallback
  dsimp only
  split
  · exact nofun
  · exact nofun
  · split
    · exact nofun
    · exact nofun

/-- A proven query has the solutions that the engine finds. -/
theorem engine_solve_of_proven
    (h : (s.query input allowFallback env).1.verdict = .proven solutions) :
    ∃ truncated, s.engine.solve (Text.trim input) = .ok ⟨solutions, truncated⟩ := by
  unfold Session.query at h
  dsimp only at h
  split at h
  · cases h
  split at h
  · cases h
  split at h
  · cases h
  · cases h
  · next found s' env' hsolve =>
    split at h
    · cases h
      exact ⟨found.truncated, engine_solve_of_solve hsolve⟩
    split at h
    · exact absurd h fallback_ne_proven
    · cases h

/-- Let a search of a query be cut short by no bound. A solution that is found under other bounds is
found by this search exactly when it is decided under some bounds: when it can be found without
granting a negation whose own search met a bound. Without negations that is so for all solutions.
When a session holds a query for proven, although the search finds no solution, then no solution of
the session is decided under any bounds. -/
theorem solutions_under_bounds {texts : List String} {theory : Theory} {query : Query}
    (bounds bounds' : Bounds) (hload : Theory.load texts = .ok theory)
    (hparse : Query.parse text = .ok query)
    (huncut : (theory.solve bounds' query).truncated = false) :
    (∀ x ∈ (theory.solve bounds query).solutions,
      x ∈ (theory.solve bounds' query).solutions ↔ ∃ c, theory.Decides c query x) ∧
    (∀ x, theory.Decides bounds query x →
      x ∈ (theory.solve bounds query).solutions ∧ x ∈ (theory.solve bounds' query).solutions) ∧
    ((∀ c ∈ theory.clauses.toList, WithoutNegation c.body) → WithoutNegation query.goals →
      ∀ x ∈ (theory.solve bounds query).solutions, x ∈ (theory.solve bounds' query).solutions) ∧
    ∀ (γ : Type) [GenerationService γ] (s : Session MemoryEngine) (input : String)
      (allowFallback : Bool) (env : Environment (Option γ)),
      s.engine = ⟨bounds, theory⟩ → Text.trim input = text →
      (s.query input allowFallback env).1.verdict.confidence = 100 →
      (s.query input allowFallback env).1.verdict.solutions =
        (theory.solve bounds query).solutions ∧
      ((theory.solve bounds' query).solutions = [] →
        ∀ x ∈ (s.query input allowFallback env).1.verdict.solutions,
          ∀ c, ¬theory.Decides c query x) := by
  have hiff : ∀ x, x ∈ (theory.solve bounds' query).solutions ↔ ∃ c, theory.Decides c query x :=
    fun x => Theory.mem_solutions_iff_decides hload hparse huncut
  refine ⟨fun x _ => hiff x, fun x hx => ⟨hx.mem_solutions, (hiff x).mpr ⟨bounds, hx⟩⟩, ?_, ?_⟩
  · intro hprogram hquery x hx
    exact (hiff x).mpr ⟨bounds, Theory.decides_of_withoutNegation hprogram hquery hx⟩
  · rintro γ _ s input allowFallback env hengine rfl hconfidence
    obtain ⟨truncated, hsolve⟩ := engine_solve_of_proven (Verdict.proven_of_confidence hconfidence)
    simp only [hengine, MemoryEngine.solve, hparse, Except.ok.injEq] at hsolve
    refine ⟨by rw [hsolve], ?_⟩
    intro hnone x _ c hx
    exact absurd (hnone ▸ (hiff x).mpr ⟨c, hx⟩) List.not_mem_nil

/-- A negation that is decided within a depth of two, in a search that its first solution ends. -/
theorem solutions_under_bounds_polly :
    let texts := ["bird(X) :- canary(X).", "canary(tweety)."]
    let theory := (Theory.load texts).toOption.getD .empty
    let query := (Query.parse "\\+ bird(polly)").toOption.getD ⟨[]⟩
    let bounds : Bounds := { maxDepth := 2, maxSolutions := 1 }
    Theory.load texts = .ok theory ∧ Query.parse "\\+ bird(polly)" = .ok query ∧
    (theory.solve {} query).truncated = false ∧
    (theory.solve bounds query).solutions.map Solution.text = ["true"] ∧
    (theory.solve bounds query).truncated = true ∧
    (∀ x ∈ (theory.solve bounds query).solutions,
      x ∈ (theory.solve {} query).solutions ↔ ∃ c, theory.Decides c query x) ∧
    (∀ x, theory.Decides bounds query x →
      x ∈ (theory.solve bounds query).solutions ∧ x ∈ (theory.solve {} query).solutions) ∧
    ((∀ c ∈ theory.clauses.toList, WithoutNegation c.body) → WithoutNegation query.goals →
      ∀ x ∈ (theory.solve bounds query).solutions, x ∈ (theory.solve {} query).solutions) ∧
    ∀ (γ : Type) [GenerationService γ] (s : Session MemoryEngine) (input : String)
      (allowFallback : Bool) (env : Environment (Option γ)),
      s.engine = ⟨bounds, theory⟩ → Text.trim input = "\\+ bird(polly)" →
      (s.query input allowFallback env).1.verdict.confidence = 100 →
      (s.query input allowFallback env).1.verdict.solutions =
        (theory.solve bounds query).solutions ∧
      ((theory.solve {} query).solutions = [] →
        ∀ x ∈ (s.query input allowFallback env).1.verdict.solutions,
          ∀ c, ¬theory.Decides c query x) := by
  intro texts theory query bounds
  have hload : Theory.load texts = .ok theory := by rfl
  have hparse : Query.parse "\\+ bird(polly)" = .ok query := by rfl
  have huncut : (theory.solve {} query).truncated = false := by decide +kernel
  exact ⟨hload, hparse, huncut, by decide +kernel, by decide +kernel,
    solutions_under_bounds bounds {} hload hparse huncut⟩

/-- A negation that is granted because a depth of one cuts its search short: the session holds it
for proven, and without a bound the search refutes it. -/
theorem negation_granted_at_bound :
    let texts := ["bird(X) :- canary(X).", "canary(tweety)."]
    let theory := (Theory.load texts).toOption.getD .empty
    let query := (Query.parse "\\+ bird(tweety)").toOption.getD ⟨[]⟩
    let ontology : OntologyConfig := { types := ["bird", "canary"] }
    let session (bounds : Bounds) : Session MemoryEngine :=
      let s := start "s" ⟨[], 1, 0, none⟩ 8 (some ontology) (.new bounds) (.new bounds)
      (s.loadInitial texts).toOption.getD s
    let env : Environment (Option ScriptedGenerator) := ⟨none, 0, none, false, .placeholder⟩
    let confidence (bounds : Bounds) : Nat :=
      ((session bounds).query "\\+ bird(tweety)" false env).1.verdict.confidence
    (theory.solve { maxDepth := 1 } query).solutions.map Solution.text = ["true"] ∧
    (theory.solve {} query).truncated = false ∧ (theory.solve {} query).solutions = [] ∧
    confidence { maxDepth := 1 } = 100 ∧ confidence {} = 0 := by
  decide +kernel

end Session

end OntoLogic
