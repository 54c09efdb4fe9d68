-- SUMMARY: The kind of a translation is borne out by its text.
import OntoLogic.Engine.Memory
import OntoLogic.Generation.Script
import OntoLogic.Proofs.Syntax.Ending
import OntoLogic.Session.Statement

/-!
# Kinds of translations

A pipeline gives only texts that pass its check, with the kind that their last character tells. When
the check asks for a clause or a query, the kind is borne out by the text, whatever the service
answers and whatever calls the translation off.
-/

namespace OntoLogic

variable {γ : Type} [GenerationService γ] {check : String → Bool} {text : String}
  {terms : List String} {env env' : Environment γ} {t : Translation}

/-! ## What a pipeline gives -/

theorem Strategy.kind_of_ofAnswer {s : Strategy} {messages : JsonMessages}
    {answer : Except GenerationError Generation} (h : s.ofAnswer messages answer = .ok t) :
    t.kind = ClauseKind.ofText t.content := by
  unfold ofAnswer at h
  cases answer with
  | error e => cases h
  | ok g =>
    dsimp only at h
    obtain ⟨content, -, ht⟩ := map_eq_ok.mp h
    rw [← ht]

theorem Strategy.kind_of_translate {s : Strategy} {feedback : Option String}
    (h : s.translate text terms feedback env = (some (.ok t), env')) :
    t.kind = ClauseKind.ofText t.content := by
  unfold Strategy.translate at h
  split at h
  · split at h <;> cases h
  · obtain ⟨hanswer, -⟩ := Prod.mk.inj h
    obtain ⟨answer, -, hanswer⟩ := Option.map_eq_some_iff.mp hanswer
    exact kind_of_ofAnswer hanswer

namespace Pipeline

/-- The texts that a pipeline gives: they pass its check and have the kind that they are taken
for. -/
def Checked (check : String → Bool) (t : Translation) : Prop :=
  check t.content = true ∧ t.kind = ClauseKind.ofText t.content

theorem checked_of_round {schedule : List Strategy} {feedback : Option String}
    (h : round check text terms schedule feedback env = (.found t, env')) : Checked check t := by
  induction schedule generalizing feedback env with
  | nil => cases h
  | cons s schedule ih =>
    unfold round at h
    split at h
    · cases h
    · next outcome env'' htranslate =>
      split at h
      · next t' hfeedback =>
        cases h
        refine ⟨?_, Strategy.kind_of_translate htranslate⟩
        simpa [feedbackOf] using hfeedback
      · exact ih h

theorem checked_of_rounds {p : Pipeline} {left : Nat} {feedback : Option String}
    (h : p.rounds check text terms left feedback env = (.found t, env')) : Checked check t := by
  induction left generalizing feedback env with
  | zero => cases h
  | succ left ih =>
    unfold rounds at h
    split at h
    · split at h
      · exact ih h
      · split at h
        · exact ih h
        · cases h
    · next hround => exact checked_of_round (hround.trans h)

omit [GenerationService γ] in
/-- With or without a time limit, an operation is carried out once. -/
theorem fst_withTimeLimit {α : Type} (limit : Option Nat) (run : Environment γ → α × Environment γ)
    (env : Environment γ) : ∃ env', (env.withTimeLimit limit run).1 = (run env').1 := by
  cases limit with
  | none => exact ⟨env, rfl⟩
  | some limit => exact ⟨_, rfl⟩

theorem checked_of_translate {p : Pipeline}
    (h : (p.translate check text terms env).1 = .ok t) : Checked check t := by
  have hresult {progress : Progress} (h : p.result progress = .ok t) : progress = .found t := by
    cases progress <;> cases h
    rfl
  obtain ⟨env'', hrun⟩ := fst_withTimeLimit p.timeLimit
    (fun env => p.rounds check text terms p.maxAttempts none env) env
  have hfound : (p.rounds check text terms p.maxAttempts none env'').1 = .found t :=
    hrun.symm.trans (hresult h)
  exact checked_of_rounds (Prod.ext hfound rfl)

end Pipeline

/-- What can be read is borne out as the kind that it is taken for, and so is every translation of a
pipeline that checks whether texts can be read, and every translation of a session whose checker is
an engine in memory. -/
theorem kind_borneOut :
    (∀ text, isWellFormed text = true → (ClauseKind.ofText text).BorneOut text) ∧
    (∀ (γ : Type) [GenerationService γ] (p : Pipeline) (statement : String) (terms : List String)
      (env : Environment γ) (t : Translation),
      (p.translate isWellFormed statement terms env).1 = .ok t →
        t.kind = ClauseKind.ofText t.content ∧ t.kind.BorneOut t.content) ∧
    (∀ (γ : Type) [GenerationService γ] (s : Session MemoryEngine) (statement : String)
      (env : Environment (Option γ)) (t : Translation),
      (s.translate statement env).1 = .ok t →
        t.kind = ClauseKind.ofText t.content ∧ t.kind.BorneOut t.content) := by
  have hchecked {t : Translation} (h : Pipeline.Checked isWellFormed t) :
      t.kind = ClauseKind.ofText t.content ∧ t.kind.BorneOut t.content := by
    obtain ⟨hcheck, hkind⟩ := h
    refine ⟨hkind, ?_⟩
    rw [hkind]
    exact ClauseKind.borneOut_ofText hcheck
  refine ⟨fun text h => ClauseKind.borneOut_ofText h, ?_, ?_⟩
  · intro γ _ p statement terms env t h
    exact hchecked (Pipeline.checked_of_translate h)
  · intro γ _ s statement env t h
    revert h
    unfold Session.translate
    dsimp only
    split
    · nofun
    split
    · nofun
    intro h
    have hcheck : (Engine.parseCheck · s.checker) = isWellFormed := rfl
    rw [hcheck] at h
    cases hresult : (s.pipeline.translate isWellFormed (Text.trim statement)
      s.ontology.terms env).1 with
    | error e => simp [hresult, Except.mapError] at h
    | ok t' =>
      simp only [hresult, Except.mapError, Except.ok.injEq] at h
      subst h
      exact hchecked (Pipeline.checked_of_translate hresult)

/-- A rule that a service gives to a pipeline and to a session. -/
theorem kind_borneOut_flies :
    let rule := "flies(X) :- bird(X), \\+ ostrich(X)."
    let g : ScriptedGenerator := .new (.always (.ok rule)) none 0 0
    let p : Pipeline := { strategies := [.direct], maxAttempts := 1 }
    let s : Session MemoryEngine := .start "s" p 8 none (.new {}) (.new {})
    let env : Environment ScriptedGenerator := ⟨g, 0, none, false, .placeholder⟩
    let env' : Environment (Option ScriptedGenerator) := ⟨some g, 0, none, false, .placeholder⟩
    let t : Translation := ⟨.rule, rule, 0, 0, 1000, .direct⟩
    isWellFormed rule = true ∧ (ClauseKind.ofText rule).BorneOut rule ∧
    (p.translate isWellFormed "Birds fly." [] env).1.toOption = some t ∧
    (s.translate "Birds fly." env').1.toOption = some t ∧
    t.kind = ClauseKind.ofText t.content ∧ t.kind.BorneOut t.content := by
  intro rule g p s env env' t
  obtain ⟨htext, hpipeline, hsession⟩ := kind_borneOut
  have hrule : isWellFormed rule = true := by decide +kernel
  have hok {ε : Type} {r : Except ε Translation} (h : r.toOption = some t) : r = .ok t := by
    cases r with
    | error e => cases h
    | ok t' => exact congrArg _ (Option.some.inj h)
  have hp : (p.translate isWellFormed "Birds fly." [] env).1.toOption = some t := by
    decide +kernel
  have hs : (s.translate "Birds fly." env').1.toOption = some t := by decide +kernel
  have hgiven := hpipeline ScriptedGenerator p "Birds fly." [] env t (hok hp)
  have hgiven' := hsession ScriptedGenerator s "Birds fly." env' t (hok hs)
  exact ⟨hrule, htext rule hrule, hp, hs, hgiven.1, hgiven'.2⟩

/-- A conjunction with a period is taken for a fact and is only read as a query; a rule with a
comment after it is taken for a query and is only read as a rule. -/
theorem kind_not_announced :
    let conjunction := "bird(tweety), canary(tweety)."
    let commented := "bird(X) :- canary(X). % all canaries"
    (isWellFormed conjunction = true ∧ ClauseKind.ofText conjunction = .fact ∧
      ∀ c, Clause.parse conjunction ≠ .ok c) ∧
    (isWellFormed commented = true ∧ ClauseKind.ofText commented = .query ∧
      ∀ q, Query.parse commented ≠ .ok q) := by
  intro conjunction commented
  have hclause : (Clause.parse conjunction).isOk = false := by decide +kernel
  have hquery : (Query.parse commented).isOk = false := by decide +kernel
  refine ⟨⟨by decide +kernel, by decide +kernel, ?_⟩, by decide +kernel, by decide +kernel, ?_⟩
  · intro c h
    rw [h] at hclause
    cases hclause
  · intro q h
    rw [h] at hquery
    cases hquery

end OntoLogic
