-- SUMMARY: An operation that is called off before it begins does nothing but say so.
import OntoLogic.Proofs.Session.Effect
import OntoLogic.Proofs.Session.Error

/-!
# Operations that are called off

Four operations may call the generation service: to assert a statement, to answer a query or a
question, and to reason. When they are called off before they begin, they check their input and then
report that they have been called off. They change neither the session nor the service, and take no
time.
-/

namespace OntoLogic

variable {σ γ : Type} [GenerationService γ]

/-! ## Translation -/

theorem Environment.generate_calledOff {env : Environment γ} (h : env.calledOff = true)
    (prompt : String) : env.generate prompt = (none, env) :=
  if_pos h

theorem Strategy.translate_calledOff {env : Environment γ} (h : env.calledOff = true)
    (s : Strategy) (text : String) (terms : List String) (feedback : Option String) :
    s.translate text terms feedback env = (none, env) := by
  unfold Strategy.translate
  cases s.prompt? text terms feedback with
  | none => simp [h]
  | some prompt => simp [Environment.generate_calledOff h]

namespace Pipeline

/-- A pipeline has strategies and rounds. -/
def CanTranslate (p : Pipeline) : Prop :=
  p.strategies ≠ [] ∧ p.maxAttempts ≠ 0

variable {p : Pipeline} (check : String → Bool) (text : String) (terms : List String)

theorem rounds_of_calledOff (hp : p.CanTranslate) {env : Environment γ}
    (h : env.calledOff = true) :
    p.rounds check text terms p.maxAttempts none env = (.calledOff, env) := by
  obtain ⟨s, schedule, hstrategies⟩ := List.exists_cons_of_ne_nil hp.1
  obtain ⟨left, hleft⟩ := Nat.exists_eq_succ_of_ne_zero hp.2
  rw [hleft, rounds, hstrategies, round, Strategy.translate_calledOff h]

/-- The time limit of a pipeline begins after it has been called off and changes nothing. -/
theorem translate_calledOff (hp : p.CanTranslate) {env : Environment γ}
    (h : env.calledOff = true) :
    p.translate check text terms env = (.error .cancelled, env) := by
  obtain ⟨g, now, deadline, calledOff⟩ := env
  obtain rfl : calledOff = true := h
  unfold translate Environment.withTimeLimit
  cases p.timeLimit with
  | none => simp only [rounds_of_calledOff check text terms hp, result]
  | some limit => simp only [rounds_of_calledOff check text terms hp, result, Bool.true_or]

end Pipeline

/-! ## Operations -/

/-- What an operation that generates text reports when it is called off. -/
def Operation.cancelled? : Operation → Option Response
  | .assertStatement _ => some (.assertion (.failed none (.translation .cancelled)))
  | .query text _ => some (.answer (.failed (Text.trim text) (.translation .cancelled)))
  | .ask .. => some (.answer (.failed none (.translation .cancelled)))
  | .reason .. => some (.reasoning (.error (.translation .cancelled)))
  | _ => none

/-- What went wrong, as a response reports it. -/
def Response.failure? : Response → Option Failure
  | .assertion r => r.failure
  | .answer r => r.verdict.failure
  | .reasoning (.error e) | .removal (.error e) | .report (.error e) | .done (.error e) => e.failure
  | .reasoning (.ok _) | .removal (.ok _) | .report (.ok _) | .done (.ok _) => none

theorem Operation.failure?_of_cancelled? {op : Operation} {response : Response}
    (h : op.cancelled? = some response) :
    response.failure? = some ⟨.cancelled, "translation was cancelled", []⟩ := by
  have hfailure : (SessionError.translation .cancelled).failure = _ :=
    (SessionError.reported_iff.mp .cancelled).symm
  rw [← hfailure]
  cases op <;> cases h <;> rfl

namespace Session

variable [Engine σ]

/-- A session takes an operation that generates text: the text is not blank, a query is no rule, a
chain of reasoning may have a step, and there is a service if one is needed. -/
def Takes (s : Session σ) (hasService : Bool) : Operation → Prop
  | .assertStatement text | .ask text _ => Text.trim text ≠ "" ∧ hasService = true
  | .query text _ => Text.trim text ≠ "" ∧ isRuleText (Text.trim text) = false
  | .reason task maxSteps =>
    Text.trim task ≠ "" ∧ maxSteps.getD s.maxReasoningSteps ≠ 0 ∧ hasService = true
  | _ => True

variable {s : Session σ} {env : Environment (Option γ)}

theorem translate_calledOff (hp : s.pipeline.CanTranslate) (h : env.calledOff = true)
    (text : String) :
    ∃ e, s.translate text env = (.error e, env) ∧
      (Text.trim text ≠ "" → env.service.isSome = true → e = .translation .cancelled) := by
  unfold translate
  dsimp only
  split
  · next hempty => exact ⟨_, rfl, fun hne => absurd (String.isEmpty_iff.mp hempty) hne⟩
  · split
    · next hnone =>
      refine ⟨_, rfl, fun _ hsome => ?_⟩
      rw [Option.isNone_iff_eq_none.mp hnone] at hsome
      cases hsome
    · rw [Pipeline.translate_calledOff _ _ _ hp h]
      exact ⟨_, rfl, fun _ _ => rfl⟩

theorem query_calledOff (h : env.calledOff = true) (text : String) (allowFallback : Bool) :
    (s.query text allowFallback env).2 = (s, env) ∧
      (Text.trim text ≠ "" → isRuleText (Text.trim text) = false →
        (s.query text allowFallback env).1 =
          .failed (Text.trim text) (.translation .cancelled)) := by
  have hsolve : s.solve (Text.trim text) env = (none, s, env) := if_pos h
  unfold query
  dsimp only
  split
  · next hempty => exact ⟨rfl, fun hne => absurd (String.isEmpty_iff.mp hempty) hne⟩
  · split
    · next hrule => exact ⟨rfl, fun _ hquery => by simp [hquery] at hrule⟩
    · rw [hsolve]
      exact ⟨rfl, fun _ _ => rfl⟩

theorem reason_calledOff (h : env.calledOff = true) (task : String) (maxSteps : Option Nat) :
    (s.reason task maxSteps env).2 = (s, env) ∧
      (s.Takes env.service.isSome (.reason task maxSteps) →
        (s.reason task maxSteps env).1 = .error (.translation .cancelled)) := by
  unfold reason
  dsimp only
  split
  · next hempty => exact ⟨rfl, fun htakes => absurd (String.isEmpty_iff.mp hempty) htakes.1⟩
  · split
    · next hsteps => exact ⟨rfl, fun htakes => absurd hsteps htakes.2.1⟩
    · next hsteps =>
      split
      · next hnone =>
        refine ⟨rfl, fun htakes => ?_⟩
        have hsome := htakes.2.2
        rw [Option.isNone_iff_eq_none.mp hnone] at hsome
        cases hsome
      · obtain ⟨left, hleft⟩ := Nat.exists_eq_succ_of_ne_zero hsteps
        rw [hleft, reasonFrom, Environment.generate_calledOff h]
        exact ⟨rfl, fun _ => rfl⟩

/-- An operation that is called off before it begins leaves the session and the service alone, and
reports that it has been called off unless its input is refused. -/
theorem perform_calledOff {op : Operation} {response : Response}
    (hop : op.cancelled? = some response) (hp : s.pipeline.CanTranslate)
    (h : env.calledOff = true) :
    (s.perform op env).2 = (s, env) ∧
      (s.Takes env.service.isSome op → (s.perform op env).1 = response) := by
  cases op with
  | assertStatement text =>
    cases hop
    obtain ⟨e, htranslate, hcancelled⟩ := translate_calledOff hp h text
    rw [perform_assertStatement, assertStatement, htranslate]
    exact ⟨rfl, fun htakes => by rw [hcancelled htakes.1 htakes.2]⟩
  | query text allowFallback =>
    cases hop
    obtain ⟨hsame, hcancelled⟩ := query_calledOff (s := s) h text allowFallback
    rw [perform_query]
    generalize s.query text allowFallback env = run at hsame hcancelled
    exact ⟨hsame, fun htakes => by rw [hcancelled htakes.1 htakes.2]⟩
  | ask text allowFallback =>
    cases hop
    obtain ⟨e, htranslate, hcancelled⟩ := translate_calledOff hp h text
    rw [perform_ask, ask, htranslate]
    exact ⟨rfl, fun htakes => by rw [hcancelled htakes.1 htakes.2]⟩
  | reason task maxSteps =>
    cases hop
    obtain ⟨hsame, hcancelled⟩ := reason_calledOff (s := s) h task maxSteps
    rw [perform_reason]
    generalize s.reason task maxSteps env = run at hsame hcancelled
    exact ⟨hsame, fun htakes => by rw [hcancelled htakes]⟩
  | _ => cases hop

/-- Any other operation leaves the service alone, whether or not it is called off. -/
theorem perform_env_of_direct {op : Operation} (hop : op.cancelled? = none) :
    (s.perform op env).2.2 = env := by
  cases op with
  | assertStatement text => cases hop
  | query text allowFallback => cases hop
  | ask text allowFallback => cases hop
  | reason task maxSteps => cases hop
  | _ => simp only [perform]

end Session

end OntoLogic
