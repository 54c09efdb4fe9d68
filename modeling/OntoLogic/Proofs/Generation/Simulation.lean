-- SUMMARY: Operations know the generation service only by its delays and its answers.
import Mathlib.Data.Option.Basic
import OntoLogic.Session.Operation

/-!
# Services that cannot be told apart

Two services that take prompts with the same delays and give the same answers, now and later, cannot
be told apart by what is done with them. Everything that is built on a service therefore comes to
the same with either, and leaves two services behind that cannot be told apart either.

A relation between the states of two services says which of their states cannot be told apart.
-/

namespace OntoLogic

variable {α σ γ δ : Type} [GenerationService γ] [GenerationService δ]

/-- Related states of two services cannot be told apart by calls. -/
structure GenerationService.Simulation (R : γ → δ → Prop) : Prop where
  request : ∀ (prompt : String) {g : γ} {h : δ}, R g h →
    (request prompt g).1 = (request prompt h).1 ∧ R (request prompt g).2 (request prompt h).2
  respond : ∀ (prompt : String) {g : γ} {h : δ}, R g h →
    (respond prompt g).1 = (respond prompt h).1 ∧ R (respond prompt g).2 (respond prompt h).2

open GenerationService (Simulation)

/-- Related states of two services that may be missing, but only together. -/
structure GenerationService.OptionSimulation (R : Option γ → Option δ → Prop) : Prop extends
    Simulation R where
  isSome : ∀ {g : Option γ} {h : Option δ}, R g h → g.isSome = h.isSome

open GenerationService (OptionSimulation)

/-- A service that is there stays there, and one that is missing stays missing. -/
theorem GenerationService.Simulation.option {R : γ → δ → Prop} (hR : Simulation R)
    (present : Bool) : OptionSimulation fun g h => Option.Rel R g h ∧ g.isSome = present where
  request prompt g h hgh := by
    obtain ⟨hgh, hpresent⟩ := hgh
    cases hgh with
    | some hgh =>
      obtain ⟨hdelay, hafter⟩ := hR.request prompt hgh
      exact ⟨hdelay, .some hafter, hpresent⟩
    | none => exact ⟨rfl, .none, hpresent⟩
  respond prompt g h hgh := by
    obtain ⟨hgh, hpresent⟩ := hgh
    cases hgh with
    | some hgh =>
      obtain ⟨hanswer, hafter⟩ := hR.respond prompt hgh
      exact ⟨hanswer, .some hafter, hpresent⟩
    | none => exact ⟨rfl, .none, hpresent⟩
  isSome hgh := by
    obtain ⟨hgh, -⟩ := hgh
    cases hgh <;> rfl

/-! ## Environments -/

namespace Environment

/-- Two environments differ in services that cannot be told apart, and in nothing else. -/
structure Related (R : γ → δ → Prop) (env : Environment γ) (env' : Environment δ) : Prop where
  service : R env.service env'.service
  now : env.now = env'.now
  deadline : env.deadline = env'.deadline
  calledOff : env.calledOff = env'.calledOff
  messages : env.messages = env'.messages

/-- Two runs come to the same and leave related environments behind. -/
def Agree (R : γ → δ → Prop) (run : α × Environment γ) (run' : α × Environment δ) : Prop :=
  ∃ a env env', run = (a, env) ∧ run' = (a, env') ∧ Related R env env'

variable {R : γ → δ → Prop} {env : Environment γ} {env' : Environment δ}

omit [GenerationService γ] [GenerationService δ] in
theorem Related.agree (h : Related R env env') (a : α) : Agree R (a, env) (a, env') :=
  ⟨a, env, env', rfl, rfl, h⟩

omit [GenerationService γ] [GenerationService δ] in
theorem related_mk {g : γ} {g' : δ} (h : R g g') (now : Nat) (deadline : Option Nat)
    (calledOff : Bool) (messages : JsonMessages) :
    Related R ⟨g, now, deadline, calledOff, messages⟩ ⟨g', now, deadline, calledOff, messages⟩ :=
  ⟨h, rfl, rfl, rfl, rfl⟩

omit [GenerationService γ] [GenerationService δ] in
theorem Related.wait (h : Related R env env') (delay : Nat) :
    Agree R (env.wait delay) (env'.wait delay) := by
  obtain ⟨g, now, deadline, calledOff, messages⟩ := env
  obtain ⟨g', now', deadline', calledOff', messages'⟩ := env'
  obtain ⟨hservice, rfl, rfl, rfl, rfl⟩ := h
  unfold Environment.wait
  dsimp only
  split
  · exact (related_mk hservice ..).agree false
  · split
    · exact (related_mk hservice ..).agree true
    · split
      · exact (related_mk hservice ..).agree true
      · exact (related_mk hservice ..).agree false

theorem Related.generate (hR : Simulation R) (h : Related R env env') (prompt : String) :
    Agree R (env.generate prompt) (env'.generate prompt) := by
  obtain ⟨g, now, deadline, calledOff, messages⟩ := env
  obtain ⟨g', now', deadline', calledOff', messages'⟩ := env'
  obtain ⟨hservice, rfl, rfl, rfl, rfl⟩ := h
  obtain ⟨hdelay, hafter⟩ := hR.request prompt hservice
  unfold Environment.generate
  dsimp only
  split
  · exact (related_mk hservice ..).agree none
  · rw [hdelay]
    have hrelated := related_mk hafter now deadline calledOff messages
    obtain ⟨waited, e, e', hwait, hwait', hrelated⟩ :=
      hrelated.wait (GenerationService.request prompt g').1
    rw [hwait, hwait']
    cases waited with
    | false => exact hrelated.agree none
    | true =>
      obtain ⟨g₁, now₁, deadline₁, calledOff₁, messages₁⟩ := e
      obtain ⟨g₁', now₁', deadline₁', calledOff₁', messages₁'⟩ := e'
      obtain ⟨hservice, rfl, rfl, rfl, rfl⟩ := hrelated
      obtain ⟨hanswer, hafter⟩ := hR.respond prompt hservice
      dsimp only
      rw [hanswer]
      exact (related_mk hafter ..).agree _

omit [GenerationService γ] [GenerationService δ] in
theorem Related.withTimeLimit (h : Related R env env') (limit : Option Nat)
    {run : Environment γ → α × Environment γ} {run' : Environment δ → α × Environment δ}
    (hrun : ∀ {e e'}, Related R e e' → Agree R (run e) (run' e')) :
    Agree R (env.withTimeLimit limit run) (env'.withTimeLimit limit run') := by
  obtain ⟨g, now, deadline, calledOff, messages⟩ := env
  obtain ⟨g', now', deadline', calledOff', messages'⟩ := env'
  obtain ⟨hservice, rfl, rfl, rfl, rfl⟩ := h
  unfold Environment.withTimeLimit
  cases limit with
  | none => exact hrun (related_mk hservice ..)
  | some limit =>
    dsimp only
    obtain ⟨a, e, e', hx, hy, hrelated⟩ := hrun (related_mk hservice now
      (some (min (now + limit) (deadline.getD (now + limit)))) calledOff messages)
    rw [hx, hy]
    dsimp only
    rw [hrelated.calledOff, hrelated.now]
    exact ⟨a, _, _, rfl, rfl, hrelated.service, rfl, rfl, rfl, hrelated.messages⟩

end Environment

open Environment (Related Agree)

/-! ## Translation -/

section Translation

variable {R : γ → δ → Prop} (hR : Simulation R)

include hR

theorem Strategy.translate_related {env : Environment γ} {env' : Environment δ}
    (h : Related R env env') (s : Strategy) (text : String) (terms : List String)
    (feedback : Option String) :
    Agree R (s.translate text terms feedback env) (s.translate text terms feedback env') := by
  unfold Strategy.translate
  cases s.prompt? text terms feedback with
  | none =>
    rw [h.calledOff]
    exact h.agree _
  | some prompt =>
    obtain ⟨answer, e, e', hx, hy, hrelated⟩ := h.generate hR prompt
    dsimp only
    rw [hx, hy, h.messages]
    exact hrelated.agree _

namespace Pipeline

variable (check : String → Bool) (text : String) (terms : List String)

theorem round_related {env : Environment γ} {env' : Environment δ} (h : Related R env env')
    (schedule : List Strategy) (feedback : Option String) :
    Agree R (round check text terms schedule feedback env)
      (round check text terms schedule feedback env') := by
  induction schedule generalizing feedback env env' with
  | nil => exact h.agree _
  | cons s schedule ih =>
    obtain ⟨outcome, e, e', hx, hy, hrelated⟩ :=
      Strategy.translate_related hR h s text terms feedback
    rw [round, round, hx, hy]
    cases outcome with
    | none => exact hrelated.agree _
    | some outcome =>
      dsimp only
      split
      · exact hrelated.agree _
      · exact ih hrelated _

theorem rounds_related (p : Pipeline) {env : Environment γ} {env' : Environment δ}
    (h : Related R env env') (left : Nat) (feedback : Option String) :
    Agree R (p.rounds check text terms left feedback env)
      (p.rounds check text terms left feedback env') := by
  induction left generalizing feedback env env' with
  | zero => exact h.agree _
  | succ left ih =>
    obtain ⟨progress, e, e', hx, hy, hrelated⟩ :=
      round_related hR check text terms h p.strategies feedback
    rw [rounds, rounds, hx, hy]
    cases progress with
    | found t => exact hrelated.agree _
    | calledOff => exact hrelated.agree _
    | rejected feedback =>
      dsimp only
      split
      · exact ih hrelated feedback
      · obtain ⟨waited, e₁, e₁', hwait, hwait', hrelated⟩ := hrelated.wait p.retryDelay
        rw [hwait, hwait']
        cases waited with
        | true => exact ih hrelated feedback
        | false => exact hrelated.agree _

theorem translate_related (p : Pipeline) {env : Environment γ} {env' : Environment δ}
    (h : Related R env env') :
    Agree R (p.translate check text terms env) (p.translate check text terms env') := by
  obtain ⟨progress, e, e', hx, hy, hrelated⟩ := h.withTimeLimit p.timeLimit
    fun {_ _} h => rounds_related hR check text terms p h p.maxAttempts none
  rw [translate, translate, hx, hy]
  exact hrelated.agree _

end Pipeline

end Translation

/-! ## Sessions -/

namespace Session

variable [Engine σ] {R : Option γ → Option δ → Prop} {env : Environment (Option γ)}
  {env' : Environment (Option δ)}

/-- Two runs of a session come to the same, with the same session, and leave related environments
behind. -/
def AgreeOn (R : Option γ → Option δ → Prop) (run : α × Session σ × Environment (Option γ))
    (run' : α × Session σ × Environment (Option δ)) : Prop :=
  ∃ a s env env', run = (a, s, env) ∧ run' = (a, s, env') ∧ Related R env env'

omit [GenerationService γ] [GenerationService δ] [Engine σ] in
theorem agreeOn_mk (h : Related R env env') (a : α) (s : Session σ) :
    AgreeOn R (a, s, env) (a, s, env') :=
  ⟨a, s, env, env', rfl, rfl, h⟩

omit [GenerationService γ] [GenerationService δ] in
theorem solve_related (h : Related R env env') (text : String) (s : Session σ) :
    AgreeOn R (s.solve text env) (s.solve text env') := by
  unfold solve
  rw [h.calledOff]
  split
  · exact agreeOn_mk h _ s
  · obtain ⟨waited, e, e', hx, hy, hrelated⟩ := h.wait (Engine.solve text s.engine).1.delay
    dsimp only
    rw [hx, hy]
    exact agreeOn_mk hrelated _ _

variable (hR : OptionSimulation R)

include hR

theorem fallback_related (h : Related R env env') (text : String) (s : Session σ) :
    Agree R (s.fallback text env) (s.fallback text env') := by
  obtain ⟨answer, e, e', hx, hy, hrelated⟩ :=
    h.generate hR.toSimulation (Prompt.fallback text (Engine.render s.engine))
  unfold fallback
  dsimp only
  rw [hx, hy]
  cases answer with
  | none => exact hrelated.agree _
  | some answer =>
    cases answer with
    | error e => exact hrelated.agree _
    | ok g =>
      dsimp only
      split
      · exact hrelated.agree _
      · exact hrelated.agree _

theorem query_related (h : Related R env env') (text : String) (allowFallback : Bool)
    (s : Session σ) :
    AgreeOn R (s.query text allowFallback env) (s.query text allowFallback env') := by
  unfold query
  dsimp only
  split
  · exact agreeOn_mk h _ s
  · split
    · exact agreeOn_mk h _ s
    · obtain ⟨found, s', e, e', hx, hy, hrelated⟩ := solve_related h (Text.trim text) s
      rw [hx, hy]
      cases found with
      | none => exact agreeOn_mk hrelated _ s'
      | some found =>
        cases found with
        | error error => exact agreeOn_mk hrelated _ s'
        | ok found =>
          dsimp only
          rw [hR.isSome hrelated.service]
          split
          · exact agreeOn_mk hrelated _ s'
          · split
            · obtain ⟨verdict, e₁, e₁', hx, hy, hrelated⟩ :=
                fallback_related hR hrelated (Text.trim text) s'
              rw [hx, hy]
              exact agreeOn_mk hrelated _ s'
            · exact agreeOn_mk hrelated _ s'

theorem translate_related (h : Related R env env') (text : String) (s : Session σ) :
    Agree R (s.translate text env) (s.translate text env') := by
  unfold translate
  dsimp only
  rw [← Option.not_isSome, ← Option.not_isSome, hR.isSome h.service]
  split
  · exact h.agree _
  · split
    · exact h.agree _
    · obtain ⟨result, e, e', hx, hy, hrelated⟩ := Pipeline.translate_related hR.toSimulation
        (Engine.parseCheck · s.checker) (Text.trim text) s.ontology.terms s.pipeline h
      rw [hx, hy]
      exact hrelated.agree _

theorem assertStatement_related (h : Related R env env') (text : String)
    (s : Session σ) :
    AgreeOn R (s.assertStatement text env) (s.assertStatement text env') := by
  obtain ⟨result, e, e', hx, hy, hrelated⟩ := translate_related hR h text s
  unfold assertStatement
  rw [hx, hy]
  cases result with
  | error error => exact agreeOn_mk hrelated _ s
  | ok t =>
    dsimp only
    split
    · exact agreeOn_mk hrelated _ s
    · exact agreeOn_mk hrelated _ _

theorem ask_related (h : Related R env env') (text : String) (allowFallback : Bool)
    (s : Session σ) :
    AgreeOn R (s.ask text allowFallback env) (s.ask text allowFallback env') := by
  obtain ⟨result, e, e', hx, hy, hrelated⟩ := translate_related hR h text s
  unfold ask
  rw [hx, hy]
  cases result with
  | error error => exact agreeOn_mk hrelated _ s
  | ok t =>
    dsimp only
    split
    · obtain ⟨r, s', e₁, e₁', hx, hy, hrelated⟩ :=
        query_related hR hrelated t.content allowFallback s
      rw [hx, hy]
      exact agreeOn_mk hrelated _ s'
    · exact agreeOn_mk hrelated _ s

theorem reasonFrom_related (task : String) (left : Nat) (chain : ReasoningChain) (s : Session σ)
    (h : Related R env env') :
    AgreeOn R (s.reasonFrom task left chain env) (s.reasonFrom task left chain env') := by
  induction left generalizing chain s env env' with
  | zero => exact agreeOn_mk h _ s
  | succ left ih =>
    obtain ⟨answer, e, e', hx, hy, hrelated⟩ :=
      h.generate hR.toSimulation (Prompt.agentic (chain.context task s.ontology.terms s.program))
    rw [reasonFrom, reasonFrom, hx, hy]
    cases answer with
    | none => exact agreeOn_mk hrelated _ s
    | some answer =>
      dsimp only
      rw [hrelated.messages]
      cases AgentAction.ofAnswer e'.messages answer with
      | error error => exact ih _ s hrelated
      | ok action =>
        cases action with
        | conclude a x => exact agreeOn_mk hrelated _ s
        | query content =>
          obtain ⟨r, s', e₁, e₁', hx, hy, hrelated⟩ := query_related hR hrelated content false s
          dsimp only
          rw [hx, hy]
          exact ih _ s' hrelated
        | assert content => exact ih _ _ hrelated

theorem reason_related (h : Related R env env') (task : String)
    (maxSteps : Option Nat) (s : Session σ) :
    AgreeOn R (s.reason task maxSteps env) (s.reason task maxSteps env') := by
  unfold reason
  dsimp only
  rw [← Option.not_isSome, ← Option.not_isSome, hR.isSome h.service]
  split
  · exact agreeOn_mk h _ s
  · split
    · exact agreeOn_mk h _ s
    · split
      · exact agreeOn_mk h _ s
      · exact reasonFrom_related hR _ _ _ s h

/-- With services that cannot be told apart an operation comes to the same, and the services cannot
be told apart afterwards. -/
theorem perform_related (h : Related R env env') (op : Operation) (s : Session σ) :
    AgreeOn R (s.perform op env) (s.perform op env') := by
  cases op with
  | assertStatement text =>
    obtain ⟨r, s', e, e', hx, hy, hrelated⟩ := assertStatement_related hR h text s
    simp only [perform, hx, hy]
    exact agreeOn_mk hrelated _ s'
  | query text allowFallback =>
    obtain ⟨r, s', e, e', hx, hy, hrelated⟩ := query_related hR h text allowFallback s
    simp only [perform, hx, hy]
    exact agreeOn_mk hrelated _ s'
  | ask text allowFallback =>
    obtain ⟨r, s', e, e', hx, hy, hrelated⟩ := ask_related hR h text allowFallback s
    simp only [perform, hx, hy]
    exact agreeOn_mk hrelated _ s'
  | reason task maxSteps =>
    obtain ⟨r, s', e, e', hx, hy, hrelated⟩ := reason_related hR h task maxSteps s
    simp only [perform, hx, hy]
    exact agreeOn_mk hrelated _ s'
  | _ =>
    simp only [perform]
    exact agreeOn_mk h _ _

end Session

end OntoLogic
