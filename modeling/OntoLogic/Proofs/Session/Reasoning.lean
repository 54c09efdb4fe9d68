-- SUMMARY: A chain of reasoning takes at most the steps that are allowed and records each of them.
import OntoLogic.Engine.Memory
import OntoLogic.Proofs.Session.Effect
import OntoLogic.Proofs.Translation.Attempts

/-!
# Chains of reasoning

When nothing calls it off, a chain of reasoning is a sequence of turns. In a turn the service is
called once, with a prompt that tells what the turns before have come to, and one step records its
answer. Only the last turn can conclude; a chain that does not conclude takes all the steps that are
allowed. The program gets the clauses of the assertions that succeed, and the ontology stays.
-/

namespace OntoLogic

variable {σ γ : Type} [Engine σ] [GenerationService γ]

/-! ## Steps -/

namespace ReasoningStep

/-- Whether a step ends a chain of reasoning. -/
def concludes (step : ReasoningStep) : Bool :=
  match step.action with
  | some (.conclude ..) => true
  | _ => false

/-- A step records an answer of the service: the action that it chooses, or why there is none. -/
structure Records (step : ReasoningStep) (answer : Except TranslationError AgentAction) : Prop where
  action : step.action = answer.toOption
  failure : ∀ e, answer = .error e → step.succeeds = false ∧ step.outcome = e.message
  told : Text.BeginsPlain step.outcome

end ReasoningStep

/-- A turn of a chain of reasoning: what the service is asked, and the step that its answer leads
to. -/
structure ReasoningTurn where
  prompt : String
  step : ReasoningStep

namespace Session

variable {s : Session σ} {chain : ReasoningChain} {content : String}

variable (messages : JsonMessages)

/-- What the service is told for a turn that comes after others. -/
def turnContext (s : Session σ) (task : String) (before : List ReasoningTurn)
    (bindings : List String) : Prompt.AgenticContext where
  task := task
  terms := s.ontology.terms
  program := s.program ++ before.filterMap (·.step.asserted?)
  previousSteps := before.map (·.step.text)
  bindings := "; ".intercalate bindings
  feedback := before.getLast?.map (·.step.outcome)

/-- A turn of a chain of reasoning comes after others: its prompt shows what they have come to, and
its step records the answer of a service that has been called for them only. -/
structure Follows (s : Session σ) (messages : JsonMessages) (task : String) (g : γ)
    (before : List ReasoningTurn) (t : ReasoningTurn) : Prop where
  index : t.step.index = before.length + 1
  /-- The solutions that are shown are those of successful queries before. -/
  prompt : ∃ bindings,
    (bindings.map ("query succeeded: " ++ ·)).Sublist (before.map (·.step.outcome)) ∧
    t.prompt = String.join (s.turnContext task before bindings).parts
  records : t.step.Records (AgentAction.ofAnswer messages
    (GenerationService.call t.prompt (Pipeline.callAll (before.map (·.prompt)) g)).1)

/-- The turns of a chain of reasoning that starts in a session. None comes after a conclusion. -/
inductive Turns (s : Session σ) (messages : JsonMessages) (task : String) (g : γ) :
    List ReasoningTurn → Prop
  | nil : Turns s messages task g []
  | snoc {before : List ReasoningTurn} {t : ReasoningTurn} : Turns s messages task g before →
    (∀ b ∈ before, b.step.concludes = false) → s.Follows messages task g before t →
    Turns s messages task g (before ++ [t])

omit [Engine σ] in
/-- The outcome of a turn is not blank, so the next turn is told it. -/
theorem Turns.beginsPlain_outcome {messages : JsonMessages} {task : String} {g : γ}
    {turns : List ReasoningTurn} (h : s.Turns messages task g turns) :
    ∀ outcome ∈ turns.getLast?.map (·.step.outcome), Text.BeginsPlain outcome := by
  intro outcome houtcome
  cases h with
  | nil => cases houtcome
  | snoc _ _ hfollows =>
    rw [List.getLast?_concat] at houtcome
    cases houtcome
    exact hfollows.records.told

/-- A chain of reasoning that started in a session has got so far by some turns, and it goes on in
another session. -/
structure Reached (s : Session σ) (messages : JsonMessages) (task : String) (g : γ)
    (turns : List ReasoningTurn) (chain : ReasoningChain) (s' : Session σ) : Prop where
  steps : chain.steps = turns.map (·.step)
  ordered : s.Turns messages task g turns
  continues : ∀ t ∈ turns, t.step.concludes = false
  bindings : (chain.bindings.map ("query succeeded: " ++ ·)).Sublist
    (turns.map (·.step.outcome))
  becomes : s.Becomes (s.program ++ turns.filterMap (·.step.asserted?)) s.ontology s'

namespace Reached

variable {messages : JsonMessages} {task : String} {g : γ} {turns : List ReasoningTurn}
  {s' : Session σ}

omit [Engine σ] in
/-- The prompt for the next step of a chain shows what the turns so far have come to. -/
theorem prompt_eq (h : s.Reached messages task g turns chain s') :
    Prompt.agentic (chain.context task s'.ontology.terms s'.program) =
      String.join (s.turnContext task turns chain.bindings).parts := by
  obtain ⟨engine, rfl⟩ := h.becomes
  have hcontext : chain.context task s.ontology.terms
      (s.program ++ turns.filterMap (·.step.asserted?)) =
      s.turnContext task turns chain.bindings := by
    simp [ReasoningChain.context, turnContext, h.steps, List.map_map, Function.comp_def]
  have hfeedback : Prompt.nonBlank (s.turnContext task turns chain.bindings).feedback =
      (s.turnContext task turns chain.bindings).feedback :=
    Prompt.nonBlank_eq h.ordered.beginsPlain_outcome
  dsimp only
  rw [hcontext, Prompt.agentic_eq, hfeedback]

omit [Engine σ] in
/-- The step after the turns so far is that of a turn which follows them. -/
theorem follows (h : s.Reached messages task g turns chain s') {step : ReasoningStep}
    (hindex : step.index = chain.steps.length + 1)
    (hrecords : step.Records (AgentAction.ofAnswer messages (GenerationService.call
      (Prompt.agentic (chain.context task s'.ontology.terms s'.program))
      (Pipeline.callAll (turns.map (·.prompt)) g)).1)) :
    s.Follows messages task g turns
      ⟨Prompt.agentic (chain.context task s'.ontology.terms s'.program), step⟩ where
  index := by rw [hindex, h.steps, List.length_map]
  prompt := ⟨chain.bindings, h.bindings, h.prompt_eq⟩
  records := hrecords

end Reached

omit [Engine σ] in
theorem Turns.continues {task : String} {g : γ} {turns : List ReasoningTurn}
    (h : s.Turns messages task g turns) : ∀ t ∈ turns.dropLast, t.step.concludes = false := by
  cases h with
  | nil => exact nofun
  | snoc _ hcontinues _ => rwa [List.dropLast_concat]

end Session

end OntoLogic
