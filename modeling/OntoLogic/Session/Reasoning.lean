-- SUMMARY: Chains of reasoning towards an answer.
import OntoLogic.Session.Query

/-!
# Reasoning

Towards an answer to a task, the generation service chooses one action after another. What comes of
an action is told to the service before it chooses the next. A conclusion ends the chain; so does
the last step that is allowed, without an answer.
-/

namespace OntoLogic

/-! ## Steps -/

structure ReasoningStep where
  /-- The place in the chain; the first step has number one. -/
  index : Nat
  /-- The action, if the service chose one. -/
  action : Option AgentAction
  succeeds : Bool
  /-- What came of the action. -/
  outcome : String
  deriving Inhabited, DecidableEq

/-- A step in one line. -/
def ReasoningStep.text (step : ReasoningStep) : String :=
  "Step " ++ toString step.index ++ ": " ++
    match step.action with
    | none => "no action -> " ++ step.outcome
    | some (.query content) => "query `" ++ content ++ "` -> " ++ step.outcome
    | some (.assert content) => "assert `" ++ content ++ "` -> " ++ step.outcome
    | some (.conclude answer _) => "conclude -> " ++ answer

/-- How a chain of reasoning ends. -/
inductive Conclusion where
  | concluded (answer : String) (explanation : Option String)
  | inconclusive
  deriving Inhabited, DecidableEq

def Conclusion.answer? : Conclusion → Option String
  | .concluded answer _ => answer
  | .inconclusive => none

/-- A chain of reasoning and its end. -/
structure Reasoning where
  conclusion : Conclusion
  steps : List ReasoningStep
  deriving Inhabited, DecidableEq

structure ReasoningChain where
  steps : List ReasoningStep := []
  /-- The solutions of the queries so far. -/
  bindings : List String := []

namespace ReasoningChain

/-- The chain with one more step. -/
def record (action : Option AgentAction) (succeeds : Bool) (outcome : String)
    (chain : ReasoningChain) : ReasoningChain :=
  { chain with steps := chain.steps ++ [⟨chain.steps.length + 1, action, succeeds, outcome⟩] }

/-- What the service is told before the next step. -/
def context (task : String) (terms program : List String) (chain : ReasoningChain) :
    Prompt.AgenticContext where
  task := task
  terms := terms
  program := program
  previousSteps := chain.steps.map ReasoningStep.text
  bindings := "; ".intercalate chain.bindings
  feedback := chain.steps.getLast?.map ReasoningStep.outcome

def recordQuery (content : String) (result : QueryResult) (chain : ReasoningChain) :
    ReasoningChain :=
  let verdict := result.verdict
  let outcome :=
    match verdict.failure with
    | none => "query succeeded: " ++ verdict.bindingsText
    | some failure => "query failed: " ++ failure.message
  let bindings :=
    if verdict.solutions.all (·.bindings.isEmpty) then chain.bindings
    else chain.bindings ++ [verdict.bindingsText]
  { chain with bindings }.record (some (.query content)) verdict.succeeds outcome

def recordAssertion (content : String) (result : AssertionResult) (chain : ReasoningChain) :
    ReasoningChain :=
  let outcome :=
    match result.failure with
    | none => "assertion successful"
    | some failure => "assertion failed: " ++ failure.message
  chain.record (some (.assert content)) result.succeeds outcome

end ReasoningChain

/-! ## Chains -/

namespace Session

variable {σ γ : Type} [Engine σ] [GenerationService γ]

/-- The steps that are left of a chain. -/
def reasonFrom (task : String) :
    (left : Nat) → ReasoningChain → Session σ → Environment (Option γ) →
      Except SessionError Reasoning × Session σ × Environment (Option γ)
  | 0, chain, s, env => (.ok ⟨.inconclusive, chain.steps⟩, s, env)
  | left + 1, chain, s, env =>
    match env.generate (Prompt.agentic (chain.context task s.ontology.terms s.program)) with
    | (none, env) => (.error (.translation .cancelled), s, env)
    | (some answer, env) =>
      match AgentAction.ofAnswer env.messages answer with
      | .error e => reasonFrom task left (chain.record none false e.message) s env
      | .ok (.conclude answer explanation) =>
        let chain := chain.record (some (.conclude answer explanation)) true "concluded"
        (.ok ⟨.concluded answer explanation, chain.steps⟩, s, env)
      | .ok (.query content) =>
        let (result, s, env) := s.query content false env
        reasonFrom task left (chain.recordQuery content result) s env
      | .ok (.assert content) =>
        let (result, s) := s.assert content
        reasonFrom task left (chain.recordAssertion content result) s env

def reason (task : String) (maxSteps : Option Nat) (s : Session σ)
    (env : Environment (Option γ)) :
    Except SessionError Reasoning × Session σ × Environment (Option γ) :=
  let task := Text.trim task
  let maxSteps := maxSteps.getD s.maxReasoningSteps
  if task.isEmpty then (.error (.invalidInput .emptyTask), s, env)
  else if maxSteps = 0 then (.error (.invalidInput .noSteps), s, env)
  else if env.service.isNone then (.error (.translation .missingGenerator), s, env)
  else s.reasonFrom task maxSteps {} env

end Session

end OntoLogic
