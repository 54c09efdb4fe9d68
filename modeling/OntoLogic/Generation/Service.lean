-- SUMMARY: What is asked of a service that generates text.

/-!
# Generation services

A service completes a prompt. It takes the prompt at once and answers after a wait; what it answers
is settled when the wait is over, so a call that is given up does not use up an answer.
-/

namespace OntoLogic

inductive GenerationError where
  /-- The request could not be put together. -/
  | request (reason : String)
  /-- The answer holds no text. -/
  | emptyResponse
  /-- The service failed. -/
  | provider (reason : String)
  deriving Inhabited, DecidableEq

def GenerationError.message : GenerationError → String
  | .request reason => "failed to compose provider request: " ++ reason
  | .emptyResponse => "provider returned an empty response"
  | .provider reason => "provider error: " ++ reason

/-- A generated text and what it cost. -/
structure Generation where
  text : String
  promptTokens : UInt64
  completionTokens : UInt64
  /-- The time the answer took, in microseconds. -/
  latency : Nat
  deriving Inhabited, DecidableEq

/-- A service that generates text. Each operation gives the service after it. -/
class GenerationService (γ : Type) where
  /-- Takes a prompt; the milliseconds until the answer. -/
  request : String → γ → Nat × γ
  /-- The answer to a prompt that was taken. -/
  respond : String → γ → Except GenerationError Generation × γ

/-- A service that may be missing. A missing one has nothing to say. -/
instance {γ : Type} [GenerationService γ] : GenerationService (Option γ) where
  request prompt
    | none => (0, none)
    | some service =>
      let (delay, service) := GenerationService.request prompt service
      (delay, some service)
  respond prompt
    | none => (.error .emptyResponse, none)
    | some service =>
      let (answer, service) := GenerationService.respond prompt service
      (answer, some service)

end OntoLogic
