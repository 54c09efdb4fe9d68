-- SUMMARY: The service, the clock and the deadline of an operation.
import OntoLogic.Translation.Error

/-!
# Environments

An operation that generates text runs in an environment: a service, a clock in milliseconds,
possibly a deadline at which the operation is called off, and the words in which the reader of JSON
reports what it cannot read. Only waiting takes time, so an operation can only be called off while
it waits; after that it neither waits nor generates any more.
-/

namespace OntoLogic

/-- What an operation runs in. -/
structure Environment (γ : Type) where
  service : γ
  /-- The current time. -/
  now : Nat
  /-- The time at which the operation is called off. -/
  deadline : Option Nat
  /-- Whether the operation has been called off. -/
  calledOff : Bool
  messages : JsonMessages := .placeholder

namespace Environment

variable {γ : Type}

/-- Waits; whether the wait was completed. -/
def wait (delay : Nat) (env : Environment γ) : Bool × Environment γ :=
  if env.calledOff then (false, env)
  else
    match env.deadline with
    | none => (true, { env with now := env.now + delay })
    | some deadline =>
      if delay = 0 || env.now + delay < deadline then (true, { env with now := env.now + delay })
      else (false, { env with now := max env.now deadline, calledOff := true })

/-- Has a prompt completed; nothing when the operation is called off first. -/
def generate [GenerationService γ] (prompt : String) (env : Environment γ) :
    Option (Except GenerationError Generation) × Environment γ :=
  if env.calledOff then (none, env)
  else
    let (delay, service) := GenerationService.request prompt env.service
    match wait delay { env with service } with
    | (false, env) => (none, env)
    | (true, env) =>
      let (answer, service) := GenerationService.respond prompt env.service
      (some answer, { env with service })

/-- Runs an operation that is called off after a time of its own. The time limit ends with the
operation; a deadline that was there before stays. -/
def withTimeLimit {α : Type} (limit : Option Nat) (run : Environment γ → α × Environment γ)
    (env : Environment γ) : α × Environment γ :=
  match limit with
  | none => run env
  | some limit =>
    let own := env.now + limit
    let (result, after) := run { env with deadline := some (min own (env.deadline.getD own)) }
    let reached := after.calledOff && env.deadline.any (· ≤ after.now)
    (result, { after with deadline := env.deadline, calledOff := env.calledOff || reached })

end Environment

end OntoLogic
