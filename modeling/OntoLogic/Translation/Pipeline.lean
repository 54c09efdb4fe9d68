-- SUMMARY: Translation by several strategies in several rounds.
import OntoLogic.Translation.Strategy

/-!
# Pipelines

A pipeline tries its strategies in order, round after round, until one gives a text that passes a
check. What was wrong with one attempt is told to the next. Between two rounds it pauses. It fails
when all rounds are over, when it is called off, and when its time is up.
-/

namespace OntoLogic

/-- A way to translate statements. -/
structure Pipeline where
  strategies : List Strategy
  /-- How many rounds there are. -/
  maxAttempts : Nat
  /-- The milliseconds between two rounds. -/
  retryDelay : Nat := 0
  /-- The milliseconds after which a translation is called off. -/
  timeLimit : Option Nat := none

namespace Pipeline

/-- How some attempts end. -/
inductive Progress where
  | found (translation : Translation)
  | calledOff
  /-- All attempts failed; what was wrong with the last. -/
  | rejected (feedback : Option String)

/-- What was wrong with an attempt; nothing when it passes the check. -/
def feedbackOf (check : String → Bool) : Except TranslationError Translation → Option String
  | .ok t =>
    if check t.content then none
    else some ("previous output `" ++ t.content ++ "` is not valid Prolog syntax")
  | .error e => some e.message

variable {γ : Type} [GenerationService γ]

def round (check : String → Bool) (text : String) (terms : List String) :
    List Strategy → (feedback : Option String) → Environment γ → Progress × Environment γ
  | [], feedback, env => (.rejected feedback, env)
  | s :: rest, feedback, env =>
    match s.translate text terms feedback env with
    | (none, env) => (.calledOff, env)
    | (some outcome, env) =>
      match outcome, feedbackOf check outcome with
      | .ok t, none => (.found t, env)
      | _, feedback => round check text terms rest feedback env

/-- The rounds that are left. -/
def rounds (p : Pipeline) (check : String → Bool) (text : String) (terms : List String) :
    (left : Nat) → (feedback : Option String) → Environment γ → Progress × Environment γ
  | 0, feedback, env => (.rejected feedback, env)
  | left + 1, feedback, env =>
    match round check text terms p.strategies feedback env with
    | (.rejected feedback, env) =>
      if left = 0 || p.retryDelay = 0 then rounds p check text terms left feedback env
      else
        match env.wait p.retryDelay with
        | (true, env) => rounds p check text terms left feedback env
        | (false, env) => (.calledOff, env)
    | (progress, env) => (progress, env)

/-- The result of a pipeline whose rounds have ended. -/
def result (p : Pipeline) : Progress → Except TranslationError Translation
  | .found t => .ok t
  | .calledOff => .error .cancelled
  | .rejected feedback => .error (.exhausted p.maxAttempts (feedback.getD ""))

def translate (p : Pipeline) (check : String → Bool) (text : String) (terms : List String)
    (env : Environment γ) : Except TranslationError Translation × Environment γ :=
  let (progress, env) := env.withTimeLimit p.timeLimit fun env =>
    p.rounds check text terms p.maxAttempts none env
  (p.result progress, env)

end Pipeline

end OntoLogic
