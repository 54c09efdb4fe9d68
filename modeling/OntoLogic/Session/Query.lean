-- SUMMARY: Queries of a session.
import OntoLogic.Session.Basic

/-!
# Queries

A query is put to the engine. When the engine finds no solution, the generation service may be asked
to answer from the theory instead.
-/

namespace OntoLogic.Session

variable {σ γ : Type} [Engine σ] [GenerationService γ]

def withoutPeriods (text : String) : String :=
  String.ofList (text.toList.reverse.dropWhile (· == '.')).reverse

/-- Whether a text is a rule, with or without its period. -/
def isRuleText (text : String) : Bool :=
  ClauseKind.ofText (withoutPeriods text ++ ".") = .rule

/-- Puts a query to the engine; nothing when the operation is called off first. -/
def solve (text : String) (s : Session σ) (env : Environment (Option γ)) :
    Option (Except EngineError Solutions) × Session σ × Environment (Option γ) :=
  if env.calledOff then (none, s, env)
  else
    let (answer, engine) := Engine.solve text s.engine
    let (waited, env) := env.wait answer.delay
    (if waited then some answer.value else none, { s with engine }, env)

/-- Asks the generation service for the answer to a query that has no solution. -/
def fallback (text : String) (s : Session σ) (env : Environment (Option γ)) :
    Verdict × Environment (Option γ) :=
  let failure := (SessionError.noSolution text).failure
  match env.generate (Prompt.fallback text (Engine.render s.engine)) with
  | (none, env) => (.failed failure (some TranslationError.cancelled.message), env)
  | (some (.error e), env) => (.failed failure (some e.message), env)
  | (some (.ok g), env) =>
    if (Text.trim g.text).isEmpty then (.failed failure (some "empty response"), env)
    else (.answered (Text.trim g.text), env)

def query (text : String) (allowFallback : Bool) (s : Session σ) (env : Environment (Option γ)) :
    QueryResult × Session σ × Environment (Option γ) :=
  let text := Text.trim text
  if text.isEmpty then (.failed none (.invalidInput .emptyQuery), s, env)
  else if isRuleText text then (.failed text (.notAQuery text), s, env)
  else
    match s.solve text env with
    | (none, s, env) => (.failed text (.translation .cancelled), s, env)
    | (some (.error e), s, env) => (.failed text (.engine e), s, env)
    | (some (.ok found), s, env) =>
      if !found.solutions.isEmpty then
        (⟨text, .proven found.solutions, none⟩, s, env)
      else if allowFallback && env.service.isSome then
        let (verdict, env) := s.fallback text env
        (⟨text, verdict, none⟩, s, env)
      else (.failed text (.noSolution text), s, env)

end OntoLogic.Session
