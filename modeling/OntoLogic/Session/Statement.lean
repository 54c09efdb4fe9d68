-- SUMMARY: Statements and questions in prose.
import OntoLogic.Session.Query

/-!
# Statements

A statement in prose is translated by the generation service. The translation of a statement is
asserted when it asserts something, and the translation of a question is put to the engine when it
asks.
-/

namespace OntoLogic.Session

variable {σ γ : Type} [Engine σ] [GenerationService γ]

/-- Translates a statement into clause text. -/
def translate (text : String) (s : Session σ) (env : Environment (Option γ)) :
    Except SessionError Translation × Environment (Option γ) :=
  let text := Text.trim text
  if text.isEmpty then (.error (.invalidInput .emptyStatement), env)
  else if env.service.isNone then (.error (.translation .missingGenerator), env)
  else
    let (result, env) :=
      s.pipeline.translate (Engine.parseCheck · s.checker) text s.ontology.terms env
    (result.mapError .translation, env)

/-- Asserts what a statement says. -/
def assertStatement (text : String) (s : Session σ) (env : Environment (Option γ)) :
    AssertionResult × Session σ × Environment (Option γ) :=
  match s.translate text env with
  | (.error e, env) => (.failed none e, s, env)
  | (.ok t, env) =>
    if t.kind = .query then
      ({ AssertionResult.failed t.content (.notAnAssertion t.content) with translation := t }, s,
        env)
    else
      let (result, s) := s.assert t.content
      ({ result with translation := t }, s, env)

def ask (text : String) (allowFallback : Bool) (s : Session σ) (env : Environment (Option γ)) :
    QueryResult × Session σ × Environment (Option γ) :=
  match s.translate text env with
  | (.error e, env) => (.failed none e, s, env)
  | (.ok t, env) =>
    if t.kind = .query then
      let (result, s, env) := s.query t.content allowFallback env
      ({ result with translation := t }, s, env)
    else
      ({ QueryResult.failed t.content (.notAQuery t.content) with translation := t }, s, env)

end OntoLogic.Session
