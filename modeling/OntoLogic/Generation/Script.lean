-- SUMMARY: A generation service that follows a script.
import OntoLogic.Generation.Service
import OntoLogic.Text.Blank

/-!
# Scripted generation

A scripted service answers from a list in order, always alike, or by what the prompt holds. It keeps
the prompts it was given, also those of calls that were given up.
-/

namespace OntoLogic

/-- What a script answers once. -/
abbrev Reply := Except GenerationError String

/-- How a scripted service answers. -/
inductive Script where
  /-- These answers in order; after the last the service fails. -/
  | queue (replies : List Reply)
  /-- Always the same answer. -/
  | always (reply : Reply)
  /-- The answer of the first text that the prompt holds, or another answer. -/
  | rules (cases : List (String × Reply)) (otherwise : Reply)

structure ScriptedGenerator where
  script : Script
  /-- The milliseconds before an answer. Without them an answer comes at once and reports one. -/
  delay : Option Nat
  promptTokens : UInt64
  completionTokens : UInt64
  /-- The prompts so far. -/
  prompts : Array String

namespace ScriptedGenerator

def new (script : Script) (delay : Option Nat) (promptTokens completionTokens : UInt64) :
    ScriptedGenerator where
  script := script
  delay := delay
  promptTokens := promptTokens
  completionTokens := completionTokens
  prompts := #[]

/-- The next reply to a prompt, and the script after it. -/
def next (prompt : String) : Script → Reply × Script
  | .queue [] => (.error (.provider "script exhausted"), .queue [])
  | .queue (reply :: replies) => (reply, .queue replies)
  | .always reply => (reply, .always reply)
  | .rules cases otherwise =>
    let reply := (cases.find? fun rule => Text.holds rule.1.toList prompt.toList).map Prod.snd
    (reply.getD otherwise, .rules cases otherwise)

instance : GenerationService ScriptedGenerator where
  request prompt g := (g.delay.getD 0, { g with prompts := g.prompts.push prompt })
  respond prompt g :=
    let (reply, script) := next prompt g.script
    let answer := reply.map fun text =>
      { text, promptTokens := g.promptTokens, completionTokens := g.completionTokens,
        latency := 1000 * g.delay.getD 1 }
    (answer, { g with script })

end ScriptedGenerator

end OntoLogic
