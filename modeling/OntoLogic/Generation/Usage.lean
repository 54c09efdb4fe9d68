-- SUMMARY: Counting what generated texts cost.
import OntoLogic.Generation.Service

/-!
# Usage

Every successful generation is counted twice, for the session that asked for it and for all sessions
together. Counters have 64 bits and wrap around.
-/

namespace OntoLogic

structure Usage where
  calls : UInt64 := 0
  promptTokens : UInt64 := 0
  completionTokens : UInt64 := 0
  /-- The total latency in milliseconds. -/
  latency : UInt64 := 0
  deriving Inhabited, DecidableEq

namespace Usage

/-- Counts a generation. Its latency is cut to whole milliseconds. -/
def record (u : Usage) (g : Generation) : Usage where
  calls := u.calls + 1
  promptTokens := u.promptTokens + g.promptTokens
  completionTokens := u.completionTokens + g.completionTokens
  latency := u.latency + UInt64.ofNat (min (g.latency / 1000) (UInt64.size - 1))

def add (u v : Usage) : Usage where
  calls := u.calls + v.calls
  promptTokens := u.promptTokens + v.promptTokens
  completionTokens := u.completionTokens + v.completionTokens
  latency := u.latency + v.latency

def totalTokens (u : Usage) : UInt64 :=
  u.promptTokens + u.completionTokens

end Usage

/-- A service whose successful answers are counted. -/
structure Metered (γ : Type) where
  service : γ
  /-- The counters of the session. -/
  session : Usage
  /-- The counters of all sessions. -/
  total : Usage

/-- Counts a generation for the session and for all sessions. -/
def Metered.record {γ : Type} (m : Metered γ) (g : Generation) : Metered γ :=
  { m with session := m.session.record g, total := m.total.record g }

instance {γ : Type} [GenerationService γ] : GenerationService (Metered γ) where
  request prompt m :=
    let (delay, service) := GenerationService.request prompt m.service
    (delay, { m with service })
  respond prompt m :=
    let (answer, service) := GenerationService.respond prompt m.service
    match answer with
    | .ok g => (.ok g, { m with service }.record g)
    | .error e => (.error e, { m with service })

end OntoLogic
