-- SUMMARY: The manager of all sessions.
import OntoLogic.Generation.Cancellation
import OntoLogic.Generation.Usage
import OntoLogic.Session.Operation

/-!
# Managers

A manager creates sessions, finds them by their ids, and counts what they cost. It does not keep
sessions alive: a session that its caller has dropped is found no more. Every session has a token
by which its pending operations are called off, a child of the token of the manager. After the
manager has been shut down it creates no sessions, and no session waits or generates any more.
-/

namespace OntoLogic

/-- Why a manager cannot be set up or cannot create a session. -/
inductive ManagerError where
  | config (error : ConfigError)
  | session (error : SessionError)
  deriving Inhabited

def ManagerError.kind : ManagerError → FailureKind
  | .config _ => .configuration
  | .session e => e.kind

/-- A session and what the manager knows of it. -/
structure ManagedSession (σ : Type) where
  session : Session σ
  /-- The token that the operations of the session watch. -/
  cancel : CancellationToken
  /-- What the session has cost. -/
  usage : Usage := {}
  /-- Whether the session is found by its id. -/
  isRegistered : Bool := true
  /-- Whether the caller still holds the session. -/
  isHeld : Bool := true

/-- A session that its caller has dropped is not registered any more. -/
def ManagedSession.prune {σ : Type} (e : ManagedSession σ) : ManagedSession σ :=
  { e with isRegistered := e.isRegistered && e.isHeld }

/-- A manager of sessions with a generation service and engines. -/
structure Manager (γ σ : Type) where
  settings : Settings
  /-- The generation service that all sessions share, if there is one. -/
  generator : Option γ
  /-- The engine that a new session starts with. -/
  newEngine : σ
  /-- What all sessions together have cost. -/
  usage : Usage := {}
  /-- All sessions so far, the oldest first. -/
  sessions : List (ManagedSession σ) := []
  /-- The token that is cancelled when the manager is shut down. -/
  shutdown : CancellationToken
  cancellations : Cancellations
  /-- How the reader of JSON reports what it cannot read. -/
  messages : JsonMessages := .placeholder

/-- What disturbs an operation, and after how many milliseconds. -/
inductive Disturbance where
  /-- The pending operations of the session are called off. -/
  | cancel (time : Nat)
  /-- The manager is shut down. -/
  | shutDown (time : Nat)
  deriving Inhabited, DecidableEq

def Disturbance.time : Disturbance → Nat
  | .cancel time | .shutDown time => time

namespace Manager

variable {γ σ : Type}

def new (settings : Settings) (generator : Option γ) (newEngine : σ)
    (messages : JsonMessages := .placeholder) : Except ConfigError (Manager γ σ) := do
  settings.validate
  let _ ← settings.checkGenerator
  let (shutdown, cancellations) := Cancellations.make {}
  return { settings, generator, newEngine, shutdown, cancellations, messages }

def isShutDown (m : Manager γ σ) : Bool :=
  m.cancellations.isCancelled m.shutdown

/-! ## Finding sessions -/

/-- The session with an id, whether or not it is registered. -/
def session? (id : String) (m : Manager γ σ) : Option (ManagedSession σ) :=
  m.sessions.find? (·.session.id == id)

/-- The manager with another state of the session with an id. -/
def update (id : String) (change : ManagedSession σ → ManagedSession σ) (m : Manager γ σ) :
    Manager γ σ :=
  { m with sessions := m.sessions.map fun e => if e.session.id = id then change e else e }

/-- Whether a registered session with an id is alive. A dead one is forgotten. -/
def lookup (id : String) (m : Manager γ σ) : Bool × Manager γ σ :=
  ((m.session? id).any (·.prune.isRegistered), m.update id ManagedSession.prune)

/-- The ids of the registered sessions that are alive. Dead ones are forgotten. -/
def ids (m : Manager γ σ) : List String × Manager γ σ :=
  let sessions := m.sessions.map ManagedSession.prune
  ((sessions.filter (·.isRegistered)).map (·.session.id), { m with sessions })

def drop (id : String) (m : Manager γ σ) : Manager γ σ :=
  m.update id fun e => { e with isHeld := false }

/-- Calls off the pending operations of a session. Later operations watch another token. -/
def cancelPending (id : String) (m : Manager γ σ) : Manager γ σ :=
  match m.session? id with
  | none => m
  | some e =>
    let (cancel, cancellations) := (m.cancellations.cancel e.cancel).child m.shutdown
    { m with cancellations }.update id fun e => { e with cancel }

/-- Takes a session off the register and calls off what is pending, if its caller still holds it;
whether the session was on the register. -/
def release (id : String) (m : Manager γ σ) : Bool × Manager γ σ :=
  match m.session? id with
  | none => (false, m)
  | some e =>
    if e.isRegistered then
      let m := if e.isHeld then m.cancelPending id else m
      (true, m.update id fun e => { e with isRegistered := false })
    else (false, m)

/-- Calls all operations off and forgets all sessions. -/
def shutDown (m : Manager γ σ) : Manager γ σ :=
  { m with
    cancellations := m.cancellations.cancel m.shutdown
    sessions := m.sessions.map fun e => { e with isRegistered := false } }

/-! ## Sessions -/

variable [Engine σ]

/-- A session with an id and options, before it is registered. -/
def makeSession (id : String) (options : SessionOptions) (m : Manager γ σ) :
    Except ManagerError (Session σ) := do
  if m.isShutDown then
    throw (.session (.invalidInput .shutDown))
  let settings := options.translationSettings m.settings.translation
  let pipeline ← settings.toPipeline.mapError .config
  let maxReasoningSteps := options.maxReasoningSteps.getD m.settings.maxReasoningSteps
  if maxReasoningSteps = 0 then
    throw (.config (.invalid [⟨"max_reasoning_steps", "range"⟩]))
  let session :=
    Session.start id pipeline maxReasoningSteps options.ontology m.newEngine m.newEngine
  (session.loadInitial options.program).mapError .session

/-- Creates a session with an id that no other session has. -/
def create (id : String) (options : SessionOptions) (m : Manager γ σ) :
    Except ManagerError (Session σ) × Manager γ σ :=
  match m.makeSession id options with
  | .ok session =>
    let (cancel, cancellations) := m.cancellations.child m.shutdown
    (.ok session, { m with cancellations, sessions := m.sessions ++ [{ session, cancel }] })
  | .error e => (.error e, m)

/-- What an operation of a session runs in. Time starts with the operation. -/
def environment (e : ManagedSession σ) (disturbance : Option Disturbance) (m : Manager γ σ) :
    Environment (Option (Metered γ)) where
  service := m.generator.map fun service => ⟨service, e.usage, m.usage⟩
  now := 0
  deadline := disturbance.map Disturbance.time
  calledOff := m.cancellations.isCancelled e.cancel
  messages := m.messages

/-- The manager after an operation that has left a session and a service behind. -/
def settle (session : Session σ) (service : Option (Metered γ)) (m : Manager γ σ) : Manager γ σ :=
  match service with
  | none => m.update session.id fun e => { e with session }
  | some metered =>
    { m.update session.id fun e => { e with session, usage := metered.session } with
      generator := metered.service, usage := metered.total }

/-- Carries out an operation of the session with an id, perhaps disturbed; what comes of it, and the
milliseconds until the operation and the disturbance are over. -/
def perform [GenerationService γ] (id : String) (op : Operation)
    (disturbance : Option Disturbance) (m : Manager γ σ) :
    Option (Response × Nat) × Manager γ σ :=
  match m.session? id with
  | none => (none, m)
  | some e =>
    let (response, session, env) := e.session.perform op (m.environment e disturbance)
    let m := m.settle session env.service
    match disturbance with
    | none => (some (response, env.now), m)
    | some (.cancel time) => (some (response, max env.now time), m.cancelPending id)
    | some (.shutDown time) => (some (response, max env.now time), m.shutDown)

end Manager

end OntoLogic
