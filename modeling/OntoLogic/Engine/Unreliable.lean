-- SUMMARY: An engine that fails on plan.
import OntoLogic.Engine.Basic

/-!
# Unreliable engines

An unreliable engine wraps another one and follows a plan: it counts the calls of each kind from
zero and lets some of them fail or wait. A call that fails does nothing else. Such an engine shows
how a session gets on with failures.
-/

namespace OntoLogic

/-- The calls of one kind that fail, by their numbers. -/
structure CallFaults where
  /-- The engine refuses these calls. -/
  backend : List Nat := []
  /-- These calls are not carried out. -/
  task : List Nat := []
  deriving Inhabited

/-- The error of a call, if it fails. The error tells the kind of call and its number. -/
def CallFaults.error? (faults : CallFaults) (call : String) (number : Nat) : Option EngineError :=
  if faults.backend.contains number then some (.backend (call ++ " " ++ toString number))
  else if faults.task.contains number then some (.task (call ++ " " ++ toString number))
  else none

/-- What goes wrong in an engine. -/
structure FaultPlan where
  assertAll : CallFaults := {}
  solve : CallFaults := {}
  clear : CallFaults := {}
  /-- The queries that take an hour, by their numbers. -/
  stalls : List Nat := []
  /-- Whether no text counts as a clause or a query. -/
  rejectsAll : Bool := false
  deriving Inhabited

/-- An engine, the plan of its failures, and the numbers of calls so far. -/
structure UnreliableEngine (σ : Type) where
  engine : σ
  plan : FaultPlan
  assertCalls : Nat := 0
  solveCalls : Nat := 0
  clearCalls : Nat := 0
  deriving Inhabited

namespace UnreliableEngine

variable {σ : Type} [Engine σ]

/-- The milliseconds of a query that stalls. -/
def stallTime : Nat := 3600000

/-- Replaces the theory, unless the call fails. -/
def assertAll (texts : List String) (e : UnreliableEngine σ) :
    Except EngineError Unit × UnreliableEngine σ :=
  let counted := { e with assertCalls := e.assertCalls + 1 }
  match e.plan.assertAll.error? "assert_all" e.assertCalls with
  | some error => (.error error, counted)
  | none =>
    let (result, engine) := Engine.assertAll texts e.engine
    (result, { counted with engine })

/-- Answers a query, unless the call fails; it may stall first. -/
def solve (text : String) (e : UnreliableEngine σ) :
    Delayed (Except EngineError Solutions) × UnreliableEngine σ :=
  let counted := { e with solveCalls := e.solveCalls + 1 }
  let stall := if e.plan.stalls.contains e.solveCalls then stallTime else 0
  match e.plan.solve.error? "solve" e.solveCalls with
  | some error => (⟨stall, .error error⟩, counted)
  | none =>
    let (answer, engine) := Engine.solve text e.engine
    (⟨stall + answer.delay, answer.value⟩, { counted with engine })

def clear (e : UnreliableEngine σ) : Except EngineError Unit × UnreliableEngine σ :=
  let counted := { e with clearCalls := e.clearCalls + 1 }
  match e.plan.clear.error? "clear" e.clearCalls with
  | some error => (.error error, counted)
  | none =>
    let (result, engine) := Engine.clear e.engine
    (result, { counted with engine })

instance : Engine (UnreliableEngine σ) where
  assertAll := assertAll
  solve := solve
  parseCheck text e := !e.plan.rejectsAll && Engine.parseCheck text e.engine
  render e := Engine.render e.engine
  clear := clear

end UnreliableEngine

end OntoLogic
