-- SUMMARY: Sessions and the operations that change their program or ontology.
import OntoLogic.Ontology.Basic
import OntoLogic.Session.Options
import OntoLogic.Session.Result
import OntoLogic.Session.Snapshot
import OntoLogic.Syntax.Kind

/-!
# Sessions

A session holds a program, an ontology that the clauses of the program keep to, and an engine with
the program as its theory. Every change makes the engine load the whole program again. When the
engine refuses, the session keeps its program and its ontology.
-/

namespace OntoLogic

structure Session (σ : Type) where
  id : String
  /-- The ontology that the session was created with, if any. -/
  initialOntology : Option OntologyConfig
  pipeline : Pipeline
  /-- How many steps a chain of reasoning may have. -/
  maxReasoningSteps : Nat
  /-- An engine that only tells whether texts are well formed. -/
  checker : σ
  /-- The texts of the clauses. -/
  program : List String
  ontology : Ontology
  /-- The engine that answers queries. -/
  engine : σ

/-- Sorts clauses, without blanks at the ends, into those that an ontology allows and those that it
refuses. -/
def Ontology.revalidate (o : Ontology) : List String → Report
  | [] => ⟨[], []⟩
  | text :: texts =>
    let clause := Text.trim text
    let report := o.revalidate texts
    match o.validate clause with
    | .ok _ => { report with kept := clause :: report.kept }
    | .error v =>
      { report with dropped := ⟨clause, (SessionError.ontology v).failure⟩ :: report.dropped }

namespace Session

variable {σ : Type} [Engine σ]

/-! ## Installing programs -/

/-- Makes the engine load the program as it stands. -/
def rebuild (s : Session σ) : Except SessionError Unit × Session σ :=
  let (result, engine) := Engine.assertAll s.program s.engine
  (result.mapError .engine, { s with engine })

/-- Gives a session another ontology and another program, unless the engine refuses the program. -/
def install (ontology : Ontology) (program : List String) (s : Session σ) :
    Except SessionError Unit × Session σ :=
  match Engine.assertAll program s.engine with
  | (.ok (), engine) => (.ok (), { s with ontology, program, engine })
  | (.error e, engine) => (.error (.engine e), { s with engine })

/-- Gives a session another ontology and those of some clauses that the ontology allows. -/
def replace (ontology : Ontology) (candidates : List String) (s : Session σ) :
    Except SessionError Report × Session σ :=
  let report := ontology.revalidate candidates
  let (result, s) := s.install ontology report.kept
  (result.map fun _ => report, s)

/-- A session without a program. -/
def start (id : String) (pipeline : Pipeline) (maxReasoningSteps : Nat)
    (ontology : Option OntologyConfig) (checker engine : σ) : Session σ where
  id := id
  initialOntology := ontology
  pipeline := pipeline
  maxReasoningSteps := maxReasoningSteps
  checker := checker
  program := []
  ontology := Ontology.ofConfig (ontology.getD {})
  engine := engine

/-- Loads the first program of a session. -/
def loadInitial (program : List String) (s : Session σ) : Except SessionError (Session σ) :=
  if program.isEmpty then .ok s
  else
    let (result, s) := s.replace s.ontology program
    result.map fun _ => s

/-! ## Assertions -/

/-- Adds a text without blanks at the ends to the program, if it is a clause that the ontology
allows. It is taken back when the engine refuses the program. -/
def append (text : String) (s : Session σ) : Except SessionError Unit × Session σ :=
  if text.isEmpty then (.error (.invalidInput .emptyClause), s)
  else if ClauseKind.ofText text = .query then (.error (.notAnAssertion text), s)
  else
    match s.ontology.validate text with
    | .error v => (.error (.ontology v), s)
    | .ok _ =>
      match { s with program := s.program ++ [text] }.rebuild with
      | (.ok (), s) => (.ok (), s)
      | (.error e, s) => (.error e, { s with program := s.program.dropLast })

def assert (clause : String) (s : Session σ) : AssertionResult × Session σ :=
  let text := Text.trim clause
  match s.append text with
  | (.ok (), s) => (.asserted text, s)
  | (.error e, s) => (.failed (if text.isEmpty then none else some text) e, s)

/-- The text of the fact that an entity has a type. -/
def factText (entity type : String) : String :=
  Text.trim type ++ "(" ++ Text.trim entity ++ ")."

/-- The text of the fact that a relation holds between a subject and an object. -/
def relationshipText (subject relation object : String) : String :=
  Text.trim relation ++ "(" ++ Text.trim subject ++ ", " ++ Text.trim object ++ ")."

/-- Asserts that an entity has a type. -/
def addFact (entity type : String) (s : Session σ) : AssertionResult × Session σ :=
  s.assert (factText entity type)

/-- Asserts that a relation holds between a subject and an object. -/
def addRelationship (subject relation object : String) (s : Session σ) :
    AssertionResult × Session σ :=
  s.assert (relationshipText subject relation object)

/-- Asserts a rule and nothing else. -/
def addRule (rule : String) (s : Session σ) : AssertionResult × Session σ :=
  let text := Text.trim rule
  if ClauseKind.ofText text = .rule then s.assert text
  else (.failed text (.invalidInput (.notARule text)), s)

/-! ## Retractions -/

/-- Whether two texts are equal or spell the same clause. -/
def sameClause (target existing : String) : Bool :=
  existing == target ||
    match Clause.parse target, Clause.parse existing with
    | .ok c, .ok d => c = d
    | _, _ => false

/-- Removes the first clause that is the same as a given one; whether there is one. The clause is
put back in its place when the engine refuses the program. -/
def retract (clause : String) (s : Session σ) : Except SessionError Bool × Session σ :=
  let target := Text.trim clause
  if target.isEmpty then (.error (.invalidInput .emptyClause), s)
  else
    match s.program.zipIdx.find? fun (existing, _) => sameClause target existing with
    | none => (.ok false, s)
    | some (removed, position) =>
      match { s with program := s.program.eraseIdx position }.rebuild with
      | (.ok (), s) => (.ok true, s)
      | (.error e, s) => (.error e, { s with program := s.program.insertIdx position removed })

def removeFact (entity type : String) (s : Session σ) : Except SessionError Bool × Session σ :=
  s.retract (factText entity type)

def removeRelationship (subject relation object : String) (s : Session σ) :
    Except SessionError Bool × Session σ :=
  s.retract (relationshipText subject relation object)

/-- Removes all clauses and goes back to the ontology that the session was created with. -/
def clear (s : Session σ) : Except SessionError Unit × Session σ :=
  match Engine.clear s.engine with
  | (.ok (), engine) =>
    let ontology := (s.initialOntology.map Ontology.ofConfig).getD s.ontology
    (.ok (), { s with program := [], ontology, engine })
  | (.error e, engine) => (.error (.engine e), { s with engine })

/-! ## Changes of the ontology -/

/-- Replaces the ontology and drops the clauses that it refuses. -/
def reload (config : OntologyConfig) (s : Session σ) : Except SessionError Report × Session σ :=
  s.replace (.ofConfig config) s.program

/-- Replaces the ontology by one with a new name. Nothing is done when the name is not new. -/
def changeOntology (ontology : Ontology) (s : Session σ) :
    Except SessionError Report × Session σ :=
  if ontology = s.ontology then (.ok ⟨s.program, []⟩, s) else s.replace ontology s.program

/-- A legal name without blanks at the ends. -/
def checkName (name : String) : Except SessionError String :=
  let name := Text.trim name
  if isPlainName name then .ok name else .error (.ontology (.invalidName name))

/-- Changes the ontology with a legal name. -/
def changeWith (change : Ontology → String → Ontology) (name : String) (s : Session σ) :
    Except SessionError Report × Session σ :=
  match checkName name with
  | .ok name => s.changeOntology (change s.ontology name)
  | .error e => (.error e, s)

def addType (name : String) (s : Session σ) : Except SessionError Report × Session σ :=
  s.changeWith Ontology.addType name

def addRelationshipType (name : String) (s : Session σ) : Except SessionError Report × Session σ :=
  s.changeWith Ontology.addRelationship name

def addConstraint (name : String) (s : Session σ) : Except SessionError Report × Session σ :=
  s.changeWith Ontology.addConstraint name

/-- Lets a name stand for another one. -/
def addSynonym (name canonical : String) (s : Session σ) :
    Except SessionError Report × Session σ :=
  match checkName name, checkName canonical with
  | .ok name, .ok canonical => s.changeOntology (s.ontology.addSynonym name canonical)
  | .error e, _ | .ok _, .error e => (.error e, s)

/-! ## Saving and loading -/

/-- What is kept of a session. -/
def save (time : Timestamp) (s : Session σ) : Snapshot where
  sessionId := s.id
  program := s.program
  ontology := s.ontology.config
  savedAt := time

/-- Replaces the program and the ontology by what was kept of a session. -/
def load (snapshot : Snapshot) (s : Session σ) : Except SessionError Report × Session σ :=
  s.replace (.ofConfig snapshot.ontology) snapshot.program

end Session

end OntoLogic
