-- SUMMARY: The operations of a session as data.
import OntoLogic.Session.Reasoning
import OntoLogic.Session.Statement

/-!
# Operations

Everything that can be asked of a session and that may change it or take time, and what comes of it.
-/

namespace OntoLogic

inductive Operation where
  | assert (clause : String)
  | assertStatement (text : String)
  | addFact (entity type : String)
  | addRelationship (subject relation object : String)
  | addRule (rule : String)
  | retract (clause : String)
  | removeFact (entity type : String)
  | removeRelationship (subject relation object : String)
  | query (text : String) (allowFallback : Bool)
  | ask (text : String) (allowFallback : Bool)
  | reason (task : String) (maxSteps : Option Nat)
  | reload (config : OntologyConfig)
  | load (snapshot : Snapshot)
  | addType (name : String)
  | addRelationshipType (name : String)
  | addConstraint (name : String)
  | addSynonym (name canonical : String)
  | clear
  deriving Inhabited

/-- What comes of an operation. -/
inductive Response where
  | assertion (result : AssertionResult)
  | removal (result : Except SessionError Bool)
  | answer (result : QueryResult)
  | reasoning (result : Except SessionError Reasoning)
  | report (result : Except SessionError Report)
  | done (result : Except SessionError Unit)

def Session.perform {σ γ : Type} [Engine σ] [GenerationService γ] (op : Operation) (s : Session σ)
    (env : Environment (Option γ)) : Response × Session σ × Environment (Option γ) :=
  match op with
  | .assert clause => let (r, s) := s.assert clause; (.assertion r, s, env)
  | .assertStatement text => let (r, s, env) := s.assertStatement text env; (.assertion r, s, env)
  | .addFact entity type => let (r, s) := s.addFact entity type; (.assertion r, s, env)
  | .addRelationship subject relation object =>
    let (r, s) := s.addRelationship subject relation object; (.assertion r, s, env)
  | .addRule rule => let (r, s) := s.addRule rule; (.assertion r, s, env)
  | .retract clause => let (r, s) := s.retract clause; (.removal r, s, env)
  | .removeFact entity type => let (r, s) := s.removeFact entity type; (.removal r, s, env)
  | .removeRelationship subject relation object =>
    let (r, s) := s.removeRelationship subject relation object; (.removal r, s, env)
  | .query text allowFallback =>
    let (r, s, env) := s.query text allowFallback env; (.answer r, s, env)
  | .ask text allowFallback => let (r, s, env) := s.ask text allowFallback env; (.answer r, s, env)
  | .reason task maxSteps => let (r, s, env) := s.reason task maxSteps env; (.reasoning r, s, env)
  | .reload config => let (r, s) := s.reload config; (.report r, s, env)
  | .load snapshot => let (r, s) := s.load snapshot; (.report r, s, env)
  | .addType name => let (r, s) := s.addType name; (.report r, s, env)
  | .addRelationshipType name => let (r, s) := s.addRelationshipType name; (.report r, s, env)
  | .addConstraint name => let (r, s) := s.addConstraint name; (.report r, s, env)
  | .addSynonym name canonical => let (r, s) := s.addSynonym name canonical; (.report r, s, env)
  | .clear => let (r, s) := s.clear; (.done r, s, env)

end OntoLogic
