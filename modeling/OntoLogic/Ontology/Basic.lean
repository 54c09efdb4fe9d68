-- SUMMARY: Ontologies and the clauses they allow.
import OntoLogic.Ontology.Config
import OntoLogic.Ontology.PredicateName
import OntoLogic.Ontology.Violation
import OntoLogic.Syntax.Parser

/-!
# Ontologies

An ontology is the vocabulary of a program: types, which have one argument, relationships, which
have two or more, constraints, and synonyms, each mapped onto the name it stands for.

A fact may use a predicate when its name, after one synonym step, is legal, fits the arity of the
types and relationships it is among, and is defined. A rule head may use a relationship with fewer
arguments, to derive a property of one thing. The goals of a body must call defined predicates or
negate such calls; nothing is asked of their arity.
-/

namespace OntoLogic

structure Ontology where
  types : NameSet
  relationships : NameSet
  constraints : NameSet
  synonyms : NameMap String
  deriving Inhabited, DecidableEq

namespace Ontology

def empty : Ontology := ⟨∅, ∅, ∅, ∅⟩

def ofConfig (config : OntologyConfig) : Ontology where
  types := .ofList config.types
  relationships := .ofList config.relationships
  constraints := .ofList config.constraints
  synonyms := config.synonyms

/-- The description of an ontology: names in ascending order, each once. -/
def config (o : Ontology) : OntologyConfig where
  types := o.types.toList
  relationships := o.relationships.toList
  constraints := o.constraints.toList
  synonyms := o.synonyms

/-! ## Names -/

/-- What a synonym stands for; any other name stands for itself. -/
def canonical (o : Ontology) (name : String) : String :=
  (o.synonyms.get? name).getD name

/-- Whether a name is a type or a relationship, or a synonym of one. -/
def isDefined (o : Ontology) (name : String) : Bool :=
  o.types.contains (o.canonical name) || o.relationships.contains (o.canonical name)

/-- Types, then relationships, then synonyms, each name once. -/
def terms (o : Ontology) : List String :=
  (o.types.toList ++ o.relationships.toList ++ o.synonyms.keys).eraseDups

/-- Whether two names are alike: one starts with the first three characters of the other, or holds
all of it. -/
def isSimilar (name term : String) : Bool :=
  Text.startsWith (name.toList.take 3) term.toList || Text.holds name.toList term.toList

def similarTerms (o : Ontology) (name : String) : List String :=
  o.terms.filter (isSimilar name)

/-- A hint at the terms that are like a name. -/
def suggest (o : Ontology) (name : String) : String :=
  Violation.suggestionText (o.similarTerms name)

/-- The violation of using an unknown predicate. -/
def unknown (o : Ontology) (predicate : String) : Violation :=
  .undefinedPredicate predicate (o.similarTerms predicate)

/-! ## Checking predicates, goals and clauses -/

/-- Checks a predicate of a fact, or of a rule head when `isFact` does not hold. -/
def checkPredicate (o : Ontology) (isFact : Bool) (predicate : String) (arity : Nat) :
    Except Violation Unit :=
  let name := o.canonical predicate
  if !isPlainName name then .error (.invalidName name)
  else if o.types.contains name && arity != 1 then .error (.arity name (.exactly 1) arity)
  else if isFact && o.relationships.contains name && arity < 2 then
    .error (.arity name (.atLeast 2) arity)
  else if !o.isDefined name then .error (o.unknown predicate)
  else .ok ()

/-- Checks a fact given by its predicate and its arguments. -/
def checkFact (o : Ontology) (predicate : String) (args : List String) : Except Violation Unit :=
  o.checkPredicate true predicate args.length

def checkGoal (o : Ontology) : Goal → Except Violation Unit
  | .call t =>
    match t.functor? with
    | none => .error (.unsupportedGoal t.text)
    | some (name, _) =>
      if !isPlainName name then .error (.invalidName name)
      else if !o.isDefined name then .error (o.unknown name)
      else .ok ()
  | .not g => checkGoal o g
  | .unify l r => .error (.unsupportedGoal (Goal.unify l r).text)
  | .notUnify l r => .error (.unsupportedGoal (Goal.notUnify l r).text)

/-- Checks goals from left to right. -/
def checkGoals (o : Ontology) : List Goal → Except Violation Unit
  | [] => .ok ()
  | g :: gs =>
    match o.checkGoal g with
    | .error v => .error v
    | .ok () => checkGoals o gs

/-- Checks the head of a clause, then its body. -/
def checkClause (o : Ontology) (c : Clause) : Except Violation Unit :=
  match c.head.functor? with
  | none => .error (.malformed (.invalidHead c.head.text))
  | some (name, arity) =>
    match o.checkPredicate c.body.isEmpty name arity with
    | .error v => .error v
    | .ok () => o.checkGoals c.body

def validate (o : Ontology) (text : String) : Except Violation Clause :=
  match Clause.parse text with
  | .error e => .error (.malformed e)
  | .ok c => (o.checkClause c).map fun _ => c

/-- Checks that there is a constraint of this name. -/
def checkConstraint (o : Ontology) (name : String) : Except Violation Unit :=
  if o.constraints.contains (o.canonical name) then .ok () else .error (.undefinedConstraint name)

/-! ## New names -/

def addType (o : Ontology) (name : String) : Ontology :=
  { o with types := o.types.insert name }

def addRelationship (o : Ontology) (name : String) : Ontology :=
  { o with relationships := o.relationships.insert name }

def addConstraint (o : Ontology) (name : String) : Ontology :=
  { o with constraints := o.constraints.insert name }

/-- The ontology in which `name` stands for `canonical`. -/
def addSynonym (o : Ontology) (name canonical : String) : Ontology :=
  { o with synonyms := o.synonyms.insert name canonical }

end Ontology

end OntoLogic
