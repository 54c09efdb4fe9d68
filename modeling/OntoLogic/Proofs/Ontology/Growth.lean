-- SUMMARY: A name that is new to an ontology takes part in no clause that it accepts.
import OntoLogic.Proofs.Ontology.Predicates
import OntoLogic.Proofs.Session.Consistency
import OntoLogic.Proofs.Text.Names

/-!
# Growing ontologies

An ontology looks a name up among its types and relationships, by itself and by what it stands for,
and a predicate of a head once more after that. Accepting a clause, it finds a type or a
relationship in the end. The names on the way there are covered by any set that has all types and
relationships, and with a name all names that stand for it. Two ontologies that treat the names of
such a set alike therefore accept the clauses of the first. A name that is new to an ontology is
outside of such a set, also when other names stand for it.
-/

namespace OntoLogic

namespace Ontology

variable {o o' : Ontology} {known : String → Prop} {name target predicate text : String}
  {isFact : Bool} {arity : Nat}

/-! ## Covered names -/

/-- A name is new to an ontology: it is neither a type nor a relationship nor a synonym. Synonyms
may stand for it. -/
structure Fresh (o : Ontology) (name : String) : Prop where
  not_names : ¬ o.Names name
  not_synonym : o.synonyms.get? name = none

instance : Decidable (o.Fresh name) :=
  decidable_of_iff (¬ o.Names name ∧ o.synonyms.get? name = none)
    ⟨fun h => ⟨h.1, h.2⟩, fun h => ⟨h.not_names, h.not_synonym⟩⟩

/-- A set of names has all types and relationships, and with a name all names that stand for it. -/
structure Covers (o : Ontology) (known : String → Prop) : Prop where
  named : ∀ x, o.Names x → known x
  synonym : ∀ x, known (o.canonical x) → known x

theorem Fresh.canonical_eq (h : o.Fresh name) : o.canonical name = name := by
  rw [canonical, h.not_synonym, Option.getD_none]

theorem Fresh.covers (h : o.Fresh name) : o.Covers (· ≠ name) where
  named := by
    rintro x hx rfl
    exact h.not_names hx
  synonym := by
    rintro x hx rfl
    exact hx h.canonical_eq

theorem covers_univ (o : Ontology) : o.Covers fun _ => True :=
  ⟨fun _ _ => trivial, fun _ _ => trivial⟩

theorem Covers.of_isDefined (h : o.Covers known) (hname : o.isDefined name = true) : known name :=
  h.synonym name (h.named _ (isDefined_iff.mp hname))

/-! ## Ontologies that agree -/

/-- Two ontologies treat the names of a set alike. -/
structure AgreesOn (known : String → Prop) (o o' : Ontology) : Prop where
  types : ∀ x, known x → o'.types.contains x = o.types.contains x
  relationships : ∀ x, known x → o'.relationships.contains x = o.relationships.contains x
  canonical : ∀ x, known x → o'.canonical x = o.canonical x

theorem agreesOn_addType : AgreesOn (· ≠ name) o (o.addType name) where
  types _ hx := NameSet.contains_insert_of_ne hx
  relationships _ _ := rfl
  canonical _ _ := rfl

theorem agreesOn_addRelationship : AgreesOn (· ≠ name) o (o.addRelationship name) where
  types _ _ := rfl
  relationships _ hx := NameSet.contains_insert_of_ne hx
  canonical _ _ := rfl

theorem agreesOn_addSynonym : AgreesOn (· ≠ name) o (o.addSynonym name target) where
  types _ _ := rfl
  relationships _ _ := rfl
  canonical x hx := by
    unfold Ontology.canonical addSynonym
    rw [NameMap.get?_insert_of_ne hx]

theorem agreesOn_addConstraint : AgreesOn (fun _ => True) o (o.addConstraint name) where
  types _ _ := rfl
  relationships _ _ := rfl
  canonical _ _ := rfl

/-! ## Names that are there -/

theorem addType_eq_self_iff : o.addType name = o ↔ o.types.contains name = true := by
  rw [← NameSet.insert_eq_self_iff]
  exact ⟨congrArg types, fun h => by rw [addType, h]⟩

theorem addRelationship_eq_self_iff :
    o.addRelationship name = o ↔ o.relationships.contains name = true := by
  rw [← NameSet.insert_eq_self_iff]
  exact ⟨congrArg relationships, fun h => by rw [addRelationship, h]⟩

theorem addConstraint_eq_self_iff :
    o.addConstraint name = o ↔ o.constraints.contains name = true := by
  rw [← NameSet.insert_eq_self_iff]
  exact ⟨congrArg constraints, fun h => by rw [addConstraint, h]⟩

theorem addSynonym_eq_self_iff :
    o.addSynonym name target = o ↔ o.synonyms.get? name = some target := by
  rw [← NameMap.insert_eq_self_iff]
  exact ⟨congrArg synonyms, fun h => by rw [addSynonym, h]⟩

/-! ## Clauses that stay accepted -/

namespace AgreesOn

theorem names (h : AgreesOn known o o') (hname : known name) (hnames : o.Names name) :
    o'.Names name := by
  unfold Names
  rw [h.types name hname, h.relationships name hname]
  exact hnames

theorem fits (h : AgreesOn known o o') (hname : known name) (hfits : o.Fits isFact name arity) :
    o'.Fits isFact name arity where
  legal := hfits.legal
  type := by
    rw [h.types name hname]
    exact hfits.type
  relationship := by
    rw [h.relationships name hname]
    exact hfits.relationship

theorem isDefined (h : AgreesOn known o o') (hcovers : o.Covers known)
    (hname : o.isDefined name = true) : o'.isDefined name = true := by
  have hknown : known name := hcovers.of_isDefined hname
  have hnames : o.Names (o.canonical name) := isDefined_iff.mp hname
  rw [isDefined_iff, h.canonical name hknown]
  exact h.names (hcovers.named _ hnames) hnames

theorem checkPredicate (h : AgreesOn known o o') (hcovers : o.Covers known)
    (hcheck : o.checkPredicate isFact predicate arity = .ok ()) :
    o'.checkPredicate isFact predicate arity = .ok () := by
  obtain ⟨hfits, hdefined⟩ := checkPredicate_iff.mp hcheck
  have hknown : known (o.canonical predicate) := hcovers.of_isDefined hdefined
  rw [checkPredicate_iff, h.canonical predicate (hcovers.synonym _ hknown)]
  exact ⟨h.fits hknown hfits, h.isDefined hcovers hdefined⟩

theorem checkGoal (h : AgreesOn known o o') (hcovers : o.Covers known) {g : Goal}
    (hcheck : o.checkGoal g = .ok ()) : o'.checkGoal g = .ok () := by
  induction g with
  | call t =>
    obtain ⟨name, n, hfunctor, hlegal, hdefined⟩ := checkGoal_call_iff.mp hcheck
    exact checkGoal_call_iff.mpr ⟨name, n, hfunctor, hlegal, h.isDefined hcovers hdefined⟩
  | not g ih => exact ih hcheck
  | unify l r => cases hcheck
  | notUnify l r => cases hcheck

theorem checkGoals (h : AgreesOn known o o') (hcovers : o.Covers known) {gs : List Goal}
    (hcheck : o.checkGoals gs = .ok ()) : o'.checkGoals gs = .ok () := by
  induction gs with
  | nil => rfl
  | cons g gs ih =>
    obtain ⟨hg, hgs⟩ := checkGoals_cons_iff.mp hcheck
    exact checkGoals_cons_iff.mpr ⟨h.checkGoal hcovers hg, ih hgs⟩

theorem checkClause (h : AgreesOn known o o') (hcovers : o.Covers known) {c : Clause}
    (hcheck : o.checkClause c = .ok ()) : o'.checkClause c = .ok () := by
  cases hhead : c.head.functor? with
  | none =>
    rw [Ontology.checkClause, hhead] at hcheck
    cases hcheck
  | some functor =>
    obtain ⟨hpredicate, hgoals⟩ := (checkClause_iff hhead).mp hcheck
    exact (checkClause_iff hhead).mpr
      ⟨h.checkPredicate hcovers hpredicate, h.checkGoals hcovers hgoals⟩

theorem allows (h : AgreesOn known o o') (hcovers : o.Covers known) (htext : o.Allows text) :
    o'.Allows text := by
  obtain ⟨htrim, c, hc⟩ := htext
  obtain ⟨hparse, hcheck⟩ := validate_iff.mp hc
  exact ⟨htrim, c, validate_iff.mpr ⟨hparse, h.checkClause hcovers hcheck⟩⟩

end AgreesOn

end Ontology

end OntoLogic
