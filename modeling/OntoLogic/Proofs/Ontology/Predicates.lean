-- SUMMARY: Which predicates an ontology accepts, by name and number of arguments.
import Mathlib.Tactic.Common
import OntoLogic.Ontology.Basic

/-!
# Accepted predicates

A predicate is judged by the name it stands for. That name has to be legal and to fit the number of
arguments, and it has to be defined. The question whether it is defined takes a synonym step of its
own, so a fact is judged after two steps where a goal is judged after one. The two agree for a name
whose synonym stands for no other name; there a synonym is accepted like the name it stands for.
-/

namespace OntoLogic

namespace Ontology

variable {o : Ontology} {isFact : Bool} {name predicate synonym target : String} {arity : Nat}

/-! ## Names -/

/-- A name is a type or a relationship. -/
def Names (o : Ontology) (name : String) : Prop :=
  o.types.contains name = true ∨ o.relationships.contains name = true

/-- A name is legal and goes with a number of arguments. It may be a type and a relationship at the
same time; then no fact goes with it. -/
structure Fits (o : Ontology) (isFact : Bool) (name : String) (arity : Nat) : Prop where
  legal : isPlainName name = true
  type : o.types.contains name = true → arity = 1
  relationship : isFact = true → o.relationships.contains name = true → 2 ≤ arity

instance : Decidable (o.Names name) := inferInstanceAs (Decidable (_ ∨ _))

instance : Decidable (o.Fits isFact name arity) :=
  decidable_of_iff
    (isPlainName name = true ∧ (o.types.contains name = true → arity = 1) ∧
      (isFact = true → o.relationships.contains name = true → 2 ≤ arity))
    ⟨fun h => ⟨h.1, h.2.1, h.2.2⟩, fun h => ⟨h.legal, h.type, h.relationship⟩⟩

theorem isDefined_iff : o.isDefined name = true ↔ o.Names (o.canonical name) :=
  Bool.or_eq_true_iff

theorem canonical_of_get? (h : o.synonyms.get? synonym = some target) :
    o.canonical synonym = target := by
  rw [canonical, h, Option.getD_some]

/-! ## Predicates and clauses -/

theorem checkPredicate_iff : o.checkPredicate isFact predicate arity = .ok () ↔
    o.Fits isFact (o.canonical predicate) arity ∧
      o.isDefined (o.canonical predicate) = true := by
  unfold checkPredicate
  dsimp only
  generalize o.canonical predicate = name
  constructor
  · split
    · exact nofun
    next hlegal =>
    split
    · exact nofun
    next htype =>
    split
    · exact nofun
    next hrelationship =>
    split
    · exact nofun
    next hdefined =>
    intro _
    refine ⟨⟨by simpa using hlegal, fun h => ?_, fun hfact h => ?_⟩, by simpa using hdefined⟩
    · simpa [h] using htype
    · by_contra harity
      exact hrelationship
        (by simp only [hfact, h, Nat.not_le.mp harity, decide_true, Bool.and_self])
  · rintro ⟨⟨hlegal, htype, hrelationship⟩, hdefined⟩
    have htype' : (o.types.contains name && arity != 1) = false := by
      cases h : o.types.contains name with
      | false => rfl
      | true => simp [htype h]
    have hrelationship' :
        ¬(isFact && o.relationships.contains name && arity < 2) = true := by
      intro h
      simp only [Bool.and_eq_true, decide_eq_true_eq] at h
      have := hrelationship h.1.1 h.1.2
      omega
    rw [if_neg (by simp [hlegal]), if_neg (by simp [htype']), if_neg hrelationship',
      if_neg (by simp [hdefined])]

theorem checkGoal_call_iff {t : Term} : o.checkGoal (.call t) = .ok () ↔
    ∃ name arity, t.functor? = some (name, arity) ∧ isPlainName name = true ∧
      o.isDefined name = true := by
  simp only [checkGoal]
  cases t.functor? with
  | none => simp
  | some functor =>
    obtain ⟨name, arity⟩ := functor
    cases hlegal : isPlainName name with
    | false => simp [hlegal]
    | true =>
      cases hdefined : o.isDefined name <;> simp [hlegal, hdefined]

theorem checkGoals_cons_iff {g : Goal} {gs : List Goal} :
    o.checkGoals (g :: gs) = .ok () ↔ o.checkGoal g = .ok () ∧ o.checkGoals gs = .ok () := by
  rw [checkGoals]
  split
  · next hcheck => simp [hcheck]
  · next hcheck => simp [hcheck]

theorem checkClause_iff {c : Clause} (h : c.head.functor? = some (predicate, arity)) :
    o.checkClause c = .ok () ↔
      o.checkPredicate c.body.isEmpty predicate arity = .ok () ∧ o.checkGoals c.body = .ok () := by
  unfold checkClause
  rw [h]
  dsimp only
  split
  · next hcheck => simp [hcheck]
  · next hcheck => simp [hcheck]

/-- What an ontology accepts. A fact has to fit the name that its predicate stands for, and that
name has to be defined, which takes another synonym step. A rule head need not have the arguments of
a relationship, and the goals of its body are checked after it. Where the name stands for itself, it
is itself a type or a relationship, so the predicate is defined, and a synonym of it makes no
difference. -/
theorem accepted_iff (o : Ontology) :
    (∀ predicate args, o.checkFact predicate args = .ok () ↔
      o.Fits true (o.canonical predicate) args.length ∧
        o.Names (o.canonical (o.canonical predicate))) ∧
    (∀ c predicate arity, c.head.functor? = some (predicate, arity) →
      (o.checkClause c = .ok () ↔ o.Fits c.body.isEmpty (o.canonical predicate) arity ∧
        o.Names (o.canonical (o.canonical predicate)) ∧ o.checkGoals c.body = .ok ())) ∧
    (∀ predicate args, o.canonical (o.canonical predicate) = o.canonical predicate →
      (o.checkFact predicate args = .ok () ↔
        o.Fits true (o.canonical predicate) args.length ∧ o.Names (o.canonical predicate)) ∧
      (o.checkFact predicate args = .ok () → o.isDefined predicate = true)) ∧
    ∀ synonym target args, o.synonyms.get? synonym = some target → o.canonical target = target →
      (o.checkFact synonym args = .ok () ↔ o.checkFact target args = .ok ()) := by
  have hfact : ∀ predicate args, o.checkFact predicate args = .ok () ↔
      o.Fits true (o.canonical predicate) args.length ∧
        o.Names (o.canonical (o.canonical predicate)) := fun predicate args =>
    checkPredicate_iff.trans (and_congr_right' isDefined_iff)
  refine ⟨hfact, ?_, ?_, ?_⟩
  · intro c predicate arity hhead
    rw [checkClause_iff hhead, checkPredicate_iff, isDefined_iff, and_assoc]
  · intro predicate args hsettled
    have hlaw := hfact predicate args
    rw [hsettled] at hlaw
    exact ⟨hlaw, fun h => isDefined_iff.mpr (hlaw.mp h).2⟩
  · intro synonym target args hget htarget
    rw [hfact, hfact, canonical_of_get? hget, htarget, htarget]

/-- A type with a synonym, and a name that is a type and a relationship: a rule may derive a
property with a relationship, the synonym is accepted like the type, and no fact goes with the name
that is both. -/
theorem accepted_iff_human :
    let o : Ontology := .ofConfig
      { types := ["person", "pet"]
        relationships := ["eats", "pet"]
        synonyms := .ofList [("human", "person")] }
    let c : Clause := ⟨.compound "eats" [.var "X"], [.call (.compound "human" [.var "X"])]⟩
    o.synonyms.get? "human" = some "person" ∧ o.canonical "person" = "person" ∧
    o.checkClause c = .ok () ∧
    o.checkFact "human" ["bob"] = .ok () ∧ o.isDefined "human" = true ∧
    o.checkFact "person" ["bob"] = .ok () ∧
    o.Names "pet" ∧ o.checkFact "pet" ["polly"] ≠ .ok () := by
  intro o c
  obtain ⟨hfact, hclause, hsettled, hsynonym⟩ := accepted_iff o
  have hget : o.synonyms.get? "human" = some "person" := rfl
  have hperson : o.canonical "person" = "person" := rfl
  have hhuman : o.checkFact "human" ["bob"] = .ok () := (hfact _ _).mpr (by decide)
  refine ⟨hget, hperson, (hclause c "eats" 1 rfl).mpr (by decide), hhuman, ?_,
    (hsynonym _ _ _ hget hperson).mp hhuman, by decide, ?_⟩
  · exact (hsettled "human" ["bob"] (by decide)).2 hhuman
  · exact fun h => absurd ((hfact _ _).mp h) (by decide)

/-- Two chains of synonyms. The first ends in no type, but its first step does: the predicate is
defined and goes with its argument, a goal may call it, and yet no fact may use it. The second ends
in a type, but its first step does not: the predicate is not defined, and yet a fact may use it with
any number of arguments, as none may use the name it stands for. -/
theorem not_accepted_after_one_step :
    let o : Ontology := .ofConfig
      { types := ["bird", "mammal"]
        synonyms := .ofList
          [("robin", "bird"), ("bird", "animal"), ("cat", "feline"), ("feline", "mammal")] }
    (o.canonical "robin" = "bird" ∧ o.Fits true "bird" 1 ∧ o.Names "bird" ∧
      o.isDefined "robin" = true ∧ o.checkGoal (.call (.compound "robin" [.var "X"])) = .ok () ∧
      o.checkFact "robin" ["rob"] = .error (.undefinedPredicate "robin" ["robin"])) ∧
    (o.synonyms.get? "cat" = some "feline" ∧ ¬ o.Names "feline" ∧ o.isDefined "cat" = false ∧
      o.checkFact "cat" ["tom", "felix"] = .ok () ∧
      o.checkFact "feline" ["tom", "felix"] ≠ .ok ()) := by
  intro o
  refine ⟨⟨?_, ?_, ?_, ?_, ?_, ?_⟩, ?_, ?_, ?_, ?_, ?_⟩ <;> decide

end Ontology

end OntoLogic
