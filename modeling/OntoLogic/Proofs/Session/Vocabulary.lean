-- SUMMARY: Growing the vocabulary of a session drops nothing, and changing nothing is revalidating.
import OntoLogic.Proofs.Ontology.Growth
import OntoLogic.Proofs.Session.Reload

/-!
# The vocabulary of a session

The engine of a consistent session has loaded the program, so that loading it once more changes
nothing. Where another ontology allows the whole program, replacing the ontology therefore changes
the ontology and nothing else. This is so for an ontology that has got a new name, and it is so for
the ontology of the session itself: not to revalidate the program when the ontology stays as it is
makes no difference.
-/

namespace OntoLogic.Session

variable {bounds : Bounds} {s : Session MemoryEngine}

/-! ## Replacing the ontology -/

theorem Consistent.assertAll_program (h : s.Consistent bounds) :
    Engine.assertAll s.program s.engine = (.ok (), s.engine) := by
  show MemoryEngine.assertAll s.program s.engine = _
  rw [MemoryEngine.assertAll, h.loaded]

/-- An ontology that allows the program takes the place of the one there is. -/
theorem Consistent.replace_of_allows (h : s.Consistent bounds) {ontology : Ontology}
    (hallows : ∀ text ∈ s.program, ontology.Allows text) :
    s.replace ontology s.program = (.ok ⟨s.program, []⟩, { s with ontology }) := by
  have hreport : ontology.revalidate s.program = ⟨s.program, []⟩ :=
    Ontology.revalidate_of_allows hallows
  have hinstall : s.install ontology s.program = (.ok (), { s with ontology }) := by
    rw [Session.install, h.assertAll_program]
  rw [Session.replace, hreport, hinstall]
  rfl

/-- Revalidation finds a consistent session in order. -/
theorem Consistent.replace_self (h : s.Consistent bounds) :
    s.replace s.ontology s.program = (.ok ⟨s.program, []⟩, s) :=
  h.replace_of_allows h.allowed

theorem Consistent.changeOntology_eq_replace (h : s.Consistent bounds) (ontology : Ontology) :
    s.changeOntology ontology = s.replace ontology s.program := by
  unfold Session.changeOntology
  split
  · next heq => rw [heq, h.replace_self]
  · rfl

/-! ## Changes with names -/

section

variable {σ : Type} [Engine σ] {s : Session σ} {change : Ontology → String → Ontology}
  {name canonical : String}

theorem checkName_eq_ok (h : isPlainName (Text.trim name) = true) :
    checkName name = .ok (Text.trim name) :=
  if_pos h

theorem checkName_eq_error (h : ¬ isPlainName (Text.trim name) = true) :
    checkName name = .error (.ontology (.invalidName (Text.trim name))) :=
  if_neg h

theorem changeWith_of_legal (h : isPlainName (Text.trim name) = true) :
    s.changeWith change name = s.changeOntology (change s.ontology (Text.trim name)) := by
  rw [changeWith, checkName_eq_ok h]

theorem changeWith_of_illegal (h : ¬ isPlainName (Text.trim name) = true) :
    s.changeWith change name = (.error (.ontology (.invalidName (Text.trim name))), s) := by
  rw [changeWith, checkName_eq_error h]

theorem addSynonym_of_legal (hname : isPlainName (Text.trim name) = true)
    (hcanonical : isPlainName (Text.trim canonical) = true) :
    s.addSynonym name canonical =
      s.changeOntology (s.ontology.addSynonym (Text.trim name) (Text.trim canonical)) := by
  rw [addSynonym, checkName_eq_ok hname, checkName_eq_ok hcanonical]

theorem addSynonym_of_illegal
    (h : ¬ (isPlainName (Text.trim name) = true ∧ isPlainName (Text.trim canonical) = true)) :
    ∃ e, s.addSynonym name canonical = (.error e, s) := by
  by_cases hname : isPlainName (Text.trim name) = true
  · have hcanonical : ¬ isPlainName (Text.trim canonical) = true := fun hc => h ⟨hname, hc⟩
    rw [addSynonym, checkName_eq_ok hname, checkName_eq_error hcanonical]
    exact ⟨_, rfl⟩
  · rw [addSynonym, checkName_eq_error hname]
    exact ⟨_, rfl⟩

end

/-! ## New names -/

/-- A consistent session goes over to an ontology that treats alike all names that matter to its
own. -/
theorem Consistent.changeOntology_of_agreesOn (h : s.Consistent bounds) {ontology : Ontology}
    {known : String → Prop} (hcovers : s.ontology.Covers known)
    (hagrees : Ontology.AgreesOn known s.ontology ontology) :
    s.changeOntology ontology = (.ok ⟨s.program, []⟩, { s with ontology }) := by
  rw [h.changeOntology_eq_replace]
  exact h.replace_of_allows fun text htext => hagrees.allows hcovers (h.allowed text htext)

/-- Whatever the ontology of a session, a legal name that is neither a type nor a relationship nor a
synonym of it may become any of them, and any legal name may become a constraint: no clause is
dropped, and nothing of the session changes but the ontology. -/
theorem new_name_drops_nothing (h : Reachable bounds s) :
    (∀ name, isPlainName (Text.trim name) = true → s.ontology.Fresh (Text.trim name) →
      s.addType name = (.ok ⟨s.program, []⟩,
        { s with ontology := s.ontology.addType (Text.trim name) }) ∧
      s.addRelationshipType name = (.ok ⟨s.program, []⟩,
        { s with ontology := s.ontology.addRelationship (Text.trim name) }) ∧
      ∀ canonical, isPlainName (Text.trim canonical) = true →
        s.addSynonym name canonical = (.ok ⟨s.program, []⟩,
          { s with ontology := s.ontology.addSynonym (Text.trim name) (Text.trim canonical) })) ∧
    ∀ name, isPlainName (Text.trim name) = true →
      s.addConstraint name = (.ok ⟨s.program, []⟩,
        { s with ontology := s.ontology.addConstraint (Text.trim name) }) := by
  have hs := h.consistent
  refine ⟨fun name hlegal hfresh => ⟨?_, ?_, fun canonical hcanonical => ?_⟩, fun name hlegal => ?_⟩
  · rw [addType, changeWith_of_legal hlegal]
    exact hs.changeOntology_of_agreesOn hfresh.covers Ontology.agreesOn_addType
  · rw [addRelationshipType, changeWith_of_legal hlegal]
    exact hs.changeOntology_of_agreesOn hfresh.covers Ontology.agreesOn_addRelationship
  · rw [addSynonym_of_legal hlegal hcanonical]
    exact hs.changeOntology_of_agreesOn hfresh.covers Ontology.agreesOn_addSynonym
  · rw [addConstraint, changeWith_of_legal hlegal]
    exact hs.changeOntology_of_agreesOn (Ontology.covers_univ _) Ontology.agreesOn_addConstraint

/-- The name `pet` is new where another name stands for it and where synonyms go round in a circle.
As a type, as a relationship or as a synonym it costs none of the three clauses, of which one calls
a synonym and one negates such a call. -/
theorem new_name_drops_nothing_pet :
    let ontology : OntologyConfig :=
      { types := ["bird"]
        relationships := ["eats"]
        synonyms := .ofList
          [("robin", "bird"), ("parrot", "pet"), ("cat", "feline"), ("feline", "cat")] }
    let program := ["robin(rob).", "eats(X) :- robin(X), \\+ bird(X).", "eats(rob, worm)."]
    let s₀ : Session MemoryEngine :=
      start "s" ⟨[], 1, 0, none⟩ 8 (some ontology) (.new {}) (.new {})
    let s := (s₀.loadInitial program).toOption.getD s₀
    Reachable {} s ∧ s.program = program ∧ s.ontology.Fresh "pet" ∧
      s.addType " pet" = (.ok ⟨s.program, []⟩, { s with ontology := s.ontology.addType "pet" }) ∧
      s.addRelationshipType "pet" = (.ok ⟨s.program, []⟩,
        { s with ontology := s.ontology.addRelationship "pet" }) ∧
      s.addSynonym "pet" "cat" = (.ok ⟨s.program, []⟩,
        { s with ontology := s.ontology.addSynonym "pet" "cat" }) ∧
      s.addConstraint "bird" = (.ok ⟨s.program, []⟩,
        { s with ontology := s.ontology.addConstraint "bird" }) := by
  intro ontology program s₀ s
  have hreach : Reachable {} s := .create (eq_ok_getD (by decide +kernel) _)
  have hblank : Text.trim " pet" = "pet" := by decide +kernel
  have hpet : Text.trim "pet" = "pet" := by decide +kernel
  have hcat : Text.trim "cat" = "cat" := by decide +kernel
  have hbird : Text.trim "bird" = "bird" := by decide +kernel
  have hlegal :
      isPlainName "pet" = true ∧ isPlainName "cat" = true ∧ isPlainName "bird" = true := by
    decide +kernel
  have hfresh : s.ontology.Fresh "pet" := by decide +kernel
  obtain ⟨hnew, hconstraint⟩ := new_name_drops_nothing hreach
  obtain ⟨htype, -, -⟩ :=
    hnew " pet" (by rw [hblank]; exact hlegal.1) (by rw [hblank]; exact hfresh)
  obtain ⟨-, hrelationship, hsynonym⟩ :=
    hnew "pet" (by rw [hpet]; exact hlegal.1) (by rw [hpet]; exact hfresh)
  have hsynonym := hsynonym "cat" (by rw [hcat]; exact hlegal.2.1)
  have hconstraint := hconstraint "bird" (by rw [hbird]; exact hlegal.2.2)
  rw [hblank] at htype
  rw [hpet] at hrelationship hsynonym
  rw [hcat] at hsynonym
  rw [hbird] at hconstraint
  exact ⟨hreach, by decide +kernel, hfresh, htype, hrelationship, hsynonym, hconstraint⟩

/-! ## Names that are there -/

/-- A session that is told what its ontology has already gives the report, and is left as it is
left, by revalidating the program against this ontology and loading it again. More generally,
whether a change is recognized as none makes no difference to its result. An illegal name changes
nothing either, but is refused, even where the ontology has it. -/
theorem known_name_eq_revalidation (h : Reachable bounds s) :
    s.replace s.ontology s.program = (.ok ⟨s.program, []⟩, s) ∧
    (∀ ontology, s.changeOntology ontology = s.replace ontology s.program) ∧
    (∀ name, isPlainName (Text.trim name) = true →
      (s.ontology.types.contains (Text.trim name) = true →
        s.addType name = s.replace s.ontology s.program) ∧
      (s.ontology.relationships.contains (Text.trim name) = true →
        s.addRelationshipType name = s.replace s.ontology s.program) ∧
      (s.ontology.constraints.contains (Text.trim name) = true →
        s.addConstraint name = s.replace s.ontology s.program) ∧
      ∀ canonical, isPlainName (Text.trim canonical) = true →
        s.ontology.synonyms.get? (Text.trim name) = some (Text.trim canonical) →
        s.addSynonym name canonical = s.replace s.ontology s.program) ∧
    (∀ name, ¬ isPlainName (Text.trim name) = true →
      let refused := (.error (.ontology (.invalidName (Text.trim name))), s)
      s.addType name = refused ∧ s.addRelationshipType name = refused ∧
        s.addConstraint name = refused) ∧
    ∀ name canonical,
      ¬ (isPlainName (Text.trim name) = true ∧ isPlainName (Text.trim canonical) = true) →
      ∃ e, s.addSynonym name canonical = (.error e, s) := by
  have hs := h.consistent
  refine ⟨hs.replace_self, hs.changeOntology_eq_replace, fun name hlegal => ⟨?_, ?_, ?_, ?_⟩,
    ?_, ?_⟩
  · intro hmem
    rw [addType, changeWith_of_legal hlegal, hs.changeOntology_eq_replace,
      Ontology.addType_eq_self_iff.mpr hmem]
  · intro hmem
    rw [addRelationshipType, changeWith_of_legal hlegal, hs.changeOntology_eq_replace,
      Ontology.addRelationship_eq_self_iff.mpr hmem]
  · intro hmem
    rw [addConstraint, changeWith_of_legal hlegal, hs.changeOntology_eq_replace,
      Ontology.addConstraint_eq_self_iff.mpr hmem]
  · intro canonical hcanonical hget
    rw [addSynonym_of_legal hlegal hcanonical, hs.changeOntology_eq_replace,
      Ontology.addSynonym_eq_self_iff.mpr hget]
  · exact fun name hillegal => ⟨changeWith_of_illegal hillegal, changeWith_of_illegal hillegal,
      changeWith_of_illegal hillegal⟩
  · exact fun name canonical hillegal => addSynonym_of_illegal hillegal

/-- A session that has got a type by an operation, between blanks, and is told of it once more. Its
ontology has an illegal relationship, which is refused. -/
theorem known_name_eq_revalidation_bird :
    let ontology : OntologyConfig :=
      { relationships := ["Eats", "eats"]
        constraints := ["tame"]
        synonyms := .ofList [("robin", "bird")] }
    let s₀ : Session MemoryEngine :=
      start "s" ⟨[], 1, 0, none⟩ 8 (some ontology) (.new {}) (.new {})
    let env : Environment (Option ScriptedGenerator) := ⟨none, 0, none, false, .placeholder⟩
    let s₁ := (s₀.perform (.addType " bird ") env).2.1
    let s := (s₁.perform (.assert " robin(rob). ") env).2.1
    Reachable {} s ∧ s.program = ["robin(rob)."] ∧
      s.replace s.ontology s.program = (.ok ⟨["robin(rob)."], []⟩, s) ∧
      s.addType "bird " = s.replace s.ontology s.program ∧
      s.addRelationshipType "eats" = s.replace s.ontology s.program ∧
      s.addConstraint "tame" = s.replace s.ontology s.program ∧
      s.addSynonym "robin" " bird" = s.replace s.ontology s.program ∧
      s.addRelationshipType "Eats" = (.error (.ontology (.invalidName "Eats")), s) ∧
      ∃ e, s.addSynonym "robin" "Bird" = (.error e, s) := by
  intro ontology s₀ env s₁ s
  have hcreate : s₀.loadInitial [] = .ok s₀ := rfl
  have hreach : Reachable {} s := .perform _ env (.perform _ env (.create hcreate))
  have hprogram : s.program = ["robin(rob)."] := by decide +kernel
  obtain ⟨hself, -, hlegal, hillegal, hrefused⟩ := known_name_eq_revalidation hreach
  refine ⟨hreach, hprogram, by rw [hself, hprogram], (hlegal "bird " ?_).1 ?_,
    (hlegal "eats" ?_).2.1 ?_, (hlegal "tame" ?_).2.2.1 ?_,
    (hlegal "robin" ?_).2.2.2 " bird" ?_ ?_, (hillegal "Eats" ?_).2.1, hrefused "robin" "Bird" ?_⟩
  all_goals decide +kernel

end OntoLogic.Session
