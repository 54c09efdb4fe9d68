-- SUMMARY: Which texts a session takes as assertions, and which it keeps when a program is loaded.
import OntoLogic.Proofs.Session.Effect
import OntoLogic.Proofs.Syntax.Ending
import OntoLogic.Proofs.Text.Names

/-!
# Assertions and loaded programs

A text comes into the program by an assertion, or among others when a program is loaded or the
ontology is changed. The ontology is asked either way, but an assertion has to end with a period.
A clause does, unless comments follow it.
-/

namespace OntoLogic

namespace Ontology

variable {o : Ontology} {text : String}

theorem accepts_iff : o.accepts text = true ↔ ∃ c, o.validate text = .ok c :=
  isOk_iff

/-- A clause that is allowed is not the empty text. -/
theorem not_accepts_empty (o : Ontology) : o.accepts "" = false := by
  rw [Bool.eq_false_iff]
  intro haccepts
  obtain ⟨c, hc⟩ := accepts_iff.mp haccepts
  have hparse : Clause.parse "" = .error .empty := by decide
  exact absurd (hparse.symm.trans (validate_iff.mp hc).1) nofun

end Ontology

namespace Session

variable {bounds : Bounds} {s : Session MemoryEngine}

/-! ## Assertions -/

theorem Consistent.append_iff {text : String} (h : s.Consistent bounds)
    (htrim : Text.trim text = text) :
    (s.append text).1 = .ok () ↔
      s.ontology.accepts text = true ∧ text.toList.getLast? = some '.' := by
  have hquery := ClauseKind.ofText_eq_query text
  rw [htrim] at hquery
  constructor
  · intro happend
    refine ⟨?_, ?_⟩
    · obtain ⟨-, c, hc⟩ := (append_ok htrim happend).1
      exact Ontology.accepts_iff.mpr ⟨c, hc⟩
    · by_contra hlast
      have hempty : (s.append text).1 ≠ .ok () := by
        unfold Session.append
        rw [if_pos (hquery.mpr hlast)]
        split <;> nofun
      exact hempty happend
  · rintro ⟨haccepts, hlast⟩
    obtain ⟨c, hc⟩ := Ontology.accepts_iff.mp haccepts
    have hne : text.isEmpty = false := by
      rw [Bool.eq_false_iff]
      intro hempty
      rw [String.isEmpty_iff.mp hempty, s.ontology.not_accepts_empty] at haccepts
      cases haccepts
    have hallowed : ∀ t ∈ s.program ++ [text], s.ontology.Allows t :=
      List.forall_mem_append.mpr ⟨h.allowed, by simpa using ⟨htrim, c, hc⟩⟩
    obtain ⟨s', hs', -⟩ := h.rebuild hallowed
    unfold Session.append
    rw [if_neg (by simp [hne]), if_neg fun hkind => hquery.mp hkind hlast, hc, hs']

theorem Consistent.assert_iff (h : s.Consistent bounds) (text : String) :
    (s.assert text).1.succeeds = true ↔
      s.ontology.accepts (Text.trim text) = true ∧
        (Text.trim text).toList.getLast? = some '.' := by
  rw [← h.append_iff (Text.trim_trim text)]
  unfold Session.assert
  dsimp only
  cases happend : s.append (Text.trim text) with
  | mk result s' =>
    cases result with
    | ok => simp [AssertionResult.succeeds, AssertionResult.asserted]
    | error e => simp [AssertionResult.succeeds, AssertionResult.failed]

/-! ## Loaded programs -/

/-- Replacing program and ontology keeps the clauses that the new ontology accepts. -/
theorem Consistent.replace_program (h : s.Consistent bounds) (o : Ontology)
    (candidates : List String) :
    ∃ s', s.replace o candidates = (.ok (o.revalidate candidates), s') ∧
      s'.program = (candidates.map Text.trim).filter o.accepts := by
  obtain ⟨s', hs', -⟩ := h.replace o candidates
  obtain ⟨-, heq⟩ := replace_ok hs'
  refine ⟨s', hs', ?_⟩
  rw [heq, Ontology.revalidate_eq]

/-! ## Both ways -/

/-- A clause that is accepted and not taken as an assertion has comments after it, and would be
taken without them. -/
theorem Consistent.exists_commented (h : s.Consistent bounds) {text : String}
    (haccepts : s.ontology.accepts (Text.trim text) = true)
    (hrefused : (s.assert text).1.succeeds = false) :
    ∃ core, Commented core (Text.trim text) ∧
      s.ontology.validate core = s.ontology.validate (Text.trim text) ∧
      (s.assert core).1.succeeds = true := by
  obtain ⟨c, hc⟩ := Ontology.accepts_iff.mp haccepts
  obtain ⟨hparse, hcheck⟩ := Ontology.validate_iff.mp hc
  have hlast : (Text.trim (Text.trim text)).toList.getLast? ≠ some '.' := by
    rw [Text.trim_trim]
    intro hlast
    rw [(h.assert_iff text).mpr ⟨haccepts, hlast⟩] at hrefused
    cases hrefused
  obtain ⟨core, htrim, hcommented, hcore, hcoreLast⟩ := Clause.exists_commented hparse hlast
  have hcore' : s.ontology.validate core = .ok c := Ontology.validate_iff.mpr ⟨hcore, hcheck⟩
  refine ⟨core, hcommented, by rw [hcore', hc], ?_⟩
  rw [h.assert_iff, htrim]
  exact ⟨Ontology.accepts_iff.mpr ⟨c, hcore'⟩, hcoreLast⟩

/-- A text is taken as an assertion when the ontology accepts it, without blanks at its ends, and it
ends with a period. Loading a saved program, starting with a program and reloading the same ontology
keep all texts that the ontology accepts. Those that are kept but not taken as assertions have
comments after a clause that is. -/
theorem assert_iff_keeps (h : Reachable bounds s) :
    (∀ text, (s.assert text).1.succeeds = true ↔
      s.ontology.accepts (Text.trim text) = true ∧
        (Text.trim text).toList.getLast? = some '.') ∧
    (∀ bounds' t (snapshot : Snapshot), Reachable bounds' t →
      snapshot.ontology = s.ontology.config →
      ∃ t', t.load snapshot = (.ok (s.ontology.revalidate snapshot.program), t') ∧
        t'.program = (snapshot.program.map Text.trim).filter s.ontology.accepts) ∧
    (∀ id pipeline maxReasoningSteps (checker : MemoryEngine) bounds' program, ∃ t,
      (start id pipeline maxReasoningSteps (some s.ontology.config) checker
        (.new bounds')).loadInitial program = .ok t ∧
      t.program = (program.map Text.trim).filter s.ontology.accepts) ∧
    (∀ bounds' t, Reachable bounds' t →
      ∃ t', t.reload s.ontology.config = (.ok (s.ontology.revalidate t.program), t') ∧
        t'.program = t.program.filter s.ontology.accepts) ∧
    ∀ text, s.ontology.accepts (Text.trim text) = true → (s.assert text).1.succeeds = false →
      ∃ core, Commented core (Text.trim text) ∧
        s.ontology.validate core = s.ontology.validate (Text.trim text) ∧
        (s.assert core).1.succeeds = true := by
  have hc := h.consistent
  refine ⟨hc.assert_iff, ?_, ?_, ?_, fun text => hc.exists_commented⟩
  · intro bounds' t snapshot ht hontology
    unfold load
    rw [hontology, Ontology.ofConfig_config]
    exact ht.consistent.replace_program s.ontology snapshot.program
  · intro id pipeline maxReasoningSteps checker bounds' program
    have hstart : (start id pipeline maxReasoningSteps (some s.ontology.config) checker
      (.new bounds')).Consistent bounds' := start_consistent ..
    have hontology : (start id pipeline maxReasoningSteps (some s.ontology.config) checker
      (MemoryEngine.new bounds')).ontology = s.ontology := Ontology.ofConfig_config _
    obtain ⟨t, ht, hprogram⟩ := hstart.replace_program s.ontology program
    unfold loadInitial
    rw [hontology, ht]
    split
    · next hempty =>
      refine ⟨_, rfl, ?_⟩
      rw [List.isEmpty_iff.mp hempty]
      rfl
    · exact ⟨t, rfl, hprogram⟩
  · intro bounds' t ht
    unfold reload
    rw [Ontology.ofConfig_config]
    obtain ⟨t', ht', hprogram⟩ := ht.consistent.replace_program s.ontology t.program
    rw [Ontology.map_trim_of_allows ht.consistent.allowed] at hprogram
    exact ⟨t', ht', hprogram⟩

/-- A fact with blanks and odd layout is taken as an assertion. With a comment after it, it is not,
but it is kept when it is loaded. -/
theorem assert_iff_keeps_tweety :
    let s : Session MemoryEngine :=
      start "s" ⟨[], 1, 0, none⟩ 8 (some { types := ["bird"] }) (.new {}) (.new {})
    let text := "bird( % not 'polly'.\n tweety ). % seen today"
    Reachable {} s ∧ (s.assert " bird( % not 'polly'.\n tweety ). ").1.succeeds = true ∧
    s.ontology.accepts text = true ∧ (s.assert text).1.succeeds = false ∧
    (∃ t, s.load { s.save ⟨0, 0⟩ with program := [text] } =
        (.ok (s.ontology.revalidate [text]), t) ∧ t.program = [text]) ∧
    ∃ core, Commented core (Text.trim text) ∧
      s.ontology.validate core = s.ontology.validate (Text.trim text) ∧
      (s.assert core).1.succeeds = true := by
  intro s text
  have hcreate : s.loadInitial [] = .ok s := rfl
  have hreach : Reachable {} s := .create hcreate
  obtain ⟨hassert, hload, -, -, hcommented⟩ := assert_iff_keeps hreach
  have htrim : Text.trim text = text := by decide +kernel
  have haccepts : s.ontology.accepts text = true := by decide +kernel
  have hrefused : (s.assert text).1.succeeds = false := by
    rw [Bool.eq_false_iff]
    exact fun h => absurd ((hassert text).mp h).2 (by decide +kernel)
  obtain ⟨t, ht, hprogram⟩ := hload {} s { s.save ⟨0, 0⟩ with program := [text] } hreach rfl
  refine ⟨hreach, (hassert _).mpr (by decide +kernel), haccepts, hrefused, ⟨t, ht, ?_⟩,
    hcommented text (htrim.symm ▸ haccepts) hrefused⟩
  rw [hprogram]
  decide +kernel

/-- The first program of a session keeps a fact that the session does not take as an assertion. -/
theorem not_assert_of_keeps :
    let text := "bird(tweety). % seen today"
    let s : Session MemoryEngine :=
      start "s" ⟨[], 1, 0, none⟩ 8 (some { types := ["bird"] }) (.new {}) (.new {})
    Reachable {} s ∧ (s.ontology.validate (Text.trim text)).isOk = true ∧
    ((s.loadInitial [text]).toOption.map (·.program)) = some [text] ∧
    (s.assert text).1.succeeds = false := by
  intro text s
  have hcreate : s.loadInitial [] = .ok s := rfl
  exact ⟨.create hcreate, by decide +kernel, by decide +kernel, by decide +kernel⟩

end Session

end OntoLogic
