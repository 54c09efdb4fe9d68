-- SUMMARY: A reload splits the program by the new ontology; reloads together filter it.
import OntoLogic.Proofs.Session.Consistency
import OntoLogic.Proofs.Session.Error

/-!
# Reloading the ontology

A report splits a program into the clauses that an ontology accepts and those that it refuses. The
texts of a consistent session have no blanks at their ends, so that revalidation changes none of
them, and the engine loads whatever is kept. So a reload filters the program, and a sequence of
reloads filters it by all of their ontologies at once.
-/

namespace OntoLogic

/-! ## Revalidation -/

def Ontology.accepts (o : Ontology) (text : String) : Bool :=
  (o.validate text).isOk

/-- What is reported of a text that an ontology refuses. -/
def Ontology.dropped? (o : Ontology) (text : String) : Option DroppedClause :=
  match o.validate text with
  | .ok _ => none
  | .error v => some ⟨text, (SessionError.ontology v).failure⟩

/-- A report on a program has the clauses that an ontology accepts, and apart from them those that
it refuses, each in the order of the program. The reason of a refusal tells what the ontology finds
wrong with the clause. -/
structure Report.Splits (r : Report) (o : Ontology) (program : List String) : Prop where
  kept : r.kept = program.filter o.accepts
  dropped : r.dropped.map (·.clause) = program.filter fun text => !o.accepts text
  reason : ∀ d ∈ r.dropped, ∃ v, o.validate d.clause = .error v ∧
    (SessionError.ontology v).Reported d.reason

/-- What a report keeps of trimmed texts is allowed. -/
theorem Report.Splits.allows {r : Report} {o o' : Ontology} {program : List String}
    (h : r.Splits o program) (htrim : ∀ text ∈ program, o'.Allows text) :
    ∀ text ∈ r.kept, o.Allows text := by
  intro text htext
  rw [h.kept, List.mem_filter] at htext
  obtain ⟨hmem, haccepts⟩ := htext
  refine ⟨(htrim text hmem).1, ?_⟩
  unfold Ontology.accepts at haccepts
  cases hvalidate : o.validate text with
  | ok c => exact ⟨c, rfl⟩
  | error v =>
    rw [hvalidate] at haccepts
    cases haccepts

namespace Ontology

variable {o : Ontology} {texts : List String}

theorem revalidate_eq : o.revalidate texts =
    ⟨(texts.map Text.trim).filter o.accepts, (texts.map Text.trim).filterMap o.dropped?⟩ := by
  induction texts with
  | nil => rfl
  | cons t ts ih =>
    cases h : o.validate (Text.trim t) with
    | ok c => simp [revalidate, accepts, dropped?, h, ih, Except.isOk, Except.toBool]
    | error v => simp [revalidate, accepts, dropped?, h, ih, Except.isOk, Except.toBool]

theorem map_clause_dropped? :
    (texts.filterMap o.dropped?).map (·.clause) = texts.filter fun text => !o.accepts text := by
  induction texts with
  | nil => rfl
  | cons t ts ih =>
    cases h : o.validate t with
    | ok c => simp [accepts, dropped?, h, ih, Except.isOk, Except.toBool]
    | error v => simp [accepts, dropped?, h, ih, Except.isOk, Except.toBool]

theorem map_trim_of_allows (h : ∀ text ∈ texts, o.Allows text) : texts.map Text.trim = texts :=
  (List.map_congr_left fun text ht => (h text ht).1).trans (List.map_id _)

theorem splits_revalidate : (o.revalidate texts).Splits o (texts.map Text.trim) where
  kept := by rw [revalidate_eq]
  dropped := by rw [revalidate_eq, map_clause_dropped?]
  reason := by
    intro d hd
    rw [revalidate_eq] at hd
    obtain ⟨text, -, hdropped⟩ := List.mem_filterMap.mp hd
    unfold dropped? at hdropped
    split at hdropped
    · cases hdropped
    · next v hv =>
      cases hdropped
      exact ⟨v, hv, SessionError.reported_ontology v⟩

/-- A program that an ontology allows stays as it is. -/
theorem revalidate_of_allows (h : ∀ text ∈ texts, o.Allows text) :
    o.revalidate texts = ⟨texts, []⟩ := by
  induction texts with
  | nil => rfl
  | cons t ts ih =>
    obtain ⟨⟨htrim, c, hc⟩, hts⟩ := List.forall_mem_cons.mp h
    simp [revalidate, htrim, hc, ih hts]

end Ontology

/-! ## Replacing program and ontology -/

namespace Session

variable {bounds : Bounds}

/-- What a session is after its program and ontology have been replaced. -/
theorem replace_ok {σ : Type} [Engine σ] {s s' : Session σ} {o : Ontology}
    {candidates : List String} {report : Report} (h : s.replace o candidates = (.ok report, s')) :
    report = o.revalidate candidates ∧
      s' = { s with program := report.kept, ontology := o, engine := s'.engine } := by
  unfold replace install at h
  dsimp only at h
  cases hcall : Engine.assertAll (o.revalidate candidates).kept s.engine with
  | mk result engine =>
    rw [hcall] at h
    cases result with
    | error e => cases h
    | ok =>
      cases h
      exact ⟨rfl, rfl⟩

variable {s : Session MemoryEngine}

/-- A reload succeeds and splits the program. -/
theorem Consistent.reload (h : s.Consistent bounds) (config : OntologyConfig) :
    ∃ report, (s.reload config).1 = .ok report ∧
      report.Splits (.ofConfig config) s.program ∧
      (s.reload config).2.program = report.kept ∧
      (s.reload config).2.ontology = .ofConfig config ∧ (s.reload config).2.Consistent bounds := by
  obtain ⟨s', hs', hc⟩ := h.replace (.ofConfig config) s.program
  obtain ⟨-, heq⟩ := replace_ok hs'
  have hsplits : ((Ontology.ofConfig config).revalidate s.program).Splits (.ofConfig config)
      (s.program.map Text.trim) := Ontology.splits_revalidate
  rw [Ontology.map_trim_of_allows h.allowed] at hsplits
  unfold Session.reload
  rw [hs']
  exact ⟨_, rfl, hsplits, by rw [heq], by rw [heq], hc⟩

/-- A reload of the ontology that a session has drops nothing. -/
theorem Consistent.reload_same {config : OntologyConfig} (h : s.Consistent bounds)
    (hsame : s.ontology = .ofConfig config) : (s.reload config).1 = .ok ⟨s.program, []⟩ := by
  obtain ⟨s', hs', -⟩ := h.replace (.ofConfig config) s.program
  unfold Session.reload
  rw [hs', Ontology.revalidate_of_allows (hsame ▸ h.allowed)]

/-! ## Sequences of reloads -/

/-- A session after its ontology has been reloaded from several descriptions, one after another. -/
def reloads {σ : Type} [Engine σ] (configs : List OntologyConfig) (s : Session σ) : Session σ :=
  configs.foldl (fun s config => (s.reload config).2) s

/-- Whether the ontologies of all descriptions accept a text. -/
def acceptedByAll (configs : List OntologyConfig) (text : String) : Bool :=
  configs.all fun config => (Ontology.ofConfig config).accepts text

theorem acceptedByAll_perm {configs configs' : List OntologyConfig} (h : configs.Perm configs')
    (text : String) : acceptedByAll configs text = acceptedByAll configs' text := by
  rw [Bool.eq_iff_iff]
  simp only [acceptedByAll, List.all_eq_true]
  exact forall_congr' fun config => imp_congr_left h.mem_iff

theorem Consistent.reloads (h : s.Consistent bounds) (configs : List OntologyConfig) :
    (s.reloads configs).program = s.program.filter (acceptedByAll configs) ∧
      (s.reloads configs).Consistent bounds := by
  induction configs generalizing s with
  | nil => exact ⟨(List.filter_eq_self.mpr fun _ _ => rfl).symm, h⟩
  | cons config configs ih =>
    obtain ⟨report, -, hsplits, hprogram, -, hc⟩ := h.reload config
    obtain ⟨hfilter, hconsistent⟩ := ih hc
    refine ⟨?_, hconsistent⟩
    change ((s.reload config).2.reloads configs).program = _
    rw [hfilter, hprogram, hsplits.kept, List.filter_filter]
    exact List.filter_congr fun text _ => by simp [acceptedByAll, Bool.and_comm]

/-- Reloading filters the program and does nothing else to it. Each reload succeeds and reports
which clauses of the program before it the new ontology accepts and which it refuses, with the
reason. What is left in the end is what all the ontologies accept, in whichever order they come, and
another reload of the last one drops nothing. -/
theorem reload_filters (h : Reachable bounds s) (configs : List OntologyConfig) :
    (∀ before config after, configs = before ++ config :: after →
      ∃ report, ((s.reloads before).reload config).1 = .ok report ∧
        report.Splits (.ofConfig config) (s.reloads before).program ∧
        (s.reloads (before ++ [config])).program = report.kept) ∧
    (s.reloads configs).program = s.program.filter (acceptedByAll configs) ∧
    (∀ configs', configs.Perm configs' →
      (s.reloads configs').program = (s.reloads configs).program) ∧
    ∀ config, configs.getLast? = some config →
      ((s.reloads configs).reload config).1 = .ok ⟨(s.reloads configs).program, []⟩ := by
  have hc := h.consistent
  refine ⟨?_, (hc.reloads configs).1, ?_, ?_⟩
  · intro before config after _
    obtain ⟨report, hreport, hsplits, hprogram, -⟩ := (hc.reloads before).2.reload config
    exact ⟨report, hreport, hsplits, by simpa [reloads] using hprogram⟩
  · intro configs' hperm
    rw [(hc.reloads configs').1, (hc.reloads configs).1]
    exact List.filter_congr fun text _ => (acceptedByAll_perm hperm text).symm
  · intro config hlast
    obtain ⟨before, rfl⟩ := List.getLast?_eq_some_iff.mp hlast
    refine (hc.reloads _).2.reload_same ?_
    obtain ⟨-, -, -, -, hontology, -⟩ := (hc.reloads before).2.reload config
    simpa [reloads] using hontology

/-- Of four clauses, one ontology refuses a relationship, and another one with a synonym refuses a
type; a fact and the rule are left, whichever ontology comes first. -/
theorem reload_filters_polly :
    let texts := ["bird(polly).", "eats(polly, wanda).", "bird(X) :- pet(X).", "fish(wanda)."]
    let config : OntologyConfig := { types := ["bird", "fish", "pet"], relationships := ["eats"] }
    let typesOnly : OntologyConfig := { types := ["pet", "fish", "bird"] }
    let synonym : OntologyConfig :=
      { types := ["animal", "pet"], synonyms := .ofList [("bird", "animal")] }
    let s₀ : Session MemoryEngine := start "s" ⟨[], 1, 0, none⟩ 8 (some config) (.new {}) (.new {})
    let s := (s₀.loadInitial texts).toOption.getD s₀
    let s' := s.reloads [typesOnly, synonym]
    Reachable {} s ∧ s.program = texts ∧ s'.program = ["bird(polly).", "bird(X) :- pet(X)."] ∧
    (∃ report, (s.reload typesOnly).1 = .ok report ∧
      report.Splits (.ofConfig typesOnly) s.program ∧
      (s.reloads [typesOnly]).program = report.kept) ∧
    (s.reloads [synonym, typesOnly]).program = s'.program ∧
    (s'.reload synonym).1 = .ok ⟨s'.program, []⟩ := by
  intro texts config typesOnly synonym s₀ s s'
  have hstart : s₀.Consistent {} := start_consistent ..
  obtain ⟨s₁, hs₁, -⟩ := hstart.loadInitial texts
  have hs : s = s₁ := by simp only [s, hs₁, Except.toOption, Option.getD_some]
  have hreach : Reachable {} s := hs ▸ .create hs₁
  obtain ⟨hreports, -, hperm, hlast⟩ := reload_filters hreach [typesOnly, synonym]
  exact ⟨hreach, by decide +kernel, by decide +kernel, hreports [] typesOnly [synonym] rfl,
    hperm [synonym, typesOnly] (.swap ..), hlast synonym rfl⟩

end Session

end OntoLogic
