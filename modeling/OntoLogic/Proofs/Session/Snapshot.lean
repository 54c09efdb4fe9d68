-- SUMMARY: A saved session survives its JSON form, and loading it makes a session answer alike.
import OntoLogic.Proofs.Json.Indented
import OntoLogic.Proofs.Session.Reload
import OntoLogic.Session.Snapshot

/-!
# Saving and loading

Every snapshot is read back from its written form, given that its time is. What is saved of a
consistent session is allowed by its own ontology, so loading it drops nothing, and as an engine is
determined by its bounds and the program it has loaded, both sessions then answer alike.
-/

namespace OntoLogic

/-! ## Descriptions of ontologies -/

namespace OntologyConfig

def source (c : OntologyConfig) : Json.Source :=
  .object [(some "types", .texts c.types), (some "relationships", .texts c.relationships),
    (some "constraints", .texts c.constraints), (some "synonyms", .textMap c.synonyms)]

theorem reads_toJson (c : OntologyConfig) : c.toJson.Reads c.source := by
  refine .object ?_
  exact .cons ⟨rfl, Json.reads_strings _⟩ (.cons ⟨rfl, Json.reads_strings _⟩
    (.cons ⟨rfl, Json.reads_strings _⟩ (.cons ⟨rfl, Json.reads_textMap _⟩ .nil)))

theorem ofSource?_source (levels : Nat) (c : OntologyConfig) :
    ofSource? (levels + 2) c.source = some c := by
  simp [ofSource?, source, Json.Source.toFields?, Json.Source.uniqueField?, Json.Source.fieldOr,
    Json.Source.toTexts?_texts, Json.Source.toTextMap?_textMap]

end OntologyConfig

/-! ## Snapshots -/

namespace Snapshot

def source (s : Snapshot) : Json.Source :=
  .object <|
    [(some "sessionId", .string (some s.sessionId)), (some "program", .texts s.program),
      (some "ontology", s.ontology.source)] ++
    match s.savedAt with
    | none => []
    | some time => [(some "savedAt", .string (some time.text))]

theorem reads_toJson (s : Snapshot) : s.toJson.Reads s.source := by
  refine .object ?_
  refine .cons ⟨rfl, .string _⟩ (.cons ⟨rfl, Json.reads_strings _⟩
    (.cons ⟨rfl, s.ontology.reads_toJson⟩ ?_))
  cases s.savedAt with
  | none => exact .nil
  | some time => exact .cons ⟨rfl, .string _⟩ .nil

theorem ofSource?_source (levels : Nat) (s : Snapshot)
    (htime : ∀ time ∈ s.savedAt, Timestamp.ofString? time.text = some time) :
    ofSource? (levels + 3) s.source = some s := by
  obtain ⟨sessionId, program, ontology, savedAt⟩ := s
  cases savedAt with
  | none =>
    simp [ofSource?, source, Json.Source.toFields?, Json.Source.uniqueField?, Json.Source.fieldOr,
      Json.Source.toText?, Json.Source.toTexts?_texts, OntologyConfig.ofSource?_source]
  | some time =>
    simp [ofSource?, source, Json.Source.toFields?, Json.Source.uniqueField?, Json.Source.fieldOr,
      Json.Source.toText?, Json.Source.toTexts?_texts, OntologyConfig.ofSource?_source, timestamp?,
      htime time rfl]

/-- The written form of a snapshot is read as the snapshot, when the time in it is. -/
theorem ofJson?_text (s : Snapshot)
    (htime : ∀ time ∈ s.savedAt, Timestamp.ofString? time.text = some time) :
    ofJson? s.text = some s := by
  rw [ofJson?, text, s.reads_toJson.read_indented]
  exact ofSource?_source 124 s htime

end Snapshot

/-! ## Sessions -/

namespace Session

section

variable {σ γ : Type} [Engine σ] [GenerationService γ] {s t : Session σ}

omit [GenerationService γ] in
theorem solve_congr (h : t.engine = s.engine) (text : String) (env : Environment (Option γ)) :
    ∃ answer engine env', s.solve text env = (answer, { s with engine }, env') ∧
      t.solve text env = (answer, { t with engine }, env') := by
  unfold solve
  rw [h]
  cases env.calledOff with
  | true => exact ⟨none, s.engine, env, rfl, by rw [← h]; rfl⟩
  | false => exact ⟨_, _, _, rfl, rfl⟩

/-- The answer to a query depends on nothing of a session but the engine. -/
theorem query_congr (h : t.engine = s.engine) (text : String) (allowFallback : Bool)
    (env : Environment (Option γ)) :
    (t.query text allowFallback env).1 = (s.query text allowFallback env).1 := by
  obtain ⟨answer, engine, env', hs, ht⟩ := solve_congr h (Text.trim text) env
  unfold query
  dsimp only
  rw [hs, ht]
  split
  · rfl
  split
  · rfl
  cases answer with
  | none => rfl
  | some found =>
    cases found with
    | error e => rfl
    | ok found =>
      dsimp only
      split
      · rfl
      split
      · rfl
      · rfl

end

variable {bounds : Bounds} {s t : Session MemoryEngine}

/-- A session answers from its program, whatever has been done before. -/
theorem Consistent.engine_eq (hs : s.Consistent bounds) (ht : t.Consistent bounds)
    (hprogram : t.program = s.program) : t.engine = s.engine := by
  have hloaded := ht.loaded
  rw [hprogram, hs.loaded, Except.ok.injEq] at hloaded
  have hbounds : t.engine.bounds = s.engine.bounds := ht.bounds_eq.trans hs.bounds_eq.symm
  calc t.engine = ⟨t.engine.bounds, t.engine.theory⟩ := rfl
    _ = ⟨s.engine.bounds, s.engine.theory⟩ := by rw [hbounds, hloaded]

/-- Loading what was saved of a consistent session drops nothing. -/
theorem Consistent.load_save (ht : t.Consistent bounds) (hs : s.Consistent bounds)
    (time : Timestamp) :
    ∃ t', t.load (s.save time) = (.ok ⟨s.program, []⟩, t') ∧ t'.Consistent bounds ∧
      t'.program = s.program ∧ t'.ontology = s.ontology ∧ t'.id = t.id := by
  obtain ⟨t', ht', hc⟩ := ht.replace s.ontology s.program
  obtain ⟨-, heq⟩ := replace_ok ht'
  rw [Ontology.revalidate_of_allows hs.allowed] at ht' heq
  refine ⟨t', ?_, hc, by rw [heq], by rw [heq], by rw [heq]⟩
  simp only [load, save, Ontology.ofConfig_config]
  exact ht'

/-- What is saved of a session is read back from its written form, if the time of saving is. Another
session that loads it reports every clause as kept and then has the program and the ontology of the
first one and the same solutions of every query; only its id stays its own. -/
theorem save_load (hs : Reachable bounds s) (ht : Reachable bounds t) (time : Timestamp) :
    (Timestamp.ofString? time.text = some time →
      Snapshot.ofJson? (s.save time).text = some (s.save time)) ∧
    ∃ t', t.load (s.save time) = (.ok ⟨s.program, []⟩, t') ∧
      t'.program = s.program ∧ t'.ontology = s.ontology ∧ t'.id = t.id ∧
      (∀ text, t'.engine.solve text = s.engine.solve text) ∧
      ∀ (γ : Type) [GenerationService γ] (text : String) (allowFallback : Bool)
        (env : Environment (Option γ)),
        (t'.query text allowFallback env).1 = (s.query text allowFallback env).1 := by
  refine ⟨fun htime => Snapshot.ofJson?_text _ ?_, ?_⟩
  · rintro _ ⟨rfl⟩
    exact htime
  · obtain ⟨t', hload, hc, hprogram, hontology, hid⟩ := ht.consistent.load_save hs.consistent time
    have hengine := hs.consistent.engine_eq hc hprogram
    exact ⟨t', hload, hprogram, hontology, hid, fun text => by rw [hengine],
      fun γ _ text allowFallback env => query_congr hengine text allowFallback env⟩

/-- A session with a quote in one of its facts and a session with other facts, into which it is
loaded. -/
theorem save_load_polly :
    let texts := ["bird(polly).", "says(polly, 'a \"b').", "animal(X) :- bird(X)."]
    let config : OntologyConfig :=
      { types := ["bird", "animal"], relationships := ["says"],
        synonyms := .ofList [("parrot", "bird")] }
    let s₀ : Session MemoryEngine := start "s" ⟨[], 1, 0, none⟩ 8 (some config) (.new {}) (.new {})
    let s := (s₀.loadInitial texts).toOption.getD s₀
    let t₀ : Session MemoryEngine :=
      start "t" ⟨[], 1, 0, none⟩ 8 (some { types := ["fish"] }) (.new {}) (.new {})
    let t := (t₀.loadInitial ["fish(wanda)."]).toOption.getD t₀
    let time : Timestamp := ⟨1700000000, 250000000⟩
    Reachable {} s ∧ s.program = texts ∧ Reachable {} t ∧ t.program = ["fish(wanda)."] ∧
    Timestamp.ofString? time.text = some time ∧
    Snapshot.ofJson? (s.save time).text = some (s.save time) ∧
    ∃ t', t.load (s.save time) = (.ok ⟨s.program, []⟩, t') ∧
      t'.program = s.program ∧ t'.ontology = s.ontology ∧ t'.id = t.id ∧
      (∀ text, t'.engine.solve text = s.engine.solve text) ∧
      ∀ (γ : Type) [GenerationService γ] (text : String) (allowFallback : Bool)
        (env : Environment (Option γ)),
        (t'.query text allowFallback env).1 = (s.query text allowFallback env).1 := by
  intro texts config s₀ s t₀ t time
  have hs₀ : s₀.Consistent {} := start_consistent ..
  have ht₀ : t₀.Consistent {} := start_consistent ..
  obtain ⟨s₁, hs₁, -⟩ := hs₀.loadInitial texts
  obtain ⟨t₁, ht₁, -⟩ := ht₀.loadInitial ["fish(wanda)."]
  have hs : s = s₁ := by simp only [s, hs₁, Except.toOption, Option.getD_some]
  have ht : t = t₁ := by simp only [t, ht₁, Except.toOption, Option.getD_some]
  have hreach : Reachable {} s := hs ▸ .create hs₁
  have hreach' : Reachable {} t := ht ▸ .create ht₁
  have htime : Timestamp.ofString? time.text = some time := by decide +kernel
  obtain ⟨hread, hload⟩ := save_load hreach hreach' time
  exact ⟨hreach, by decide +kernel, hreach', by decide +kernel, htime, hread htime, hload⟩

end Session

end OntoLogic
