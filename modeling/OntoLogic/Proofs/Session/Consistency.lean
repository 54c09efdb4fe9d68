-- SUMMARY: Sessions over the engine in memory are consistent: program, ontology and theory agree.
import Mathlib.Tactic.Common
import OntoLogic.Engine.Memory
import OntoLogic.Generation.Script
import OntoLogic.Proofs.Resolution.Index
import OntoLogic.Proofs.Text.Trim
import OntoLogic.Session.Operation

/-!
# Consistency of sessions

A session keeps three things in step: the texts of its program, the ontology they are checked
against, and the engine that answers from them. It is consistent when the ontology allows every text
and the engine has loaded exactly these texts. A new session is consistent, and every operation
keeps it so, whatever comes of it.
-/

namespace OntoLogic

/-! ## Allowed texts -/

/-- A text without blanks at the ends that spells a clause which the ontology accepts. -/
def Ontology.Allows (o : Ontology) (text : String) : Prop :=
  Text.trim text = text ∧ ∃ c, o.validate text = .ok c

namespace Ontology

variable {o : Ontology} {text : String} {texts : List String}

theorem validate_iff {c : Clause} :
    o.validate text = .ok c ↔ Clause.parse text = .ok c ∧ o.checkClause c = .ok () := by
  unfold validate
  cases Clause.parse text with
  | error e => simp
  | ok d =>
    dsimp only
    rw [map_eq_ok]
    constructor
    · rintro ⟨_, hcheck, rfl⟩
      exact ⟨rfl, hcheck⟩
    · rintro ⟨⟨⟩, hcheck⟩
      exact ⟨(), hcheck, rfl⟩

theorem Allows.exists_parse (h : o.Allows text) : ∃ c, Clause.parse text = .ok c := by
  obtain ⟨-, c, hc⟩ := h
  exact ⟨c, (validate_iff.mp hc).1⟩

/-- What revalidation keeps is allowed. -/
theorem revalidate_kept_allowed : ∀ text ∈ (o.revalidate texts).kept, o.Allows text := by
  induction texts with
  | nil => intro text h; cases h
  | cons t ts ih =>
    intro text h
    simp only [revalidate] at h
    split at h
    · next c hc =>
      cases h with
      | head => exact ⟨Text.trim_trim t, c, hc⟩
      | tail _ h => exact ih text h
    · exact ih text h

end Ontology

/-! ## Loading -/

namespace Theory

variable {texts : List String} {T : Theory}

/-- Texts that all spell clauses are read. -/
theorem exists_readClauses (h : ∀ text ∈ texts, ∃ c, Clause.parse text = .ok c) :
    ∃ cs, readClauses texts = .ok cs := by
  induction texts with
  | nil => exact ⟨[], rfl⟩
  | cons t ts ih =>
    obtain ⟨c, hc⟩ := h t List.mem_cons_self
    obtain ⟨cs, hcs⟩ := ih fun text ht => h text (List.mem_cons_of_mem t ht)
    exact ⟨c :: cs, readClauses_cons.mpr ⟨c, cs, hc, hcs, rfl⟩⟩

theorem exists_load (h : ∀ text ∈ texts, ∃ c, Clause.parse text = .ok c) :
    ∃ T, load texts = .ok T := by
  obtain ⟨cs, hcs⟩ := exists_readClauses h
  exact ⟨_, load_iff.mpr ⟨cs, hcs, rfl⟩⟩

theorem texts_of_load (h : load texts = .ok T) : T.texts = texts.map Text.trim := by
  obtain ⟨cs, -, rfl⟩ := load_iff.mp h
  rfl

end Theory

/-! ## Consistent sessions -/

namespace Session

/-- Program, ontology and engine of a session agree. The engine has kept its bounds. -/
structure Consistent (bounds : Bounds) (s : Session MemoryEngine) : Prop where
  /-- The ontology allows the program. -/
  allowed : ∀ text ∈ s.program, s.ontology.Allows text
  /-- The engine has loaded the program. -/
  loaded : Theory.load s.program = .ok s.engine.theory
  bounds_eq : s.engine.bounds = bounds

variable {γ : Type} {bounds : Bounds} {s : Session MemoryEngine}

/-- The engine takes every program that some ontology allows, and the session may change to both. -/
theorem Consistent.assertAll {ontology : Ontology} {program : List String}
    (h : s.Consistent bounds) (hp : ∀ text ∈ program, ontology.Allows text) :
    ∃ engine, Engine.assertAll program s.engine = (.ok (), engine) ∧
      { s with ontology, program, engine }.Consistent bounds := by
  obtain ⟨T, hT⟩ := Theory.exists_load fun text ht => (hp text ht).exists_parse
  refine ⟨{ s.engine with theory := T }, ?_, ⟨hp, hT, h.bounds_eq⟩⟩
  simp [Engine.assertAll, MemoryEngine.assertAll, hT]

theorem Consistent.install {ontology : Ontology} {program : List String} (h : s.Consistent bounds)
    (hp : ∀ text ∈ program, ontology.Allows text) :
    ∃ s', s.install ontology program = (.ok (), s') ∧ s'.Consistent bounds := by
  obtain ⟨engine, hengine, hc⟩ := h.assertAll hp
  exact ⟨_, by simp [Session.install, hengine], hc⟩

/-- Replacing ontology and program always succeeds, as only allowed texts are kept. -/
theorem Consistent.replace (h : s.Consistent bounds) (ontology : Ontology)
    (candidates : List String) :
    ∃ s', s.replace ontology candidates = (.ok (ontology.revalidate candidates), s') ∧
      s'.Consistent bounds := by
  have hkept : ∀ text ∈ (ontology.revalidate candidates).kept, ontology.Allows text :=
    Ontology.revalidate_kept_allowed
  obtain ⟨s', hs', hc⟩ := h.install hkept
  exact ⟨s', by simp [Session.replace, hs', Except.map], hc⟩

theorem Consistent.replace_snd (h : s.Consistent bounds) (ontology : Ontology)
    (candidates : List String) : (s.replace ontology candidates).2.Consistent bounds := by
  obtain ⟨s', hs', hc⟩ := h.replace ontology candidates
  exact hs' ▸ hc

/-! ## New sessions -/

theorem start_consistent (id : String) (pipeline : Pipeline) (maxReasoningSteps : Nat)
    (ontology : Option OntologyConfig) (checker : MemoryEngine) :
    (start id pipeline maxReasoningSteps ontology checker (.new bounds)).Consistent bounds :=
  ⟨fun _ h => (by cases h), rfl, rfl⟩

/-- Loading the first program of a session always succeeds. -/
theorem Consistent.loadInitial (h : s.Consistent bounds) (program : List String) :
    ∃ s', s.loadInitial program = .ok s' ∧ s'.Consistent bounds := by
  unfold Session.loadInitial
  split
  · exact ⟨s, rfl, h⟩
  · obtain ⟨s', hs', hc⟩ := h.replace s.ontology program
    exact ⟨s', by simp [hs', Except.map], hc⟩

/-! ## Operations on the program -/

theorem Consistent.rebuild {program : List String} (h : s.Consistent bounds)
    (hp : ∀ text ∈ program, s.ontology.Allows text) :
    ∃ s', { s with program }.rebuild = (.ok (), s') ∧ s'.Consistent bounds := by
  obtain ⟨engine, hengine, hc⟩ := h.assertAll hp
  exact ⟨_, by simp [Session.rebuild, hengine, Except.mapError], hc⟩

theorem Consistent.append {text : String} (h : s.Consistent bounds) (ht : Text.trim text = text) :
    (s.append text).2.Consistent bounds := by
  unfold Session.append
  split
  · exact h
  · split
    · exact h
    · split
      · exact h
      · next c hc =>
        have hallowed : ∀ t ∈ s.program ++ [text], s.ontology.Allows t := by
          intro t hmem
          rcases List.mem_append.mp hmem with hold | hnew
          · exact h.allowed t hold
          · rw [List.mem_singleton.mp hnew]
            exact ⟨ht, c, hc⟩
        obtain ⟨s', hs', hconsistent⟩ := h.rebuild hallowed
        rw [hs']
        exact hconsistent

theorem assert_snd (clause : String) : (s.assert clause).2 = (s.append (Text.trim clause)).2 := by
  unfold Session.assert
  dsimp only
  split
  · next h => rw [h]
  · next h => rw [h]

theorem Consistent.assert (h : s.Consistent bounds) (clause : String) :
    (s.assert clause).2.Consistent bounds := by
  rw [assert_snd]
  exact h.append (Text.trim_trim clause)

theorem Consistent.addRule (h : s.Consistent bounds) (rule : String) :
    (s.addRule rule).2.Consistent bounds := by
  unfold Session.addRule
  dsimp only
  split
  · exact h.assert _
  · exact h

theorem Consistent.retract (h : s.Consistent bounds) (clause : String) :
    (s.retract clause).2.Consistent bounds := by
  unfold Session.retract
  dsimp only
  split
  · exact h
  · split
    · exact h
    · next position _ =>
      obtain ⟨s', hs', hconsistent⟩ :=
        h.rebuild fun t ht => h.allowed t (List.mem_of_mem_eraseIdx (i := position) ht)
      rw [hs']
      exact hconsistent

theorem Consistent.clear (h : s.Consistent bounds) : s.clear.2.Consistent bounds :=
  ⟨fun _ hmem => (by cases hmem), rfl, h.bounds_eq⟩

/-! ## Operations on the ontology -/

theorem Consistent.changeOntology (h : s.Consistent bounds) (ontology : Ontology) :
    (s.changeOntology ontology).2.Consistent bounds := by
  unfold Session.changeOntology
  split
  · exact h
  · exact h.replace_snd ontology s.program

theorem Consistent.changeWith (h : s.Consistent bounds) (change : Ontology → String → Ontology)
    (name : String) : (s.changeWith change name).2.Consistent bounds := by
  unfold Session.changeWith
  split
  · exact h.changeOntology _
  · exact h

theorem Consistent.addSynonym (h : s.Consistent bounds) (name canonical : String) :
    (s.addSynonym name canonical).2.Consistent bounds := by
  unfold Session.addSynonym
  split
  · exact h.changeOntology _
  · exact h
  · exact h

/-! ## Questions, statements and reasoning -/

section Questions

variable {σ : Type} [Engine σ] [GenerationService γ] {s : Session σ} {env : Environment (Option γ)}

theorem perform_assertStatement (text : String) : s.perform (.assertStatement text) env =
    (.assertion (s.assertStatement text env).1, (s.assertStatement text env).2) := by
  simp only [perform]

theorem perform_query (text : String) (allowFallback : Bool) :
    s.perform (.query text allowFallback) env =
      (.answer (s.query text allowFallback env).1, (s.query text allowFallback env).2) := by
  simp only [perform]

theorem perform_ask (text : String) (allowFallback : Bool) :
    s.perform (.ask text allowFallback) env =
      (.answer (s.ask text allowFallback env).1, (s.ask text allowFallback env).2) := by
  simp only [perform]

theorem perform_reason (task : String) (maxSteps : Option Nat) :
    s.perform (.reason task maxSteps) env =
      (.reasoning (s.reason task maxSteps env).1, (s.reason task maxSteps env).2) := by
  simp only [perform]

/-- A query leaves the session as it is, or as solving leaves it. -/
theorem query_cases (text : String) (allowFallback : Bool) (env : Environment (Option γ)) :
    (s.query text allowFallback env).2.1 = s ∨
    (s.query text allowFallback env).2.1 = (s.solve (Text.trim text) env).2.1 := by
  unfold Session.query
  dsimp only
  split
  · exact .inl rfl
  · split
    · exact .inl rfl
    · generalize s.solve (Text.trim text) env = r
      split
      · exact .inr rfl
      · exact .inr rfl
      · split
        · exact .inr rfl
        · split
          · exact .inr rfl
          · exact .inr rfl

/-- A question leaves the session as it is, or as a query leaves it. -/
theorem ask_cases (text : String) (allowFallback : Bool) (env : Environment (Option γ)) :
    (s.ask text allowFallback env).2.1 = s ∨ ∃ text' : String, ∃ env' : Environment (Option γ),
      (s.ask text allowFallback env).2.1 = (s.query text' allowFallback env').2.1 := by
  unfold Session.ask
  split
  · exact .inl rfl
  · next t env' _ =>
    generalize hquery : s.query t.content allowFallback env' = r
    split
    · exact .inr ⟨t.content, env', by rw [hquery]⟩
    · exact .inl rfl

end Questions

/-- The engine in memory is the same after it has answered. -/
theorem solve_session (text : String) (env : Environment (Option γ)) :
    (s.solve text env).2.1 = s := by
  unfold Session.solve
  split <;> rfl

variable [GenerationService γ]

theorem query_session (text : String) (allowFallback : Bool) (env : Environment (Option γ)) :
    (s.query text allowFallback env).2.1 = s := by
  obtain h | h := query_cases (s := s) text allowFallback env
  · exact h
  · exact h.trans (solve_session _ env)

theorem ask_session (text : String) (allowFallback : Bool) (env : Environment (Option γ)) :
    (s.ask text allowFallback env).2.1 = s := by
  obtain h | ⟨text', env', h⟩ := ask_cases (s := s) text allowFallback env
  · exact h
  · exact h.trans (query_session text' allowFallback env')

theorem Consistent.assertStatement (h : s.Consistent bounds) (text : String)
    (env : Environment (Option γ)) : (s.assertStatement text env).2.1.Consistent bounds := by
  unfold Session.assertStatement
  split
  · exact h
  · next t _ _ =>
    have hassert := h.assert t.content
    generalize s.assert t.content = r at hassert ⊢
    split
    · exact h
    · exact hassert

/-- Each step of a chain of reasoning leaves a consistent session to the next. -/
theorem Consistent.reasonFrom (task : String) (left : Nat) (chain : ReasoningChain)
    (h : s.Consistent bounds) (env : Environment (Option γ)) :
    (s.reasonFrom task left chain env).2.1.Consistent bounds := by
  induction left generalizing s chain env with
  | zero => exact h
  | succ left ih =>
    unfold Session.reasonFrom
    split
    · exact h
    · next env' _ =>
      split
      · exact ih _ h _
      · exact h
      · next content _ =>
        have hquery := query_session (s := s) content false env'
        generalize s.query content false env' = r at hquery ⊢
        exact ih _ (hquery.symm ▸ h) _
      · next content _ =>
        have hassert := h.assert content
        generalize s.assert content = r at hassert ⊢
        exact ih _ hassert _

theorem Consistent.reason (h : s.Consistent bounds) (task : String) (maxSteps : Option Nat)
    (env : Environment (Option γ)) : (s.reason task maxSteps env).2.1.Consistent bounds := by
  unfold Session.reason
  dsimp only
  split
  · exact h
  · split
    · exact h
    · split
      · exact h
      · exact h.reasonFrom _ _ _ _

/-! ## Runs -/

/-- One operation keeps a session consistent. -/
theorem Consistent.perform (h : s.Consistent bounds) (op : Operation)
    (env : Environment (Option γ)) : (s.perform op env).2.1.Consistent bounds := by
  cases op with
  | assert clause => simpa only [Session.perform] using h.assert clause
  | assertStatement text =>
    simpa only [perform_assertStatement] using h.assertStatement text env
  | addFact entity type => simpa only [Session.perform, Session.addFact] using h.assert _
  | addRelationship subject relation object =>
    simpa only [Session.perform, Session.addRelationship] using h.assert _
  | addRule rule => simpa only [Session.perform] using h.addRule rule
  | retract clause => simpa only [Session.perform] using h.retract clause
  | removeFact entity type => simpa only [Session.perform, Session.removeFact] using h.retract _
  | removeRelationship subject relation object =>
    simpa only [Session.perform, Session.removeRelationship] using h.retract _
  | query text allowFallback => simpa only [perform_query, query_session] using h
  | ask text allowFallback => simpa only [perform_ask, ask_session] using h
  | reason task maxSteps => simpa only [perform_reason] using h.reason task maxSteps env
  | reload config => simpa only [Session.perform, Session.reload] using h.replace_snd _ _
  | load snapshot => simpa only [Session.perform, Session.load] using h.replace_snd _ _
  | addType name => simpa only [Session.perform, Session.addType] using h.changeWith _ name
  | addRelationshipType name =>
    simpa only [Session.perform, Session.addRelationshipType] using h.changeWith _ name
  | addConstraint name =>
    simpa only [Session.perform, Session.addConstraint] using h.changeWith _ name
  | addSynonym name canonical => simpa only [Session.perform] using h.addSynonym name canonical
  | clear => simpa only [Session.perform] using h.clear

/-- A session over the engine in memory that has been created and has carried out operations. Each
operation has an environment of its own: a service, a deadline, perhaps a cancellation. -/
inductive Reachable (bounds : Bounds) : Session MemoryEngine → Prop
  | create {id : String} {pipeline : Pipeline} {maxReasoningSteps : Nat}
      {ontology : Option OntologyConfig} {checker : MemoryEngine} {program : List String}
      {s : Session MemoryEngine}
      (h : (start id pipeline maxReasoningSteps ontology checker (.new bounds)).loadInitial program
        = .ok s) : Reachable bounds s
  | perform {γ : Type} [GenerationService γ] {s : Session MemoryEngine} (op : Operation)
      (env : Environment (Option γ)) (h : Reachable bounds s) :
      Reachable bounds (s.perform op env).2.1

theorem Reachable.consistent (h : Reachable bounds s) : s.Consistent bounds := by
  induction h with
  | create h =>
    obtain ⟨s', hs', hc⟩ := (start_consistent _ _ _ _ _).loadInitial _
    rw [hs'] at h
    cases h
    exact hc
  | perform op env _ ih => exact ih.perform op env

/-- Whatever the history of a session, the ontology accepts every text of its program, the engine
has loaded exactly the program, and a fresh engine that loads the program answers every query
alike. -/
theorem engine_holds_program (h : Reachable bounds s) :
    (∀ text ∈ s.program, Text.trim text = text ∧ ∃ c, s.ontology.validate text = .ok c) ∧
    Theory.load s.program = .ok s.engine.theory ∧
    Engine.render s.engine = "\n".intercalate s.program ∧
    ∀ text, s.engine.solve text = ((MemoryEngine.new bounds).assertAll s.program).2.solve text := by
  obtain ⟨hallowed, hloaded, hbounds⟩ := h.consistent
  refine ⟨hallowed, hloaded, ?_, ?_⟩
  · have htrim : s.program.map Text.trim = s.program :=
      List.map_congr_left (fun text ht => (hallowed text ht).1) |>.trans (List.map_id _)
    show "\n".intercalate s.engine.theory.texts = _
    rw [Theory.texts_of_load hloaded, htrim]
  · intro text
    simp only [MemoryEngine.assertAll, hloaded, MemoryEngine.new, ← hbounds]

/-- A session that has been created with an ontology and has taken an assertion with blanks. -/
theorem engine_holds_asserted_fact :
    let s₀ : Session MemoryEngine :=
      start "s" ⟨[], 1, 0, none⟩ 8 (some { types := ["bird"] }) (.new {}) (.new {})
    let env : Environment (Option ScriptedGenerator) := ⟨none, 0, none, false, .placeholder⟩
    let s := (s₀.perform (.assert " bird(tweety). ") env).2.1
    s.program = ["bird(tweety)."] ∧ Reachable {} s ∧
    (∀ text ∈ s.program, Text.trim text = text ∧ ∃ c, s.ontology.validate text = .ok c) ∧
    Theory.load s.program = .ok s.engine.theory ∧
    Engine.render s.engine = "\n".intercalate s.program ∧
    ∀ text, s.engine.solve text = ((MemoryEngine.new {}).assertAll s.program).2.solve text := by
  intro s₀ env s
  have hcreate : s₀.loadInitial [] = .ok s₀ := rfl
  have hreach : Reachable {} s := .perform _ env (.create hcreate)
  exact ⟨by decide +kernel, hreach, engine_holds_program hreach⟩

end Session

end OntoLogic
