-- SUMMARY: An operation of a session that fails changes nothing.
import Mathlib.Data.List.InsertIdx
import OntoLogic.Engine.Memory
import OntoLogic.Engine.Unreliable
import OntoLogic.Generation.Script
import OntoLogic.Session.Operation

/-!
# Operations that fail

Some operations change the program first and take the change back when the engine refuses it, others
let the engine load a program before anything else is changed. An engine may refuse at any call, and
only has to keep its theory when it does. Then an operation that fails, for whatever reason, leaves
program, ontology and theory as they were.
-/

namespace OntoLogic

variable {σ τ γ : Type} [Engine σ]

/-! ## Engines -/

/-- An engine that keeps its theory when it fails to replace or to remove it. What counts as its
theory is up to the engine. -/
structure Engine.Keeps (theory : σ → τ) : Prop where
  assertAll : ∀ {texts e error e'}, Engine.assertAll texts e = (.error error, e') →
    theory e' = theory e
  clear : ∀ {e error e'}, Engine.clear e = (.error error, e') → theory e' = theory e

theorem MemoryEngine.keeps : Engine.Keeps MemoryEngine.theory where
  assertAll := by
    intro texts e error e' h
    change MemoryEngine.assertAll texts e = _ at h
    unfold MemoryEngine.assertAll at h
    split at h
    · cases h
    · cases h
      rfl
  clear h := by cases h

/-- An engine that fails on plan keeps what the engine behind it keeps. -/
theorem UnreliableEngine.keeps {theory : σ → τ} (h : Engine.Keeps theory) :
    Engine.Keeps fun e : UnreliableEngine σ => theory e.engine where
  assertAll := by
    intro texts e error e' hcall
    change UnreliableEngine.assertAll texts e = _ at hcall
    unfold UnreliableEngine.assertAll at hcall
    dsimp only at hcall
    split at hcall
    · cases hcall
      rfl
    · obtain ⟨hresult, rfl⟩ := Prod.mk.inj hcall
      exact h.assertAll (Prod.ext hresult rfl)
  clear := by
    intro e error e' hcall
    change UnreliableEngine.clear e = _ at hcall
    unfold UnreliableEngine.clear at hcall
    dsimp only at hcall
    split at hcall
    · cases hcall
      rfl
    · obtain ⟨hresult, rfl⟩ := Prod.mk.inj hcall
      exact h.clear (Prod.ext hresult rfl)

/-! ## Operations -/

namespace Session

/-- At most the engine of a session has changed, and not its theory. -/
def Unchanged (theory : σ → τ) (s s' : Session σ) : Prop :=
  ∃ engine, theory engine = theory s.engine ∧ s' = { s with engine }

variable {theory : σ → τ} {s s' : Session σ} {e : SessionError}

omit [Engine σ] in
theorem Unchanged.refl (s : Session σ) : s.Unchanged theory s :=
  ⟨s.engine, rfl, rfl⟩

theorem Unchanged.rebuild_error (h : Engine.Keeps theory) (hfail : s.rebuild = (.error e, s')) :
    s.Unchanged theory s' := by
  unfold rebuild at hfail
  cases hcall : Engine.assertAll s.program s.engine with
  | mk result engine =>
    rw [hcall] at hfail
    cases result with
    | ok => cases hfail
    | error error =>
      cases hfail
      exact ⟨engine, h.assertAll hcall, rfl⟩

theorem Unchanged.replace (h : Engine.Keeps theory) (ontology : Ontology) (candidates : List String)
    (hfail : (s.replace ontology candidates).1.isOk = false) :
    s.Unchanged theory (s.replace ontology candidates).2 := by
  unfold Session.replace install at hfail ⊢
  dsimp only at hfail ⊢
  cases hcall : Engine.assertAll (ontology.revalidate candidates).kept s.engine with
  | mk result engine =>
    rw [hcall] at hfail
    cases result with
    | ok => cases hfail
    | error error => exact ⟨engine, h.assertAll hcall, rfl⟩

/-- A text that is taken back was the last one of the program. -/
theorem Unchanged.append (h : Engine.Keeps theory) (text : String)
    (hfail : (s.append text).1.isOk = false) : s.Unchanged theory (s.append text).2 := by
  unfold Session.append at hfail ⊢
  split
  · exact .refl s
  · split
    · exact .refl s
    · split
      · exact .refl s
      · split
        · next hrebuild => simp_all [Except.isOk, Except.toBool]
        · next hrebuild =>
          obtain ⟨engine, htheory, rfl⟩ := Unchanged.rebuild_error h hrebuild
          exact ⟨engine, htheory, by simp⟩

theorem Unchanged.assert (h : Engine.Keeps theory) (clause : String)
    (hfail : (s.assert clause).1.succeeds = false) : s.Unchanged theory (s.assert clause).2 := by
  have happend := Unchanged.append (s := s) h (Text.trim clause)
  unfold Session.assert at hfail ⊢
  dsimp only at hfail ⊢
  split
  · next hok => simp [hok, AssertionResult.succeeds, AssertionResult.asserted] at hfail
  · next herror =>
    rw [herror] at happend
    exact happend rfl

theorem Unchanged.addRule (h : Engine.Keeps theory) (rule : String)
    (hfail : (s.addRule rule).1.succeeds = false) : s.Unchanged theory (s.addRule rule).2 := by
  unfold Session.addRule at hfail ⊢
  dsimp only at hfail ⊢
  split
  · next hrule =>
    rw [if_pos hrule] at hfail
    exact Unchanged.assert h _ hfail
  · exact .refl s

/-- A clause that is put back takes its old place. -/
theorem Unchanged.retract (h : Engine.Keeps theory) (clause : String)
    (hfail : (s.retract clause).1.isOk = false) : s.Unchanged theory (s.retract clause).2 := by
  unfold Session.retract at hfail ⊢
  dsimp only at hfail ⊢
  split
  · exact .refl s
  · split
    · exact .refl s
    · next removed position hfind =>
      split
      · next hrebuild => simp_all [Except.isOk, Except.toBool]
      · next hrebuild =>
        obtain ⟨engine, htheory, rfl⟩ := Unchanged.rebuild_error h hrebuild
        have hremoved : s.program[position]? = some removed :=
          List.mk_mem_zipIdx_iff_getElem?.mp (List.mem_of_find?_eq_some hfind)
        obtain ⟨hposition, rfl⟩ := List.getElem?_eq_some_iff.mp hremoved
        refine ⟨engine, htheory, ?_⟩
        simp only [List.insertIdx_eraseIdx_getElem hposition]

theorem Unchanged.clear (h : Engine.Keeps theory) (hfail : s.clear.1.isOk = false) :
    s.Unchanged theory s.clear.2 := by
  unfold Session.clear at hfail ⊢
  cases hcall : Engine.clear s.engine with
  | mk result engine =>
    rw [hcall] at hfail
    cases result with
    | ok => cases hfail
    | error error => exact ⟨engine, h.clear hcall, rfl⟩

theorem Unchanged.changeOntology (h : Engine.Keeps theory) (ontology : Ontology)
    (hfail : (s.changeOntology ontology).1.isOk = false) :
    s.Unchanged theory (s.changeOntology ontology).2 := by
  unfold Session.changeOntology at hfail ⊢
  split
  · exact .refl s
  · next hnew =>
    rw [if_neg hnew] at hfail
    exact .replace h ontology s.program hfail

theorem Unchanged.changeWith (h : Engine.Keeps theory) (change : Ontology → String → Ontology)
    (name : String) (hfail : (s.changeWith change name).1.isOk = false) :
    s.Unchanged theory (s.changeWith change name).2 := by
  unfold Session.changeWith at hfail ⊢
  split
  · next hname =>
    rw [hname] at hfail
    exact .changeOntology h _ hfail
  · exact .refl s

theorem Unchanged.addSynonym (h : Engine.Keeps theory) (name canonical : String)
    (hfail : (s.addSynonym name canonical).1.isOk = false) :
    s.Unchanged theory (s.addSynonym name canonical).2 := by
  unfold Session.addSynonym at hfail ⊢
  split
  · next hname hcanonical =>
    rw [hname, hcanonical] at hfail
    exact .changeOntology h _ hfail
  · exact .refl s
  · exact .refl s

theorem Unchanged.assertStatement [GenerationService γ] (h : Engine.Keeps theory) (text : String)
    (env : Environment (Option γ)) (hfail : (s.assertStatement text env).1.succeeds = false) :
    s.Unchanged theory (s.assertStatement text env).2.1 := by
  unfold Session.assertStatement at hfail ⊢
  split
  · exact .refl s
  · next t env' htranslate =>
    have hassert := Unchanged.assert (s := s) h t.content
    rw [htranslate] at hfail
    cases hcall : s.assert t.content with
    | mk r s' =>
      rw [hcall] at hassert
      split
      · exact .refl s
      · next hkind =>
        simp only [if_neg hkind, hcall] at hfail
        exact hassert hfail

end Session

/-! ## Responses -/

/-- Whether an operation changes program and ontology at one stroke. A question changes neither, and
a chain of reasoning is made of many operations. -/
def Operation.isUpdate : Operation → Bool
  | .query .. | .ask .. | .reason .. => false
  | _ => true

/-- Whether an operation reports no failure. -/
def Response.succeeds : Response → Bool
  | .assertion r => r.succeeds
  | .removal r => r.isOk
  | .answer r => r.verdict.succeeds
  | .reasoning r => r.isOk
  | .report r => r.isOk
  | .done r => r.isOk

namespace Session

variable {theory : σ → τ} {s : Session σ}

theorem Unchanged.perform [GenerationService γ] (h : Engine.Keeps theory) (op : Operation)
    (env : Environment (Option γ)) (hop : op.isUpdate = true)
    (hfail : (s.perform op env).1.succeeds = false) :
    s.Unchanged theory (s.perform op env).2.1 := by
  cases op with
  | query | ask | reason => cases hop
  | assert clause =>
    simp only [Session.perform, Response.succeeds] at hfail ⊢
    exact .assert h clause hfail
  | assertStatement text =>
    have hsession : (s.perform (.assertStatement text) env).2.1 =
        (s.assertStatement text env).2.1 := by simp only [Session.perform]
    simp only [Session.perform, Response.succeeds] at hfail
    rw [hsession]
    exact .assertStatement h text env hfail
  | addFact entity type =>
    simp only [Session.perform, Session.addFact, Response.succeeds] at hfail ⊢
    exact .assert h _ hfail
  | addRelationship subject relation object =>
    simp only [Session.perform, Session.addRelationship, Response.succeeds] at hfail ⊢
    exact .assert h _ hfail
  | addRule rule =>
    simp only [Session.perform, Response.succeeds] at hfail ⊢
    exact .addRule h rule hfail
  | retract clause =>
    simp only [Session.perform, Response.succeeds] at hfail ⊢
    exact .retract h clause hfail
  | removeFact entity type =>
    simp only [Session.perform, Session.removeFact, Response.succeeds] at hfail ⊢
    exact .retract h _ hfail
  | removeRelationship subject relation object =>
    simp only [Session.perform, Session.removeRelationship, Response.succeeds] at hfail ⊢
    exact .retract h _ hfail
  | reload config =>
    simp only [Session.perform, Session.reload, Response.succeeds] at hfail ⊢
    exact .replace h _ _ hfail
  | load snapshot =>
    simp only [Session.perform, Session.load, Response.succeeds] at hfail ⊢
    exact .replace h _ _ hfail
  | addType name =>
    simp only [Session.perform, Session.addType, Response.succeeds] at hfail ⊢
    exact .changeWith h _ name hfail
  | addRelationshipType name =>
    simp only [Session.perform, Session.addRelationshipType, Response.succeeds] at hfail ⊢
    exact .changeWith h _ name hfail
  | addConstraint name =>
    simp only [Session.perform, Session.addConstraint, Response.succeeds] at hfail ⊢
    exact .changeWith h _ name hfail
  | addSynonym name canonical =>
    simp only [Session.perform, Response.succeeds] at hfail ⊢
    exact .addSynonym h name canonical hfail
  | clear =>
    simp only [Session.perform, Response.succeeds] at hfail ⊢
    exact .clear h hfail

/-- When an update fails, for whatever reason, the program, the ontology and the theory of the
engine are what they were, and so is everything else about the session but what is private to the
engine. -/
theorem perform_failed [GenerationService γ] (hengine : Engine.Keeps theory)
    (op : Operation) (s : Session σ) (env : Environment (Option γ)) (hop : op.isUpdate = true)
    (hfail : (s.perform op env).1.succeeds = false) :
    let s' := (s.perform op env).2.1
    s'.program = s.program ∧ s'.ontology = s.ontology ∧ theory s'.engine = theory s.engine ∧
      s' = { s with engine := s'.engine } := by
  obtain ⟨engine, htheory, hs'⟩ := Unchanged.perform hengine op env hop hfail
  rw [hs']
  exact ⟨rfl, rfl, htheory, rfl⟩

/-- The engine refuses to load the program without its second clause, which is put back. -/
theorem perform_failed_retract :
    let plan : FaultPlan := { assertAll := { backend := [1] } }
    let engine : UnreliableEngine MemoryEngine := ⟨.new {}, plan, 0, 0, 0⟩
    let theory : UnreliableEngine MemoryEngine → Theory := fun e => e.engine.theory
    let config : OntologyConfig := { types := ["bird", "fish"] }
    let env : Environment (Option ScriptedGenerator) := ⟨none, 0, none, false, .placeholder⟩
    let s := ((start "s" ⟨[], 1, 0, none⟩ 8 (some config) engine engine).load
      ⟨"t", ["bird(tweety).", "fish(wanda).", "bird(polly)."], config, default⟩).2
    let s' := (s.perform (.retract "fish( wanda ).") env).2.1
    s.program = ["bird(tweety).", "fish(wanda).", "bird(polly)."] ∧
    (s.perform (.retract "fish( wanda ).") env).1.succeeds = false ∧
    s'.engine.assertCalls = s.engine.assertCalls + 1 ∧
    s'.program = s.program ∧ s'.ontology = s.ontology ∧ theory s'.engine = theory s.engine ∧
    s' = { s with engine := s'.engine } := by
  intro plan engine theory config env s s'
  have hengine : Engine.Keeps theory := UnreliableEngine.keeps MemoryEngine.keeps
  have hprogram : s.program = ["bird(tweety).", "fish(wanda).", "bird(polly)."] := by decide +kernel
  have hfail : (s.perform (.retract "fish( wanda ).") env).1.succeeds = false := by decide +kernel
  have hcalls : s'.engine.assertCalls = s.engine.assertCalls + 1 := by decide +kernel
  have hunchanged := perform_failed hengine (.retract "fish( wanda ).") s env rfl hfail
  -- The session is not to be computed again.
  clear_value s
  exact ⟨hprogram, hfail, hcalls, hunchanged⟩

end Session

end OntoLogic
