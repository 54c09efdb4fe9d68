-- SUMMARY: The program of a session follows the log of what has been loaded and asserted.
import OntoLogic.Proofs.Session.Effect
import OntoLogic.Session.Graph

/-!
# The history of a program

The log of a session is what the last load has kept, and after it the texts of all assertions that
have succeeded since, in order. It is no part of the session. The program is always a subsequence of
the log: clauses are added at the end only, and everything else takes clauses away and keeps the
others in their order.

Again nothing is asked of the engine, which may refuse any program at any time.
-/

namespace OntoLogic

variable {σ γ : Type} [Engine σ]

/-! ## Requests -/

/-- What can be asked of a session: to carry out an operation, or to show what it holds. -/
inductive Request where
  | operation (op : Operation)
  | save (time : Timestamp)
  | graph

inductive Request.Result where
  | response (response : Response)
  | snapshot (snapshot : Snapshot)
  | graph (graph : KnowledgeGraph)

def Request.isQuestion : Request → Bool
  | .operation (.query ..) | .operation (.ask ..) | .save _ | .graph => true
  | .operation _ => false

/-- The log after an operation with a response, which has asserted some texts: what a load keeps,
nothing when the program is cleared, and otherwise the log before it and the texts. -/
def Operation.logAfter (op : Operation) (response : Response) (texts log : List String) :
    List String :=
  match op, response with
  | .load _, .report (.ok report) => report.kept
  | .clear, .done (.ok ()) => []
  | _, _ => log ++ texts

/-- The log loses nothing unless a state is loaded or the program is cleared. -/
theorem Operation.logAfter_eq {op : Operation} {response : Response} {texts log : List String}
    (hload : ∀ snapshot report, op = .load snapshot → response ≠ .report (.ok report))
    (hclear : op = .clear → response ≠ .done (.ok ())) :
    op.logAfter response texts log = log ++ texts := by
  unfold logAfter
  split
  · exact absurd rfl (hload _ _ rfl)
  · exact absurd rfl (hclear rfl)
  · rfl

namespace Session

variable [GenerationService γ]

def serve (request : Request) (s : Session σ) (env : Environment (Option γ)) :
    Request.Result × Session σ × Environment (Option γ) :=
  match request with
  | .operation op => let (r, s, env) := s.perform op env; (.response r, s, env)
  | .save time => (.snapshot (s.save time), s, env)
  | .graph => (.graph s.graph, s, env)

theorem serve_operation (op : Operation) (s : Session σ) (env : Environment (Option γ)) :
    (s.serve (.operation op) env).2.1 = (s.perform op env).2.1 := by
  simp only [serve]

def logAfter (request : Request) (s : Session σ) (env : Environment (Option γ))
    (log : List String) : List String :=
  match request with
  | .operation op =>
    let response := (s.perform op env).1
    op.logAfter response (s.assertions op response env) log
  | .save _ | .graph => log

omit [GenerationService γ] in
/-- A session that has been created and has served requests, with its log. -/
inductive Logged : List String → Session σ → Prop
  | create {id : String} {pipeline : Pipeline} {maxReasoningSteps : Nat}
      {ontology : Option OntologyConfig} {checker engine : σ} {program : List String}
      {s : Session σ}
      (h : (start id pipeline maxReasoningSteps ontology checker engine).loadInitial program
        = .ok s) :
      Logged ((Ontology.ofConfig (ontology.getD {})).revalidate program).kept s
  | serve {γ : Type} [GenerationService γ] {log : List String} {s : Session σ} (request : Request)
      (env : Environment (Option γ)) (h : Logged log s) :
      Logged (s.logAfter request env log) (s.serve request env).2.1

/-! ## Steps -/

variable {s s' : Session σ} {op : Operation} {response : Response} {texts log : List String}

omit [GenerationService γ] in
/-- An operation keeps a program that the ontology allows. -/
theorem Effect.checked (h : s.Effect s' op response texts) (hs : s.Checked) : s'.Checked := by
  cases h with
  | asserted _ _ _ hs' | reasoned _ hs' =>
    obtain ⟨hallowed, engine, rfl⟩ := hs'
    exact List.forall_mem_append.mpr ⟨hs, hallowed⟩
  | notAsserted _ hs' | notRemoved _ hs' | notRevalidated hs' | notCleared hs' =>
    obtain ⟨engine, rfl⟩ := hs'
    exact hs
  | answered hs' =>
    obtain ⟨engine, rfl⟩ := hs'.becomes
    exact hs
  | removed _ _ _ hs' =>
    obtain ⟨engine, rfl⟩ := hs'
    exact fun text htext => hs text (List.mem_of_mem_eraseIdx htext)
  | loaded _ hreport hs' =>
    obtain ⟨engine, rfl⟩ := hs'
    rw [hreport]
    exact Ontology.revalidate_kept_allowed
  | revalidated _ hsplits hs' =>
    obtain ⟨engine, rfl⟩ := hs'
    exact hsplits.allows hs
  | cleared _ hs' =>
    obtain ⟨engine, rfl⟩ := hs'
    exact nofun

omit [GenerationService γ] in
/-- An operation keeps the program a subsequence of the log. -/
theorem Effect.sublist (h : s.Effect s' op response texts) (hlog : s.program.Sublist log) :
    s'.program.Sublist (op.logAfter response texts log) := by
  cases h with
  | asserted _ _ _ hs' | reasoned _ hs' =>
    obtain ⟨-, engine, rfl⟩ := hs'
    rw [Operation.logAfter_eq (by simp) (by simp)]
    exact hlog.append (.refl _)
  | notAsserted _ hs' | notRemoved _ hs' | notRevalidated hs' | notCleared hs' =>
    obtain ⟨engine, rfl⟩ := hs'
    rw [Operation.logAfter_eq (by simp) (by simp), List.append_nil]
    exact hlog
  | answered hs' =>
    obtain ⟨engine, rfl⟩ := hs'.becomes
    rw [Operation.logAfter_eq (by simp) (by simp), List.append_nil]
    exact hlog
  | removed _ _ _ hs' =>
    obtain ⟨engine, rfl⟩ := hs'
    rw [Operation.logAfter_eq (by simp) (by simp), List.append_nil]
    exact (List.eraseIdx_sublist ..).trans hlog
  | loaded hop _ hs' =>
    obtain ⟨engine, rfl⟩ := hs'
    subst hop
    exact .refl _
  | revalidated hop hsplits hs' =>
    obtain ⟨engine, rfl⟩ := hs'
    rw [Operation.logAfter_eq (by simp [hop]) (by simp), List.append_nil]
    exact (hsplits.kept ▸ List.filter_sublist).trans hlog
  | cleared _ hs' =>
    obtain ⟨engine, rfl⟩ := hs'
    exact List.nil_sublist _

/-! ## Runs -/

omit [GenerationService γ] in
/-- A new session has the program that its ontology keeps. -/
theorem Becomes.loadInitial {program : List String} (h : s.loadInitial program = .ok s')
    (hs : s.program = []) :
    s.Becomes (s.ontology.revalidate program).kept s.ontology s' := by
  revert h
  unfold Session.loadInitial
  split
  · next hempty =>
    rintro ⟨⟩
    have hself := Becomes.refl s
    rw [List.isEmpty_iff.mp hempty]
    rwa [hs] at hself
  · cases hreplace : s.replace s.ontology program with
    | mk result s₁ =>
      cases result with
      | error e => exact nofun
      | ok report =>
        rintro ⟨⟩
        obtain ⟨rfl, hs₁⟩ := replace_ok hreplace
        exact ⟨_, hs₁⟩

omit [GenerationService γ] in
theorem Logged.invariant (h : Logged log s) : s.program.Sublist log ∧ s.Checked := by
  induction h with
  | create h =>
    obtain ⟨engine, rfl⟩ := Becomes.loadInitial h rfl
    exact ⟨.refl _, Ontology.revalidate_kept_allowed⟩
  | @serve γ _ log s request env _ ih =>
    cases request with
    | operation op =>
      obtain ⟨hlog, hchecked⟩ := ih
      have heffect : s.Effect (s.perform op env).2.1 op (s.perform op env).1
          (s.assertions op (s.perform op env).1 env) := hchecked.perform_effect rfl
      rw [serve_operation]
      exact ⟨heffect.sublist hlog, heffect.checked hchecked⟩
    | save time => exact ih
    | graph => exact ih

/-- A question puts at most one query to the engine. -/
theorem serve_asked {request : Request} (h : request.isQuestion = true)
    (env : Environment (Option γ)) : s.Asked (s.serve request env).2.1 := by
  cases request with
  | save time => exact .inl rfl
  | graph => exact .inl rfl
  | operation op =>
    rw [serve_operation]
    cases op with
    | query text allowFallback =>
      rw [perform_query]
      dsimp only
      exact query_asked text allowFallback env
    | ask text allowFallback =>
      rw [perform_ask]
      dsimp only
      exact ask_asked text allowFallback env
    | _ => cases h

/-- Whatever the history of a session, its program is a subsequence of its log. An assertion that
succeeds puts one text at the end, a retraction that succeeds takes one occurrence away, a change of
the ontology takes away what its report has dropped, and a chain of reasoning puts what it asserts
at the end. A question changes nothing, unless the engine changes by answering. -/
theorem program_follows_log (h : Logged log s) :
    s.program.Sublist log ∧
    ∀ {γ : Type} [GenerationService γ] (env : Environment (Option γ)),
      (∀ op r, (s.perform op env).1 = .assertion r → r.succeeds = true →
        ∃ text, op.assertedText? r = some text ∧ r.clause = some text ∧
          s.Becomes (s.program ++ [text]) s.ontology (s.perform op env).2.1) ∧
      (∀ op, (s.perform op env).1 = .removal (.ok true) →
        ∃ clause i, ∃ hi : i < s.program.length, op.clause? = some clause ∧
          sameClause (Text.trim clause) s.program[i] = true ∧
          s.Becomes (s.program.eraseIdx i) s.ontology (s.perform op env).2.1) ∧
      (∀ op report, (s.perform op env).1 = .report (.ok report) →
        (∀ snapshot, op ≠ .load snapshot) → ∃ ontology, report.Splits ontology s.program ∧
          s.Becomes report.kept ontology (s.perform op env).2.1) ∧
      (∀ op r, (s.perform op env).1 = .reasoning r →
        let texts := s.assertions op (.reasoning r) env
        s.Becomes (s.program ++ texts) s.ontology (s.perform op env).2.1 ∧
          ∀ c, r = .ok c → texts = c.steps.filterMap ReasoningStep.asserted?) ∧
      (∀ request : Request, request.isQuestion = true →
        s.Becomes s.program s.ontology (s.serve request env).2.1 ∧
          ((∀ text, (Engine.solve text s.engine).2 = s.engine) →
            (s.serve request env).2.1 = s)) := by
  obtain ⟨hlog, hchecked⟩ := h.invariant
  refine ⟨hlog, fun {γ} _ env => ?_⟩
  have heffect (op : Operation) : s.Effect (s.perform op env).2.1 op (s.perform op env).1
      (s.assertions op (s.perform op env).1 env) := hchecked.perform_effect rfl
  refine ⟨?_, ?_, ?_, ?_, ?_⟩
  · intro op r hr hsucceeds
    have heffect := heffect op
    rw [hr] at heffect
    generalize s.assertions op (.assertion r) env = texts at heffect
    cases heffect with
    | asserted _ htext hclause hs' => exact ⟨_, htext, hclause, hs'.2⟩
    | notAsserted hfails _ => exact absurd hsucceeds (by simp [hfails])
  · intro op hr
    have heffect := heffect op
    rw [hr] at heffect
    generalize s.assertions op (.removal (.ok true)) env = texts at heffect
    cases heffect with
    | removed hclause hi hsame hs' => exact ⟨_, _, hi, hclause, hsame, hs'⟩
    | notRemoved hr _ => exact absurd rfl hr
  · intro op report hr hop
    have heffect := heffect op
    rw [hr] at heffect
    generalize s.assertions op (.report (.ok report)) env = texts at heffect
    cases heffect with
    | loaded hload _ _ => exact absurd hload (hop _)
    | revalidated _ hsplits hs' => exact ⟨_, hsplits, hs'⟩
  · intro op r hr
    have heffect := heffect op
    rw [hr] at heffect
    generalize s.assertions op (.reasoning r) env = texts at heffect
    cases heffect with
    | reasoned hsteps hs' => exact ⟨hs'.2, hsteps⟩
  · intro request hquestion
    have hasked := serve_asked (s := s) hquestion env
    refine ⟨hasked.becomes, fun hengine => ?_⟩
    obtain hsame | ⟨text, hs'⟩ := hasked
    · exact hsame
    · rw [hs', hengine]

/-- Two clauses that are loaded, one that is asserted, another one that the engine refuses, and a
retraction: two clauses are left of the three in the log. -/
theorem program_follows_log_polly :
    let plan : FaultPlan := { assertAll := { backend := [2] } }
    let engine : UnreliableEngine MemoryEngine := ⟨.new {}, plan, 0, 0, 0⟩
    let config : OntologyConfig := { types := ["bird", "fish"] }
    let env : Environment (Option ScriptedGenerator) := ⟨none, 0, none, false, .placeholder⟩
    let empty := start "s" ⟨[], 1, 0, none⟩ 8 (some config) engine engine
    let s₀ := (empty.loadInitial [" fish(wanda).", "bird(tweety)."]).toOption.getD empty
    let polly : Request := .operation (.assert " bird(polly). ")
    let ann : Request := .operation (.assert "bird(ann).")
    let wanda : Request := .operation (.retract "fish( wanda ).")
    let s₁ := (s₀.serve polly env).2.1
    let s₂ := (s₁.serve ann env).2.1
    let s₃ := (s₂.serve wanda env).2.1
    let log := s₂.logAfter wanda env (s₁.logAfter ann env (s₀.logAfter polly env
      ((Ontology.ofConfig config).revalidate [" fish(wanda).", "bird(tweety)."]).kept))
    Logged log s₃ ∧ log = ["fish(wanda).", "bird(tweety).", "bird(polly)."] ∧
    s₃.program = ["bird(tweety).", "bird(polly)."] ∧ s₃.program.Sublist log ∧
    ((∀ text, (Engine.solve text s₃.engine).2 = s₃.engine) → (s₃.serve .graph env).2.1 = s₃) := by
  intro plan engine config env empty s₀ polly ann wanda s₁ s₂ s₃ log
  have hok : (empty.loadInitial [" fish(wanda).", "bird(tweety)."]).isOk = true := by
    decide +kernel
  have hcreate : empty.loadInitial [" fish(wanda).", "bird(tweety)."] = .ok s₀ := by
    cases h : empty.loadInitial [" fish(wanda).", "bird(tweety)."] with
    | ok s => simp [s₀, h, Except.toOption]
    | error e => simp [h, Except.isOk, Except.toBool] at hok
  have hlogged : Logged log s₃ :=
    .serve wanda env (.serve ann env (.serve polly env (.create hcreate)))
  have hlog : log = ["fish(wanda).", "bird(tweety).", "bird(polly)."] := by decide +kernel
  have hprogram : s₃.program = ["bird(tweety).", "bird(polly)."] := by decide +kernel
  obtain ⟨hsublist, heffects⟩ := program_follows_log hlogged
  obtain ⟨-, -, -, -, hquestion⟩ := heffects env
  exact ⟨hlogged, hlog, hprogram, hsublist, (hquestion .graph rfl).2⟩

end Session

end OntoLogic
