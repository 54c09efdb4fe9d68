-- SUMMARY: What every operation of a session does to its program, over any engine.
import OntoLogic.Proofs.Session.Failure
import OntoLogic.Proofs.Session.Reload

/-!
# Effects of operations

What an operation does to the program can be told from what it reports. An assertion that succeeds
puts one text at the end, a retraction that succeeds takes one text away, a change of the ontology
keeps what its report keeps, and an operation that fails leaves the program as it is. A chain of
reasoning is a sequence of assertions and queries, and it keeps what it has asserted even when it is
called off.

Nothing is asked of the engine here; it may refuse any program at any time.
-/

namespace OntoLogic

variable {σ γ : Type} [Engine σ]

/-! ## What operations assert -/

/-- The clause that an operation adds or removes, where its caller gives one. -/
def Operation.clause? : Operation → Option String
  | .assert clause | .retract clause => some clause
  | .addFact entity type | .removeFact entity type => some (Session.factText entity type)
  | .addRelationship subject relation object | .removeRelationship subject relation object =>
    some (Session.relationshipText subject relation object)
  | .addRule rule => some rule
  | _ => none

/-- The text that an operation asserts: the clause that is given, or the translation of the
statement. -/
def Operation.assertedText? (op : Operation) (r : AssertionResult) : Option String :=
  (op.clause?.or (r.translation.map (·.content))).map Text.trim

/-- The text that a step of a chain of reasoning asserts when it succeeds. -/
def ReasoningStep.asserted? (step : ReasoningStep) : Option String :=
  match step.action, step.succeeds with
  | some (.assert content), true => some (Text.trim content)
  | _, _ => none

namespace ReasoningChain

variable {chain : ReasoningChain} {content : String}

/-- The texts that the steps of a chain so far have asserted. -/
def asserted (chain : ReasoningChain) : List String :=
  chain.steps.filterMap ReasoningStep.asserted?

theorem asserted_record_none (succeeds : Bool) (outcome : String) :
    (chain.record none succeeds outcome).asserted = chain.asserted := by
  simp [asserted, record, ReasoningStep.asserted?]

theorem asserted_record_conclude (answer : String) (explanation : Option String) (succeeds : Bool)
    (outcome : String) : (chain.record (some (.conclude answer explanation)) succeeds
      outcome).asserted = chain.asserted := by
  simp [asserted, record, ReasoningStep.asserted?]

theorem asserted_recordQuery (r : QueryResult) :
    (chain.recordQuery content r).asserted = chain.asserted := by
  simp [asserted, recordQuery, record, ReasoningStep.asserted?]

theorem asserted_recordAssertion (r : AssertionResult) :
    (chain.recordAssertion content r).asserted =
      chain.asserted ++ if r.succeeds then [Text.trim content] else [] := by
  cases h : r.succeeds <;> simp [asserted, recordAssertion, record, ReasoningStep.asserted?, h]

end ReasoningChain

namespace Session

variable {s s' : Session σ}

section Reasoning

variable [GenerationService γ]

/-- The texts that the steps left of a chain of reasoning assert, in order. -/
def assertedFrom (task : String) :
    (left : Nat) → ReasoningChain → Session σ → Environment (Option γ) → List String
  | 0, _, _, _ => []
  | left + 1, chain, s, env =>
    match env.generate (Prompt.agentic (chain.context task s.ontology.terms s.program)) with
    | (none, _) => []
    | (some answer, env) =>
      match AgentAction.ofAnswer env.messages answer with
      | .error e => assertedFrom task left (chain.record none false e.message) s env
      | .ok (.conclude _ _) => []
      | .ok (.query content) =>
        let (result, s, env) := s.query content false env
        assertedFrom task left (chain.recordQuery content result) s env
      | .ok (.assert content) =>
        let (result, s) := s.assert content
        let texts := assertedFrom task left (chain.recordAssertion content result) s env
        if result.succeeds then Text.trim content :: texts else texts

/-- The texts that an operation asserts, in order, when it responds as it does. -/
def assertions (op : Operation) (response : Response) (s : Session σ)
    (env : Environment (Option γ)) : List String :=
  match op, response with
  | .reason task maxSteps, _ =>
    if (Text.trim task).isEmpty ∨ env.service.isNone then []
    else s.assertedFrom (Text.trim task) (maxSteps.getD s.maxReasoningSteps) {} env
  | op, .assertion r => if r.succeeds then (op.assertedText? r).toList else []
  | _, _ => []

end Reasoning

/-! ## Changes of program and ontology -/

/-- A session has got another program and another ontology. At most what is private to the engine
has changed besides. -/
def Becomes (s : Session σ) (program : List String) (ontology : Ontology) (s' : Session σ) : Prop :=
  ∃ engine, s' = { s with program, ontology, engine }

/-- The ontology of a session allows its program. -/
def Checked (s : Session σ) : Prop :=
  ∀ text ∈ s.program, s.ontology.Allows text

omit [Engine σ] in
theorem Becomes.refl (s : Session σ) : s.Becomes s.program s.ontology s :=
  ⟨s.engine, rfl⟩

omit [Engine σ] in
theorem becomes_of_unchanged {τ : Type} {theory : σ → τ} (h : s.Unchanged theory s') :
    s.Becomes s.program s.ontology s' := by
  obtain ⟨engine, -, rfl⟩ := h
  exact ⟨engine, rfl⟩

/-- A session has got more texts at the end of its program, which its ontology allows. -/
def Extends (s : Session σ) (texts : List String) (s' : Session σ) : Prop :=
  (∀ text ∈ texts, s.ontology.Allows text) ∧ s.Becomes (s.program ++ texts) s.ontology s'

omit [Engine σ] in
theorem extends_nil : s.Extends [] s' ↔ s.Becomes s.program s.ontology s' := by
  simp [Extends]

omit [Engine σ] in
theorem Extends.refl (s : Session σ) : s.Extends [] s :=
  extends_nil.mpr (.refl s)

omit [Engine σ] in
theorem Extends.trans {s'' : Session σ} {texts texts' : List String} (h : s.Extends texts s')
    (h' : s'.Extends texts' s'') : s.Extends (texts ++ texts') s'' := by
  obtain ⟨hallowed, engine, rfl⟩ := h
  obtain ⟨hallowed', engine', rfl⟩ := h'
  exact ⟨List.forall_mem_append.mpr ⟨hallowed, hallowed'⟩, engine', by simp⟩

/-- At most one query has been put to the engine of a session. -/
def Asked (s s' : Session σ) : Prop :=
  s' = s ∨ ∃ text, s' = { s with engine := (Engine.solve text s.engine).2 }

theorem Asked.becomes (h : s.Asked s') : s.Becomes s.program s.ontology s' := by
  obtain rfl | ⟨text, rfl⟩ := h
  · exact .refl s'
  · exact ⟨_, rfl⟩

/-- Any engine keeps its theory when nothing counts as its theory. -/
theorem keeps_unit : Engine.Keeps fun _ : σ => () :=
  ⟨fun _ => rfl, fun _ => rfl⟩

/-! ## Operations that succeed -/

theorem exists_of_rebuild {result : Except SessionError Unit}
    (h : s.rebuild = (result, s')) : ∃ engine, s' = { s with engine } := by
  cases h
  exact ⟨_, rfl⟩

theorem append_ok {text : String} (htrim : Text.trim text = text) (h : (s.append text).1 = .ok ()) :
    s.ontology.Allows text ∧ s.Becomes (s.program ++ [text]) s.ontology (s.append text).2 := by
  revert h
  unfold append
  split
  · exact nofun
  · split
    · exact nofun
    · split
      · exact nofun
      · next c hvalidate =>
        intro h
        refine ⟨⟨htrim, c, hvalidate⟩, ?_⟩
        split
        · next hrebuild =>
          obtain ⟨engine, rfl⟩ := exists_of_rebuild hrebuild
          exact ⟨engine, rfl⟩
        · next hrebuild => simp [hrebuild] at h

/-- An assertion that succeeds puts its text at the end of the program and reports it. -/
theorem assert_succeeds {clause : String} (h : (s.assert clause).1.succeeds = true) :
    (s.assert clause).1 = .asserted (Text.trim clause) ∧ s.ontology.Allows (Text.trim clause) ∧
      s.Becomes (s.program ++ [Text.trim clause]) s.ontology (s.assert clause).2 := by
  have happend := append_ok (s := s) (Text.trim_trim clause)
  revert h
  unfold assert
  dsimp only
  split
  · next hok =>
    rw [hok] at happend
    exact fun _ => ⟨rfl, happend rfl⟩
  · exact nofun

theorem addRule_succeeds {rule : String} (h : (s.addRule rule).1.succeeds = true) :
    (s.addRule rule).1 = .asserted (Text.trim rule) ∧
      s.Extends [Text.trim rule] (s.addRule rule).2 := by
  revert h
  unfold addRule
  dsimp only
  split
  · intro h
    obtain ⟨hr, hallowed, hs'⟩ := assert_succeeds h
    rw [Text.trim_trim] at hr hallowed hs'
    exact ⟨hr, by simpa using hallowed, hs'⟩
  · exact nofun

theorem assert_extends (clause : String) :
    ((s.assert clause).1.succeeds = true →
      s.Extends [Text.trim clause] (s.assert clause).2) ∧
    ((s.assert clause).1.succeeds = false → s.Extends [] (s.assert clause).2) := by
  constructor
  · intro h
    obtain ⟨-, hallowed, hs'⟩ := assert_succeeds h
    exact ⟨by simpa using hallowed, hs'⟩
  · intro h
    exact extends_nil.mpr (becomes_of_unchanged (Unchanged.assert keeps_unit clause h))

/-- A retraction that succeeds takes away one clause that is the same as the given one. -/
theorem retract_ok {clause : String} {removed : Bool} (h : (s.retract clause).1 = .ok removed) :
    if removed then
      ∃ i, ∃ hi : i < s.program.length, sameClause (Text.trim clause) s.program[i] = true ∧
        s.Becomes (s.program.eraseIdx i) s.ontology (s.retract clause).2
    else s.Becomes s.program s.ontology (s.retract clause).2 := by
  revert h
  unfold retract
  dsimp only
  split
  · exact nofun
  · split
    · rintro ⟨⟩
      exact .refl s
    · next existing i hfind =>
      split
      · next hrebuild =>
        rintro ⟨⟩
        obtain ⟨engine, rfl⟩ := exists_of_rebuild hrebuild
        have hsame : sameClause (Text.trim clause) existing = true := by
          simpa using List.find?_some hfind
        obtain ⟨hi, rfl⟩ := List.getElem?_eq_some_iff.mp
          (List.mk_mem_zipIdx_iff_getElem?.mp (List.mem_of_find?_eq_some hfind))
        exact ⟨i, hi, hsame, engine, rfl⟩
      · exact nofun

theorem clear_ok (h : s.clear.1 = .ok ()) : ∃ ontology, s.Becomes [] ontology s.clear.2 := by
  revert h
  unfold clear
  split
  · next engine _ => exact fun _ => ⟨_, engine, rfl⟩
  · exact nofun

theorem replace_becomes {o : Ontology} {candidates : List String} {report : Report}
    (h : (s.replace o candidates).1 = .ok report) :
    report = o.revalidate candidates ∧ s.Becomes report.kept o (s.replace o candidates).2 := by
  obtain ⟨hreport, hs'⟩ := replace_ok (Prod.ext h rfl : s.replace o candidates = (.ok report, _))
  exact ⟨hreport, _, hs'⟩

/-- A change of the ontology keeps the clauses that the new ontology accepts. -/
theorem Checked.replace {o : Ontology} {report : Report} (hs : s.Checked)
    (h : (s.replace o s.program).1 = .ok report) :
    report.Splits o s.program ∧ s.Becomes report.kept o (s.replace o s.program).2 := by
  obtain ⟨rfl, hs'⟩ := replace_becomes h
  have hsplits : (o.revalidate s.program).Splits o (s.program.map Text.trim) :=
    Ontology.splits_revalidate
  rw [Ontology.map_trim_of_allows hs] at hsplits
  exact ⟨hsplits, hs'⟩

theorem Checked.changeOntology {o : Ontology} {report : Report} (hs : s.Checked)
    (h : (s.changeOntology o).1 = .ok report) :
    report.Splits o s.program ∧ s.Becomes report.kept o (s.changeOntology o).2 := by
  revert h
  unfold Session.changeOntology
  split
  · next hsame =>
    subst hsame
    rintro ⟨⟩
    have hsplits : (s.ontology.revalidate s.program).Splits s.ontology
        (s.program.map Text.trim) := Ontology.splits_revalidate
    rw [Ontology.map_trim_of_allows hs, Ontology.revalidate_of_allows hs] at hsplits
    exact ⟨hsplits, .refl s⟩
  · exact hs.replace

theorem Checked.changeWith {change : Ontology → String → Ontology} {name : String} {report : Report}
    (hs : s.Checked) (h : (s.changeWith change name).1 = .ok report) :
    ∃ o, report.Splits o s.program ∧ s.Becomes report.kept o (s.changeWith change name).2 := by
  revert h
  unfold Session.changeWith
  split
  · exact fun h => ⟨_, hs.changeOntology h⟩
  · exact nofun

theorem Checked.addSynonym {name canonical : String} {report : Report} (hs : s.Checked)
    (h : (s.addSynonym name canonical).1 = .ok report) :
    ∃ o, report.Splits o s.program ∧ s.Becomes report.kept o (s.addSynonym name canonical).2 := by
  revert h
  unfold Session.addSynonym
  split
  · exact fun h => ⟨_, hs.changeOntology h⟩
  · exact nofun
  · exact nofun

/-! ## Questions and chains of reasoning -/

section Reasoning

variable [GenerationService γ]

omit [GenerationService γ] in
theorem solve_asked (text : String) (env : Environment (Option γ)) :
    s.Asked (s.solve text env).2.1 := by
  unfold solve
  split
  · exact .inl rfl
  · exact .inr ⟨text, rfl⟩

theorem query_asked (text : String) (allowFallback : Bool) (env : Environment (Option γ)) :
    s.Asked (s.query text allowFallback env).2.1 := by
  obtain h | h := query_cases (s := s) text allowFallback env
  · exact .inl h
  · rw [h]
    exact solve_asked _ env

theorem ask_asked (text : String) (allowFallback : Bool) (env : Environment (Option γ)) :
    s.Asked (s.ask text allowFallback env).2.1 := by
  obtain h | ⟨text', env', h⟩ := ask_cases (s := s) text allowFallback env
  · exact .inl h
  · rw [h]
    exact query_asked text' allowFallback env'

/-- A chain of reasoning puts what it asserts at the end of the program. -/
theorem reasonFrom_extends (task : String) (left : Nat) (chain : ReasoningChain) (s : Session σ)
    (env : Environment (Option γ)) : s.Extends (s.assertedFrom task left chain env)
      (s.reasonFrom task left chain env).2.1 := by
  induction left generalizing s chain env with
  | zero => exact .refl s
  | succ left ih =>
    unfold assertedFrom reasonFrom
    cases hgenerate : env.generate
        (Prompt.agentic (chain.context task s.ontology.terms s.program)) with
    | mk answer env' =>
      cases answer with
      | none => exact .refl s
      | some answer =>
        cases hanswer : AgentAction.ofAnswer env'.messages answer with
        | error e => simpa only [hanswer] using ih _ s env'
        | ok action =>
          cases action with
          | conclude answer explanation => simpa only [hanswer] using .refl s
          | query content =>
            have hquery := extends_nil.mpr (query_asked (s := s) content false env').becomes
            simp only [hanswer]
            generalize s.query content false env' = r at hquery ⊢
            obtain ⟨result, s', env'⟩ := r
            exact hquery.trans (ih _ s' env')
          | assert content =>
            have hassert := assert_extends (s := s) content
            simp only [hanswer]
            generalize s.assert content = r at hassert ⊢
            obtain ⟨result, s'⟩ := r
            split
            · next hsucceeds => exact (hassert.1 hsucceeds).trans (ih _ s' env')
            · next hfails =>
              exact (hassert.2 (Bool.eq_false_iff.mpr hfails)).trans (ih _ s' env')

/-- What a chain of reasoning asserts can be told from its steps. -/
theorem asserted_steps {task : String} {left : Nat} {chain : ReasoningChain} {s : Session σ}
    {env : Environment (Option γ)} {r : Reasoning}
    (h : (s.reasonFrom task left chain env).1 = .ok r) :
    r.steps.filterMap ReasoningStep.asserted? =
      chain.asserted ++ s.assertedFrom task left chain env := by
  induction left generalizing s chain env with
  | zero =>
    cases h
    simp [assertedFrom, ReasoningChain.asserted]
  | succ left ih =>
    revert h
    unfold assertedFrom reasonFrom
    cases hgenerate : env.generate
        (Prompt.agentic (chain.context task s.ontology.terms s.program)) with
    | mk answer env' =>
      cases answer with
      | none =>
        intro h
        cases h
      | some answer =>
        cases hanswer : AgentAction.ofAnswer env'.messages answer with
        | error e =>
          simp only [hanswer]
          intro h
          rw [ih h, ReasoningChain.asserted_record_none]
        | ok action =>
          cases action with
          | conclude answer explanation =>
            simp only [hanswer]
            rintro ⟨⟩
            exact (ReasoningChain.asserted_record_conclude ..).trans (List.append_nil _).symm
          | query content =>
            simp only [hanswer]
            intro h
            rw [ih h, ReasoningChain.asserted_recordQuery]
          | assert content =>
            simp only [hanswer]
            intro h
            rw [ih h, ReasoningChain.asserted_recordAssertion]
            split <;> simp

/-- Nothing is asserted when a chain of reasoning cannot be begun. -/
theorem reason_cases (task : String) (maxSteps : Option Nat) (response : Response)
    (env : Environment (Option γ)) :
    (∃ e, s.reason task maxSteps env = (.error e, s, env) ∧
      s.assertions (.reason task maxSteps) response env = []) ∨
    ∃ task' left, s.reason task maxSteps env = s.reasonFrom task' left {} env ∧
      s.assertions (.reason task maxSteps) response env = s.assertedFrom task' left {} env := by
  unfold assertions reason
  dsimp only
  by_cases htask : (Text.trim task).isEmpty = true
  · exact .inl ⟨_, if_pos htask, if_pos (.inl htask)⟩
  by_cases hsteps : maxSteps.getD s.maxReasoningSteps = 0
  · refine .inl ⟨_, (if_neg htask).trans (if_pos hsteps), ?_⟩
    rw [hsteps, assertedFrom, ite_self]
  by_cases hservice : env.service.isNone = true
  · exact .inl ⟨_, (if_neg htask).trans ((if_neg hsteps).trans (if_pos hservice)),
      if_pos (.inr hservice)⟩
  · exact .inr ⟨_, _, (if_neg htask).trans ((if_neg hsteps).trans (if_neg hservice)),
      if_neg (not_or.mpr ⟨htask, hservice⟩)⟩

theorem reason_extends (task : String) (maxSteps : Option Nat) (response : Response)
    (env : Environment (Option γ)) :
    s.Extends (s.assertions (.reason task maxSteps) response env)
      (s.reason task maxSteps env).2.1 := by
  obtain ⟨e, hreason, hnone⟩ | ⟨task', left, hreason, hasserted⟩ :=
    s.reason_cases task maxSteps response env
  · rw [hreason, hnone]
    exact .refl s
  · rw [hreason, hasserted]
    exact reasonFrom_extends ..

theorem reason_steps {task : String} {maxSteps : Option Nat} {env : Environment (Option γ)}
    {r : Reasoning} (response : Response) (h : (s.reason task maxSteps env).1 = .ok r) :
    s.assertions (.reason task maxSteps) response env =
      r.steps.filterMap ReasoningStep.asserted? := by
  obtain ⟨e, hreason, -⟩ | ⟨task', left, hreason, hasserted⟩ :=
    s.reason_cases task maxSteps response env
  · rw [hreason] at h
    cases h
  · rw [hreason] at h
    rw [hasserted, asserted_steps h]
    rfl

theorem assertStatement_succeeds {text : String} {env : Environment (Option γ)}
    (h : (s.assertStatement text env).1.succeeds = true) :
    ∃ t : Translation, (s.assertStatement text env).1 =
        { AssertionResult.asserted (Text.trim t.content) with translation := t } ∧
      s.ontology.Allows (Text.trim t.content) ∧
      s.Becomes (s.program ++ [Text.trim t.content]) s.ontology
        (s.assertStatement text env).2.1 := by
  revert h
  unfold assertStatement
  split
  · exact nofun
  · next t env' _ =>
    have hassert (h : (s.assert t.content).1.succeeds = true) := assert_succeeds h
    cases hcall : s.assert t.content with
    | mk r s' =>
      rw [hcall] at hassert
      split
      · exact nofun
      · intro h
        obtain ⟨rfl, hallowed, hs'⟩ := hassert h
        exact ⟨t, rfl, hallowed, hs'⟩

end Reasoning

/-! ## Effects -/

/-- What an operation has done to the program of a session, by what it reports and by the texts that
it has asserted. -/
inductive Effect (s s' : Session σ) (op : Operation) : Response → List String → Prop
  | asserted {r : AssertionResult} {text : String} (hsucceeds : r.succeeds = true)
    (htext : op.assertedText? r = some text) (hclause : r.clause = some text)
    (hs' : s.Extends [text] s') : Effect s s' op (.assertion r) [text]
  | notAsserted {r : AssertionResult} (hfails : r.succeeds = false)
    (hs' : s.Becomes s.program s.ontology s') : Effect s s' op (.assertion r) []
  | removed {clause : String} {i : Nat} (hclause : op.clause? = some clause)
    (hi : i < s.program.length) (hsame : sameClause (Text.trim clause) s.program[i] = true)
    (hs' : s.Becomes (s.program.eraseIdx i) s.ontology s') :
    Effect s s' op (.removal (.ok true)) []
  | notRemoved {r : Except SessionError Bool} (hr : r ≠ .ok true)
    (hs' : s.Becomes s.program s.ontology s') : Effect s s' op (.removal r) []
  | answered {r : QueryResult} (hs' : s.Asked s') : Effect s s' op (.answer r) []
  | reasoned {r : Except SessionError Reasoning} {texts : List String}
    (hsteps : ∀ c, r = .ok c → texts = c.steps.filterMap ReasoningStep.asserted?)
    (hs' : s.Extends texts s') : Effect s s' op (.reasoning r) texts
  | loaded {snapshot : Snapshot} {report : Report} (hop : op = .load snapshot)
    (hreport : report = (Ontology.ofConfig snapshot.ontology).revalidate snapshot.program)
    (hs' : s.Becomes report.kept (.ofConfig snapshot.ontology) s') :
    Effect s s' op (.report (.ok report)) []
  | revalidated {ontology : Ontology} {report : Report} (hop : ∀ snapshot, op ≠ .load snapshot)
    (hsplits : report.Splits ontology s.program) (hs' : s.Becomes report.kept ontology s') :
    Effect s s' op (.report (.ok report)) []
  | notRevalidated {e : SessionError} (hs' : s.Becomes s.program s.ontology s') :
    Effect s s' op (.report (.error e)) []
  | cleared {ontology : Ontology} (hop : op = .clear) (hs' : s.Becomes [] ontology s') :
    Effect s s' op (.done (.ok ())) []
  | notCleared {e : SessionError} (hs' : s.Becomes s.program s.ontology s') :
    Effect s s' op (.done (.error e)) []

section Perform

variable {op : Operation}

/-- What an operation that asserts has done. -/
theorem effect_of_assertion {r : AssertionResult}
    (hok : r.succeeds = true → ∃ text, op.assertedText? r = some text ∧
      r.clause = some text ∧ s.Extends [text] s')
    (hfailed : r.succeeds = false → s.Becomes s.program s.ontology s') :
    s.Effect s' op (.assertion r) (if r.succeeds then (op.assertedText? r).toList else []) := by
  cases hsucceeds : r.succeeds with
  | true =>
    obtain ⟨text, htext, hclause, hs'⟩ := hok hsucceeds
    rw [htext]
    exact .asserted hsucceeds htext hclause hs'
  | false => exact .notAsserted hsucceeds (hfailed hsucceeds)

theorem effect_of_assert (clause : String) (hclause : op.clause? = some clause)
    (hfailed : (s.assert clause).1.succeeds = false →
      s.Becomes s.program s.ontology (s.assert clause).2) :
    s.Effect (s.assert clause).2 op (.assertion (s.assert clause).1)
      (if (s.assert clause).1.succeeds then (op.assertedText? (s.assert clause).1).toList
        else []) := by
  refine effect_of_assertion (fun hsucceeds => ?_) hfailed
  obtain ⟨hr, hallowed, hs'⟩ := assert_succeeds hsucceeds
  refine ⟨Text.trim clause, by simp [Operation.assertedText?, hclause], by rw [hr]; rfl, ?_⟩
  exact ⟨by simpa using hallowed, hs'⟩

theorem effect_of_retract (clause : String) (hclause : op.clause? = some clause)
    (hfailed : (s.retract clause).1.isOk = false →
      s.Becomes s.program s.ontology (s.retract clause).2) :
    s.Effect (s.retract clause).2 op (.removal (s.retract clause).1) [] := by
  cases hresult : (s.retract clause).1 with
  | error e => exact .notRemoved nofun (hfailed (by rw [hresult]; rfl))
  | ok removed =>
    have hretract := retract_ok hresult
    cases removed with
    | true =>
      obtain ⟨i, hi, hsame, hremoved⟩ := hretract
      exact .removed hclause hi hsame hremoved
    | false => exact .notRemoved nofun hretract

/-- What a change of the ontology has done. -/
theorem effect_of_revalidation {r : Except SessionError Report}
    (hload : ∀ snapshot, op ≠ .load snapshot)
    (hok : ∀ report, r = .ok report →
      ∃ o, report.Splits o s.program ∧ s.Becomes report.kept o s')
    (hfailed : r.isOk = false → s.Becomes s.program s.ontology s') :
    s.Effect s' op (.report r) [] := by
  cases r with
  | error e => exact .notRevalidated (hfailed rfl)
  | ok report =>
    obtain ⟨o, hsplits, hs'⟩ := hok report rfl
    exact .revalidated hload hsplits hs'

variable [GenerationService γ] {response : Response} {env env' : Environment (Option γ)}

/-- An update that fails leaves program and ontology as they are. -/
theorem becomes_of_failed (h : s.perform op env = (response, s', env')) (hop : op.isUpdate = true)
    (hfail : response.succeeds = false) : s.Becomes s.program s.ontology s' := by
  have hunchanged := Unchanged.perform (s := s) keeps_unit op env hop
  rw [h] at hunchanged
  exact becomes_of_unchanged (hunchanged hfail)

/-- Every operation has the effect that it reports. -/
theorem Checked.perform_effect (hs : s.Checked) (h : s.perform op env = (response, s', env')) :
    s.Effect s' op response (s.assertions op response env) := by
  have hfailed := becomes_of_failed h
  cases op with
  | assert clause =>
    obtain ⟨rfl, rfl, -⟩ : _ = response ∧ _ = s' ∧ _ = env' := by simpa [perform] using h
    exact effect_of_assert clause rfl (hfailed rfl)
  | assertStatement text =>
    rw [perform_assertStatement, Prod.mk.injEq] at h
    obtain ⟨rfl, hs'⟩ := h
    obtain rfl : _ = s' := congrArg Prod.fst hs'
    refine effect_of_assertion (fun hsucceeds => ?_) (hfailed rfl)
    obtain ⟨t, hresult, hallowed, hbecomes⟩ := assertStatement_succeeds hsucceeds
    rw [hresult]
    exact ⟨Text.trim t.content, rfl, rfl, by simpa using hallowed, hbecomes⟩
  | addFact entity type =>
    obtain ⟨rfl, rfl, -⟩ : _ = response ∧ _ = s' ∧ _ = env' := by simpa [perform, addFact] using h
    exact effect_of_assert (factText entity type) rfl (hfailed rfl)
  | addRelationship subject relation object =>
    obtain ⟨rfl, rfl, -⟩ : _ = response ∧ _ = s' ∧ _ = env' := by
      simpa [perform, addRelationship] using h
    exact effect_of_assert (relationshipText subject relation object) rfl (hfailed rfl)
  | addRule rule =>
    obtain ⟨rfl, rfl, -⟩ : _ = response ∧ _ = s' ∧ _ = env' := by simpa [perform] using h
    refine effect_of_assertion (fun hsucceeds => ?_) (hfailed rfl)
    obtain ⟨hresult, hextends⟩ := addRule_succeeds hsucceeds
    rw [hresult]
    exact ⟨Text.trim rule, rfl, rfl, hextends⟩
  | retract clause =>
    obtain ⟨rfl, rfl, -⟩ : _ = response ∧ _ = s' ∧ _ = env' := by simpa [perform] using h
    exact effect_of_retract clause rfl (hfailed rfl)
  | removeFact entity type =>
    obtain ⟨rfl, rfl, -⟩ : _ = response ∧ _ = s' ∧ _ = env' := by
      simpa [perform, removeFact] using h
    exact effect_of_retract (factText entity type) rfl (hfailed rfl)
  | removeRelationship subject relation object =>
    obtain ⟨rfl, rfl, -⟩ : _ = response ∧ _ = s' ∧ _ = env' := by
      simpa [perform, removeRelationship] using h
    exact effect_of_retract (relationshipText subject relation object) rfl (hfailed rfl)
  | query text allowFallback =>
    rw [perform_query, Prod.mk.injEq] at h
    obtain ⟨rfl, hs'⟩ := h
    obtain rfl : _ = s' := congrArg Prod.fst hs'
    exact .answered (query_asked text allowFallback env)
  | ask text allowFallback =>
    rw [perform_ask, Prod.mk.injEq] at h
    obtain ⟨rfl, hs'⟩ := h
    obtain rfl : _ = s' := congrArg Prod.fst hs'
    exact .answered (ask_asked text allowFallback env)
  | reason task maxSteps =>
    rw [perform_reason, Prod.mk.injEq] at h
    obtain ⟨rfl, hs'⟩ := h
    obtain rfl : _ = s' := congrArg Prod.fst hs'
    exact .reasoned (fun c hc => reason_steps _ hc) (reason_extends task maxSteps _ env)
  | reload config =>
    obtain ⟨rfl, rfl, -⟩ : _ = response ∧ _ = s' ∧ _ = env' := by simpa [perform, reload] using h
    exact effect_of_revalidation (by simp) (fun _ hok => ⟨_, hs.replace hok⟩) (hfailed rfl)
  | load snapshot =>
    obtain ⟨rfl, rfl, -⟩ : _ = response ∧ _ = s' ∧ _ = env' := by simpa [perform] using h
    cases hresult : (s.load snapshot).1 with
    | error e => exact .notRevalidated (hfailed rfl (by rw [hresult]; rfl))
    | ok report =>
      obtain ⟨hreport, hbecomes⟩ := replace_becomes hresult
      exact .loaded rfl hreport hbecomes
  | addType name =>
    obtain ⟨rfl, rfl, -⟩ : _ = response ∧ _ = s' ∧ _ = env' := by simpa [perform, addType] using h
    exact effect_of_revalidation (by simp) (fun _ hok => hs.changeWith hok) (hfailed rfl)
  | addRelationshipType name =>
    obtain ⟨rfl, rfl, -⟩ : _ = response ∧ _ = s' ∧ _ = env' := by
      simpa [perform, addRelationshipType] using h
    exact effect_of_revalidation (by simp) (fun _ hok => hs.changeWith hok) (hfailed rfl)
  | addConstraint name =>
    obtain ⟨rfl, rfl, -⟩ : _ = response ∧ _ = s' ∧ _ = env' := by
      simpa [perform, addConstraint] using h
    exact effect_of_revalidation (by simp) (fun _ hok => hs.changeWith hok) (hfailed rfl)
  | addSynonym name canonical =>
    obtain ⟨rfl, rfl, -⟩ : _ = response ∧ _ = s' ∧ _ = env' := by simpa [perform] using h
    exact effect_of_revalidation (by simp) (fun _ hok => hs.addSynonym hok) (hfailed rfl)
  | clear =>
    obtain ⟨rfl, rfl, -⟩ : _ = response ∧ _ = s' ∧ _ = env' := by simpa [perform] using h
    cases hresult : s.clear.1 with
    | error e => exact .notCleared (hfailed rfl (by rw [hresult]; rfl))
    | ok _ =>
      obtain ⟨ontology, hbecomes⟩ := clear_ok hresult
      exact .cleared rfl hbecomes

end Perform

end Session

end OntoLogic
