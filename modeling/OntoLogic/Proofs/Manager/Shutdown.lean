-- SUMMARY: After a manager has been shut down, nothing reaches the generation service.
import OntoLogic.Engine.Memory
import OntoLogic.Generation.Script
import OntoLogic.Proofs.Manager.Requests

/-!
# After the shutdown

The token of every session is a child of the token of its manager, also after the pending operations
of the session have been called off. So once the manager has been shut down, every operation that
would generate text is called off before it begins. Only operations that take clauses, ontologies or
snapshots themselves still change sessions.
-/

namespace OntoLogic

variable {γ σ : Type}

/-! ## Tokens -/

namespace Cancellations

variable {c c' : Cancellations} {token parent : CancellationToken}

theorem isCancelled_eq_true :
    c.isCancelled token = true ↔ ∃ n ∈ token.number :: token.ancestors, n ∈ c.cancelled := by
  simp [isCancelled]

/-- A child is cancelled with its parent. -/
theorem isCancelled_child (hchild : token.ancestors = parent.number :: parent.ancestors)
    (h : c.isCancelled parent = true) : c.isCancelled token = true := by
  obtain ⟨n, hn, hcancelled⟩ := isCancelled_eq_true.mp h
  exact isCancelled_eq_true.mpr ⟨n, List.mem_cons_of_mem _ (hchild ▸ hn), hcancelled⟩

/-- A token stays cancelled. -/
theorem isCancelled_mono (hmono : c.cancelled ⊆ c'.cancelled) (h : c.isCancelled token = true) :
    c'.isCancelled token = true := by
  obtain ⟨n, hn, hcancelled⟩ := isCancelled_eq_true.mp h
  exact isCancelled_eq_true.mpr ⟨n, hn, hmono hcancelled⟩

end Cancellations

namespace Manager

/-! ## What a shut down manager does -/

/-- A request takes a clause, an ontology or a snapshot to the session with an id, or clears it. -/
def Request.IsDirect (request : Request) (id : String) : Prop :=
  match request with
  | .perform id' op _ => id' = id ∧ op.cancelled? = none
  | _ => False

variable {changed : String → Prop} {m m' : Manager γ σ}

theorem Quiet.isShutDown (h : m.Quiet changed m') (hshut : m.isShutDown = true) :
    m'.isShutDown = true := by
  unfold Manager.isShutDown
  rw [h.shutdown]
  exact Cancellations.isCancelled_mono h.cancelled hshut

variable [Engine σ]

theorem create_of_isShutDown (hshut : m.isShutDown = true) (id : String)
    (options : SessionOptions) :
    m.create id options = (.error (.session (.invalidInput .shutDown)), m) := by
  have hmake : m.makeSession id options = .error (.session (.invalidInput .shutDown)) := by
    unfold makeSession
    rw [if_pos hshut]
    rfl
  rw [create, hmake]

omit [Engine σ] in
/-- The operations of a shut down manager are called off before they begin. -/
theorem WellFormed.calledOff (h : m.WellFormed) (hshut : m.isShutDown = true)
    {e : ManagedSession σ} (he : e ∈ m.sessions) (disturbance : Option Disturbance) :
    (m.environment e disturbance).calledOff = true :=
  Cancellations.isCancelled_child (h.sessions e he).child hshut

omit [Engine σ] in
/-- An operation that does not reach the service leaves the manager quiet. -/
theorem WellFormed.quiet_settle (h : m.WellFormed) {e : ManagedSession σ} (he : e ∈ m.sessions)
    (disturbance : Option Disturbance) {s : Session σ} (hid : s.id = e.session.id)
    (hs : ¬ changed e.session.id → s = e.session) :
    m.Quiet changed (m.settle s (m.environment e disturbance).service) := by
  refine ⟨?_, ?_, settle_shutdown _ _ m, ?_, _, settle_sessions _ _ m, fun e' he' => ?_⟩
  · unfold environment
    cases hgenerator : m.generator with
    | none => exact hgenerator
    | some g => rfl
  · unfold environment
    cases m.generator <;> rfl
  · unfold environment
    cases m.generator <;> exact fun _ h => h
  · split
    · next hid' =>
      obtain rfl := h.eq_of_id he' he (hid'.trans hid)
      refine ⟨hid, ?_, hs⟩
      unfold environment
      cases m.generator <;> rfl
    · exact .of_eq rfl rfl

variable [GenerationService γ]

/-- A shut down manager stays quiet while it carries out an operation. -/
theorem WellFormed.quiet_perform (h : m.WellFormed) (hshut : m.isShutDown = true) (id : String)
    (op : Operation) (disturbance : Option Disturbance)
    (hdirect : op.cancelled? = none → changed id) :
    m.Quiet changed (m.perform id op disturbance).2 := by
  cases he : m.session? id with
  | none =>
    rw [Manager.perform, he]
    exact .refl changed m
  | some e =>
    have hmem := mem_of_session? he
    refine .trans ?_ (quiet_disturbance changed he op disturbance)
    cases hop : op.cancelled? with
    | some response =>
      obtain ⟨hsame, -⟩ := Session.perform_calledOff hop (h.sessions e hmem).translates
        (h.calledOff hshut hmem disturbance)
      rw [hsame]
      exact h.quiet_settle hmem disturbance rfl fun _ => rfl
    | none =>
      obtain ⟨⟨program, ontology, engine, hs⟩, -⟩ :=
        (h.sessions e hmem).checked.perform op (m.environment e disturbance)
      rw [Session.perform_env_of_direct hop]
      refine h.quiet_settle hmem disturbance (by rw [hs]) fun hsame => ?_
      exact absurd (id_of_session? he ▸ hdirect hop) hsame

/-- A shut down manager stays quiet, and a request changes no session but the one it takes
something to. -/
theorem WellFormed.quiet_serve (h : m.WellFormed) (hshut : m.isShutDown = true)
    (request : Request) : m.Quiet request.IsDirect (m.serve request) := by
  cases request with
  | create id options =>
    rw [Manager.serve, create_of_isShutDown hshut]
    exact .refl _ m
  | perform id op disturbance =>
    exact h.quiet_perform hshut id op disturbance fun hop => ⟨rfl, hop⟩
  | _ => exact quiet_serve_of_isQuiet _ m trivial

theorem WellFormed.serve_of_isShutDown (h : m.WellFormed) (hshut : m.isShutDown = true)
    (request : Request) : (m.serve request).WellFormed := by
  cases request with
  | create id options => rwa [Manager.serve, create_of_isShutDown hshut]
  | _ => exact h.serve _ trivial

theorem WellFormed.quiet_run (h : m.WellFormed) (hshut : m.isShutDown = true)
    (requests : List Request) :
    (m.run requests).WellFormed ∧
      m.Quiet (fun id => ∃ request ∈ requests, request.IsDirect id) (m.run requests) := by
  induction requests generalizing m with
  | nil => exact ⟨h, .refl _ m⟩
  | cons request requests ih =>
    have hserve := h.quiet_serve hshut request
    obtain ⟨hwf, hrun⟩ := ih (h.serve_of_isShutDown hshut request) (hserve.isShutDown hshut)
    refine ⟨hwf, (hserve.mono fun id hdirect => ?_).trans (hrun.mono fun id hdirect => ?_)⟩
    · exact ⟨request, List.mem_cons_self, hdirect⟩
    · obtain ⟨request', hmem, hdirect⟩ := hdirect
      exact ⟨request', List.mem_cons_of_mem _ hmem, hdirect⟩

omit [GenerationService γ] [Engine σ] in
theorem isShutDown_shutDown (m : Manager γ σ) : m.shutDown.isShutDown = true :=
  Cancellations.isCancelled_eq_true.mpr ⟨_, List.mem_cons_self, List.mem_cons_self⟩

/-- An operation of a shut down manager reports that it has been called off, unless its input is
refused. -/
theorem WellFormed.perform_of_isShutDown (h : m.WellFormed) (hshut : m.isShutDown = true)
    {id : String} {e : ManagedSession σ} (he : m.session? id = some e) {op : Operation}
    {response : Response} (hop : op.cancelled? = some response)
    (htakes : e.session.Takes m.generator.isSome op) (disturbance : Option Disturbance) :
    ∃ time, (m.perform id op disturbance).1 = some (response, time) := by
  have hmem := mem_of_session? he
  have hservice : (m.environment e disturbance).service.isSome = m.generator.isSome :=
    Option.isSome_map
  obtain ⟨-, hresponse⟩ := Session.perform_calledOff hop (h.sessions e hmem).translates
    (h.calledOff hshut hmem disturbance)
  have hresponse := hresponse (hservice ▸ htakes)
  unfold Manager.perform
  rw [he]
  dsimp only
  rw [hresponse]
  cases disturbance with
  | none => exact ⟨_, rfl⟩
  | some disturbance => cases disturbance <;> exact ⟨_, rfl⟩

/-- After a manager has been shut down, whatever it is asked, the generation service is not called
any more and no session is created. Statements, queries, questions and chains of reasoning fail
because they have been called off, unless their input is refused, and a session changes only by an
operation that takes clauses, an ontology or a snapshot to it, or clears it. -/
theorem quiet_after_shutDown (h : m.Reachable) (hshut : m.isShutDown = true)
    (requests : List Request) :
    let m' := m.run requests
    m'.generator = m.generator ∧
    m'.sessions.map (·.session.id) = m.sessions.map (·.session.id) ∧
    (∀ id options,
      m'.create id options = (.error (.session (.invalidInput .shutDown)), m')) ∧
    (∀ id op disturbance e response, m'.session? id = some e → op.cancelled? = some response →
      e.session.Takes m'.generator.isSome op →
      response.failure? = some ⟨.cancelled, "translation was cancelled", []⟩ ∧
      ∃ time, (m'.perform id op disturbance).1 = some (response, time)) ∧
    ∀ request id, ¬ request.IsDirect id →
      ((m'.serve request).session? id).map (·.session) = (m'.session? id).map (·.session) := by
  intro m'
  obtain ⟨hwf, hquiet⟩ := h.wellFormed.quiet_run hshut requests
  have hshut' : m'.isShutDown = true := hquiet.isShutDown hshut
  refine ⟨hquiet.generator, hquiet.ids, fun id options => create_of_isShutDown hshut' id options,
    ?_, ?_⟩
  · intro id op disturbance e response he hop htakes
    exact ⟨Operation.failure?_of_cancelled? hop,
      hwf.perform_of_isShutDown hshut' he hop htakes disturbance⟩
  · intro request id hdirect
    exact (hwf.quiet_serve hshut' request).session? hdirect

/-- The pending operations of the only session are called off after the shutdown. Its new token is
cancelled all the same, so a chain of reasoning does not begin, and the program gets only the clause
that is asserted directly. -/
theorem quiet_after_shutDown_tweety :
    let g : ScriptedGenerator := .new (.always (.ok "bird(tweety).")) none 0 0
    let m : Manager ScriptedGenerator MemoryEngine :=
      { settings := {}, generator := some g, newEngine := .new {}, shutdown := ⟨0, []⟩,
        cancellations := ⟨1, []⟩ }
    let m₁ := (m.serve (.create "s" { ontology := some { types := ["bird"] } })).serve .shutDown
    let m₂ := m₁.run [.cancelPending "s", .perform "s" (.assert "bird(tweety).") none]
    m₁.Reachable ∧ m₁.isShutDown = true ∧ m₂.generator = some g ∧
    (m₂.session? "s").map (·.session.program) = some ["bird(tweety)."] ∧
    ∃ time, (m₂.perform "s" (.reason "Who is a bird?" (some 2)) none).1 =
      some (.reasoning (.error (.translation .cancelled)), time) := by
  intro g m m₁ m₂
  have hnew : Manager.new {} (some g) (.new {}) = .ok m := rfl
  have hreach : m₁.Reachable := .serve _ (.serve _ (.new hnew) rfl) trivial
  have hshut : m₁.isShutDown = true := isShutDown_shutDown _
  have hprogram : (m₂.session? "s").map (·.session.program) = some ["bird(tweety)."] := by
    decide +kernel
  have hgenerator : m₂.generator.isSome = true := by decide +kernel
  have htask : Text.trim "Who is a bird?" ≠ "" := by decide +kernel
  obtain ⟨hsame, -, -, hcancelled, -⟩ := quiet_after_shutDown hreach hshut
    [.cancelPending "s", .perform "s" (.assert "bird(tweety).") none]
  refine ⟨hreach, hshut, hsame, hprogram, ?_⟩
  cases he : m₂.session? "s" with
  | none =>
    rw [he] at hprogram
    cases hprogram
  | some e =>
    obtain ⟨-, hperform⟩ := hcancelled "s" (.reason "Who is a bird?" (some 2)) none e _ he rfl
      ⟨htask, Nat.succ_ne_zero 1, hgenerator⟩
    exact hperform

end Manager

end OntoLogic
