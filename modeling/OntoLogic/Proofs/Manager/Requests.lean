-- SUMMARY: What can be asked of a manager, and what holds of its sessions whatever is asked.
import Mathlib.Data.List.Nodup
import OntoLogic.Manager
import OntoLogic.Proofs.Session.Cancelled
import OntoLogic.Proofs.Session.History

/-!
# Requests to a manager

A manager is asked to create sessions, to find them, to let them go, to call their operations off,
and to carry out their operations. Whatever it is asked, its sessions have different ids and
programs that their ontologies allow, their pipelines have strategies and rounds, and their tokens
are children of the token of the manager.
-/

namespace OntoLogic

variable {γ σ : Type}

/-- What can be asked of a manager. -/
inductive Manager.Request where
  | create (id : String) (options : SessionOptions)
  | lookup (id : String)
  | ids
  | drop (id : String)
  | release (id : String)
  | cancelPending (id : String)
  | shutDown
  | perform (id : String) (op : Operation) (disturbance : Option Disturbance)

/-- A session that its manager keeps in order. -/
structure ManagedSession.WellFormed (e : ManagedSession σ) (shutdown : CancellationToken) :
    Prop where
  checked : e.session.Checked
  translates : e.session.pipeline.CanTranslate
  child : e.cancel.ancestors = shutdown.number :: shutdown.ancestors

/-- What is known of a session besides its token does not matter. -/
theorem ManagedSession.WellFormed.of_eq {e e' : ManagedSession σ} {shutdown : CancellationToken}
    (h : e.WellFormed shutdown) (hsession : e'.session = e.session)
    (hcancel : e'.cancel = e.cancel) : e'.WellFormed shutdown :=
  ⟨hsession ▸ h.checked, hsession ▸ h.translates, hcancel ▸ h.child⟩

/-- A session that has generated nothing, and has taken something only if it is said to have
changed. -/
structure ManagedSession.Quiet (changed : Prop) (e e' : ManagedSession σ) : Prop where
  id : e'.session.id = e.session.id
  usage : e'.usage = e.usage
  session : ¬ changed → e'.session = e.session

theorem ManagedSession.Quiet.of_eq {changed : Prop} {e e' : ManagedSession σ}
    (hsession : e'.session = e.session) (husage : e'.usage = e.usage) : e.Quiet changed e' :=
  ⟨congrArg Session.id hsession, husage, fun _ => hsession⟩

theorem Strategy.resolveAll_ne_nil {names : List String} {strategies : List Strategy}
    (h : Strategy.resolveAll names = .ok strategies) (hnames : names ≠ []) : strategies ≠ [] := by
  obtain ⟨name, names, rfl⟩ := List.exists_cons_of_ne_nil hnames
  rintro rfl
  unfold Strategy.resolveAll at h
  rw [List.mapM_cons] at h
  cases hname : Strategy.resolveForTranslation name with
  | error e => simp [hname, bind, Except.bind] at h
  | ok strategy =>
    cases hnames : names.mapM Strategy.resolveForTranslation with
    | error e => simp [hname, hnames, bind, Except.bind] at h
    | ok strategies => simp [hname, hnames, bind, Except.bind, pure, Except.pure] at h

/-- The pipelines that settings describe have strategies and rounds. -/
theorem TranslationSettings.canTranslate {t : TranslationSettings} {p : Pipeline}
    (h : t.toPipeline = .ok p) : p.CanTranslate := by
  revert h
  unfold toPipeline
  split
  · next hvalid =>
    obtain ⟨hattempts, hstrategies⟩ := List.append_eq_nil_iff.mp hvalid
    cases hresolve : Strategy.resolveAll t.strategies with
    | error e => exact nofun
    | ok strategies =>
      rintro ⟨⟩
      refine ⟨Strategy.resolveAll_ne_nil hresolve ?_, ?_⟩
      · intro hempty
        simp [hempty] at hstrategies
      · intro hzero
        rw [if_pos hzero] at hattempts
        cases hattempts
  · exact nofun

namespace Session

variable [Engine σ] [GenerationService γ]

omit [GenerationService γ] in
/-- Whatever an operation does, it changes nothing but program, ontology and engine. -/
theorem Effect.becomes {s s' : Session σ} {op : Operation} {response : Response}
    {texts : List String} (h : s.Effect s' op response texts) :
    ∃ program ontology, s.Becomes program ontology s' := by
  cases h with
  | asserted _ _ _ hs' | reasoned _ hs' => exact ⟨_, _, hs'.2⟩
  | answered hs' => exact ⟨_, _, hs'.becomes⟩
  | notAsserted _ hs' | notRemoved _ hs' | notRevalidated hs' | notCleared hs' => exact ⟨_, _, hs'⟩
  | removed _ _ _ hs' | loaded _ _ hs' | revalidated _ _ hs' | cleared _ hs' => exact ⟨_, _, hs'⟩

theorem Checked.perform {s : Session σ} (hs : s.Checked) (op : Operation)
    (env : Environment (Option γ)) :
    (∃ program ontology, s.Becomes program ontology (s.perform op env).2.1) ∧
      (s.perform op env).2.1.Checked := by
  have heffect : s.Effect (s.perform op env).2.1 op (s.perform op env).1
      (s.assertions op (s.perform op env).1 env) := hs.perform_effect rfl
  exact ⟨heffect.becomes, heffect.checked hs⟩

end Session

namespace Manager

/-- A manager whose sessions are in order. -/
structure WellFormed (m : Manager γ σ) : Prop where
  distinct : (m.sessions.map (·.session.id)).Nodup
  sessions : ∀ e ∈ m.sessions, e.WellFormed m.shutdown

variable {m m' : Manager γ σ} {id : String}

/-! ## Finding sessions -/

theorem id_of_session? {e : ManagedSession σ} (h : m.session? id = some e) : e.session.id = id := by
  simpa using List.find?_some h

theorem mem_of_session? {e : ManagedSession σ} (h : m.session? id = some e) : e ∈ m.sessions :=
  List.mem_of_find?_eq_some h

theorem WellFormed.eq_of_id (h : m.WellFormed) {e e' : ManagedSession σ} (he : e ∈ m.sessions)
    (he' : e' ∈ m.sessions) (hid : e.session.id = e'.session.id) : e = e' :=
  List.inj_on_of_nodup_map h.distinct he he' hid

/-- A change that keeps ids keeps what is found by them. -/
theorem session?_map {change : ManagedSession σ → ManagedSession σ}
    (hsessions : m'.sessions = m.sessions.map change)
    (hid : ∀ e ∈ m.sessions, (change e).session.id = e.session.id) :
    m'.session? id = (m.session? id).map change := by
  unfold Manager.session?
  rw [hsessions]
  generalize m.sessions = sessions at hid
  induction sessions with
  | nil => rfl
  | cons e sessions ih =>
    obtain ⟨he, hsessions⟩ := List.forall_mem_cons.mp hid
    rw [List.map_cons, List.find?_cons, List.find?_cons, he]
    split
    · rfl
    · exact ih hsessions

theorem WellFormed.map {change : ManagedSession σ → ManagedSession σ} (h : m.WellFormed)
    (hsessions : m'.sessions = m.sessions.map change) (hshutdown : m'.shutdown = m.shutdown)
    (hchange : ∀ e ∈ m.sessions, (change e).session.id = e.session.id ∧
      (change e).WellFormed m.shutdown) : m'.WellFormed where
  distinct := by
    have hids : (m.sessions.map change).map (·.session.id) = m.sessions.map (·.session.id) := by
      rw [List.map_map]
      exact List.map_congr_left fun e he => (hchange e he).1
    rw [hsessions, hids]
    exact h.distinct
  sessions e he := by
    rw [hsessions] at he
    obtain ⟨e, hmem, rfl⟩ := List.mem_map.mp he
    rw [hshutdown]
    exact (hchange e hmem).2

/-! ## Requests that change what is known of sessions -/

theorem WellFormed.update {change : ManagedSession σ → ManagedSession σ} (h : m.WellFormed)
    (hchange : ∀ e ∈ m.sessions, e.session.id = id →
      (change e).session.id = id ∧ (change e).WellFormed m.shutdown) :
    (m.update id change).WellFormed := by
  refine h.map rfl rfl fun e he => ?_
  split
  · next hid => exact ⟨(hchange e he hid).1.trans hid.symm, (hchange e he hid).2⟩
  · exact ⟨rfl, h.sessions e he⟩

theorem WellFormed.lookup (h : m.WellFormed) (id : String) : (m.lookup id).2.WellFormed :=
  h.update fun e he hid => ⟨hid, (h.sessions e he).of_eq rfl rfl⟩

theorem WellFormed.ids (h : m.WellFormed) : m.ids.2.WellFormed :=
  h.map rfl rfl fun e he => ⟨rfl, (h.sessions e he).of_eq rfl rfl⟩

theorem WellFormed.drop (h : m.WellFormed) (id : String) : (m.drop id).WellFormed :=
  h.update fun e he hid => ⟨hid, (h.sessions e he).of_eq rfl rfl⟩

theorem WellFormed.shutDown (h : m.WellFormed) : m.shutDown.WellFormed :=
  h.map rfl rfl fun e he => ⟨rfl, (h.sessions e he).of_eq rfl rfl⟩

/-- The new token of a session is again a child of the token of the manager. -/
theorem WellFormed.cancelPending (h : m.WellFormed) (id : String) :
    (m.cancelPending id).WellFormed := by
  unfold Manager.cancelPending
  split
  · exact h
  · next e _ =>
    have hcancellations : ∀ cancellations, { m with cancellations }.WellFormed :=
      fun _ => ⟨h.distinct, h.sessions⟩
    refine (hcancellations _).update fun e he hid => ⟨hid, ?_⟩
    exact ⟨(h.sessions e he).checked, (h.sessions e he).translates, rfl⟩

theorem WellFormed.release (h : m.WellFormed) (id : String) : (m.release id).2.WellFormed := by
  unfold Manager.release
  split
  · exact h
  · split
    · have hcancel : (if ‹ManagedSession σ›.isHeld then m.cancelPending id else m).WellFormed := by
        split
        · exact h.cancelPending id
        · exact h
      exact hcancel.update fun e he hid => ⟨hid, (hcancel.sessions e he).of_eq rfl rfl⟩
    · exact h

/-! ## Quiet managers -/

/-- Between two states of a manager nothing has been generated and no session has been created, and
what a session has taken has changed for some sessions only. -/
structure Quiet (changed : String → Prop) (m m' : Manager γ σ) : Prop where
  generator : m'.generator = m.generator
  usage : m'.usage = m.usage
  shutdown : m'.shutdown = m.shutdown
  cancelled : m.cancellations.cancelled ⊆ m'.cancellations.cancelled
  sessions : ∃ change : ManagedSession σ → ManagedSession σ,
    m'.sessions = m.sessions.map change ∧
      ∀ e ∈ m.sessions, e.Quiet (changed e.session.id) (change e)

variable {changed : String → Prop} {m'' : Manager γ σ}

theorem Quiet.refl (changed : String → Prop) (m : Manager γ σ) : m.Quiet changed m :=
  ⟨rfl, rfl, rfl, fun _ h => h, id, (List.map_id _).symm, fun _ _ => .of_eq rfl rfl⟩

theorem Quiet.trans (h : m.Quiet changed m') (h' : m'.Quiet changed m'') : m.Quiet changed m'' := by
  obtain ⟨change, hsessions, hchange⟩ := h.sessions
  obtain ⟨change', hsessions', hchange'⟩ := h'.sessions
  refine ⟨h'.generator.trans h.generator, h'.usage.trans h.usage, h'.shutdown.trans h.shutdown,
    List.Subset.trans h.cancelled h'.cancelled, change' ∘ change, ?_, fun e he => ?_⟩
  · rw [hsessions', hsessions, List.map_map]
  · have hfirst := hchange e he
    have hsecond := hchange' (change e) (hsessions ▸ List.mem_map_of_mem he)
    rw [hfirst.id] at hsecond
    exact ⟨hsecond.id.trans hfirst.id, hsecond.usage.trans hfirst.usage,
      fun h => (hsecond.session h).trans (hfirst.session h)⟩

theorem Quiet.mono {changed' : String → Prop} (h : m.Quiet changed m')
    (hmono : ∀ id, changed id → changed' id) : m.Quiet changed' m' := by
  obtain ⟨change, hsessions, hchange⟩ := h.sessions
  exact { h with sessions := ⟨change, hsessions, fun e he =>
    { hchange e he with session := fun hsame => (hchange e he).session (mt (hmono _) hsame) }⟩ }

/-- No session is created. -/
theorem Quiet.ids (h : m.Quiet changed m') :
    m'.sessions.map (·.session.id) = m.sessions.map (·.session.id) := by
  obtain ⟨change, hsessions, hchange⟩ := h.sessions
  rw [hsessions, List.map_map]
  exact List.map_congr_left fun e he => (hchange e he).id

theorem Quiet.session? (h : m.Quiet changed m') {id : String} (hsame : ¬ changed id) :
    (m'.session? id).map (·.session) = (m.session? id).map (·.session) := by
  obtain ⟨change, hsessions, hchange⟩ := h.sessions
  rw [session?_map hsessions fun e he => (hchange e he).id, Option.map_map]
  cases he : m.session? id with
  | none => rfl
  | some e =>
    have hid := id_of_session? he
    exact congrArg some ((hchange e (mem_of_session? he)).session (hid ▸ hsame))

/-- The sessions stay when only what is known of them besides changes. -/
theorem Quiet.of_map (change : ManagedSession σ → ManagedSession σ)
    (hchange : ∀ e, (change e).session = e.session ∧ (change e).usage = e.usage)
    {cancellations : Cancellations}
    (hcancelled : m.cancellations.cancelled ⊆ cancellations.cancelled) :
    m.Quiet changed { m with cancellations, sessions := m.sessions.map change } :=
  ⟨rfl, rfl, rfl, hcancelled, change, rfl, fun e _ => .of_eq (hchange e).1 (hchange e).2⟩

theorem Quiet.update (id : String) (change : ManagedSession σ → ManagedSession σ)
    (hchange : ∀ e, (change e).session = e.session ∧ (change e).usage = e.usage)
    {cancellations : Cancellations}
    (hcancelled : m.cancellations.cancelled ⊆ cancellations.cancelled) :
    m.Quiet changed ({ m with cancellations }.update id change) := by
  refine .of_map _ (fun e => ?_) hcancelled
  split
  · exact hchange e
  · exact ⟨rfl, rfl⟩

theorem quiet_cancelPending (m : Manager γ σ) (id : String) :
    m.Quiet changed (m.cancelPending id) := by
  unfold cancelPending
  split
  · exact .refl changed m
  · refine .update id _ ?_ ?_
    · exact fun _ => ⟨rfl, rfl⟩
    · exact fun _ h => List.mem_cons_of_mem _ h

theorem quiet_release (m : Manager γ σ) (id : String) : m.Quiet changed (m.release id).2 := by
  unfold release
  split
  · exact .refl changed m
  · split
    · next e _ _ =>
      have hcancel : m.Quiet changed (if e.isHeld then m.cancelPending id else m) := by
        split
        · exact quiet_cancelPending m id
        · exact .refl changed m
      exact hcancel.trans
        (.update id (fun e => { e with isRegistered := false }) (fun _ => ⟨rfl, rfl⟩) fun _ h => h)
    · exact .refl changed m

theorem quiet_shutDown (m : Manager γ σ) : m.Quiet changed m.shutDown := by
  refine .of_map (fun e => { e with isRegistered := false }) (fun _ => ⟨rfl, rfl⟩) fun _ h => ?_
  exact List.mem_cons_of_mem _ h

/-! ## Creating sessions -/

variable [Engine σ]

theorem makeSession_ok {options : SessionOptions} {s : Session σ}
    (h : m.makeSession id options = .ok s) :
    ∃ pipeline maxReasoningSteps, pipeline.CanTranslate ∧
      (Session.start id pipeline maxReasoningSteps options.ontology m.newEngine
        m.newEngine).loadInitial options.program = .ok s := by
  unfold makeSession at h
  split at h
  · cases h
  · cases hpipeline : (options.translationSettings m.settings.translation).toPipeline with
    | error e => simp [hpipeline, bind, Except.bind, Except.mapError] at h
    | ok pipeline =>
      have hcan := TranslationSettings.canTranslate hpipeline
      simp only [hpipeline, bind, Except.bind, Except.mapError] at h
      split at h
      · cases h
      · split at h
        · cases h
        · next hload =>
          cases h
          exact ⟨pipeline, _, hcan, hload⟩

theorem WellFormed.create (h : m.WellFormed) {id : String} (hid : m.session? id = none)
    (options : SessionOptions) : (m.create id options).2.WellFormed := by
  unfold Manager.create
  split
  · next s hmake =>
    obtain ⟨pipeline, maxReasoningSteps, hpipeline, hload⟩ := makeSession_ok hmake
    obtain ⟨engine, rfl⟩ := Session.Becomes.loadInitial hload rfl
    refine ⟨?_, List.forall_mem_append.mpr ⟨h.sessions, List.forall_mem_singleton.mpr ?_⟩⟩
    · rw [List.map_append, List.map_singleton]
      refine h.distinct.append (List.nodup_singleton _) (List.disjoint_singleton.mpr ?_)
      intro hmem
      obtain ⟨e, he, heq⟩ := List.mem_map.mp hmem
      exact List.find?_eq_none.mp hid e he (beq_iff_eq.mpr heq)
    · exact ⟨Ontology.revalidate_kept_allowed, hpipeline, rfl⟩
  · exact h

/-! ## Carrying out operations -/

variable [GenerationService γ]

omit [GenerationService γ] [Engine σ] in
/-- What an operation leaves behind concerns the session with its id only. -/
theorem settle_sessions (s : Session σ) (service : Option (Metered γ)) (m : Manager γ σ) :
    (m.settle s service).sessions = m.sessions.map fun e =>
      if e.session.id = s.id then
        { e with session := s, usage := (service.map (·.session)).getD e.usage }
      else e := by
  cases service <;> rfl

omit [GenerationService γ] [Engine σ] in
theorem settle_shutdown (s : Session σ) (service : Option (Metered γ)) (m : Manager γ σ) :
    (m.settle s service).shutdown = m.shutdown := by
  cases service <;> rfl

theorem WellFormed.settle (h : m.WellFormed) {e : ManagedSession σ} (he : m.session? id = some e)
    (op : Operation) (env : Environment (Option (Metered γ))) (service : Option (Metered γ)) :
    (m.settle (e.session.perform op env).2.1 service).WellFormed := by
  have hwf := h.sessions e (mem_of_session? he)
  obtain ⟨⟨program, ontology, hbecomes⟩, hchecked⟩ := hwf.checked.perform op env
  generalize (e.session.perform op env).2.1 = s at hbecomes hchecked
  obtain ⟨engine, rfl⟩ := hbecomes
  refine h.map (settle_sessions _ service m) (settle_shutdown _ service m) fun e' he' => ?_
  split
  · next hid => exact ⟨hid.symm, hchecked, hwf.translates, (h.sessions e' he').child⟩
  · exact ⟨rfl, h.sessions e' he'⟩

theorem WellFormed.perform (h : m.WellFormed) (id : String) (op : Operation)
    (disturbance : Option Disturbance) : (m.perform id op disturbance).2.WellFormed := by
  unfold Manager.perform
  split
  · exact h
  · next e he =>
    have hsettle := h.settle he op (m.environment e disturbance)
      (e.session.perform op (m.environment e disturbance)).2.2.service
    cases disturbance with
    | none => exact hsettle
    | some disturbance =>
      cases disturbance with
      | cancel time => exact hsettle.cancelPending id
      | shutDown time => exact hsettle.shutDown

/-- After an operation its disturbance only calls off what is pending. -/
theorem quiet_disturbance (changed : String → Prop) {e : ManagedSession σ}
    (he : m.session? id = some e) (op : Operation) (disturbance : Option Disturbance) :
    (m.settle (e.session.perform op (m.environment e disturbance)).2.1
      (e.session.perform op (m.environment e disturbance)).2.2.service).Quiet changed
      (m.perform id op disturbance).2 := by
  unfold Manager.perform
  rw [he]
  cases disturbance with
  | none => exact .refl changed _
  | some disturbance =>
    cases disturbance with
    | cancel time => exact quiet_cancelPending _ id
    | shutDown time => exact quiet_shutDown _

/-! ## Runs -/

def serve (request : Request) (m : Manager γ σ) : Manager γ σ :=
  match request with
  | .create id options => (m.create id options).2
  | .lookup id => (m.lookup id).2
  | .ids => m.ids.2
  | .drop id => m.drop id
  | .release id => (m.release id).2
  | .cancelPending id => m.cancelPending id
  | .shutDown => m.shutDown
  | .perform id op disturbance => (m.perform id op disturbance).2

def run (requests : List Request) (m : Manager γ σ) : Manager γ σ :=
  requests.foldl (fun m request => m.serve request) m

/-- A new session gets an id that no session has. -/
def Request.IsFresh (m : Manager γ σ) : Request → Prop
  | .create id _ => m.session? id = none
  | _ => True

/-- A manager that has been set up and has served requests. -/
inductive Reachable : Manager γ σ → Prop
  | new {settings : Settings} {generator : Option γ} {newEngine : σ} {messages : JsonMessages}
    {m : Manager γ σ} : Manager.new settings generator newEngine messages = .ok m → Reachable m
  | serve {m : Manager γ σ} (request : Request) : Reachable m → request.IsFresh m →
    Reachable (m.serve request)

omit [Engine σ] [GenerationService γ] in
theorem new_ok {settings : Settings} {generator : Option γ} {newEngine : σ}
    {messages : JsonMessages} (h : Manager.new settings generator newEngine messages = .ok m) :
    m = { settings, generator, newEngine, shutdown := ⟨0, []⟩, cancellations := ⟨1, []⟩,
          messages } := by
  unfold Manager.new at h
  cases hvalid : settings.validate with
  | error e => simp [hvalid, bind, Except.bind] at h
  | ok =>
    cases hgenerator : settings.checkGenerator with
    | error e => simp [hvalid, hgenerator, bind, Except.bind] at h
    | ok =>
      simp only [hvalid, hgenerator, bind, Except.bind, pure, Except.pure] at h
      exact (Except.ok.inj h).symm

theorem WellFormed.serve (h : m.WellFormed) (request : Request) (hfresh : request.IsFresh m) :
    (m.serve request).WellFormed := by
  cases request with
  | create id options => exact h.create hfresh options
  | lookup id => exact h.lookup id
  | ids => exact h.ids
  | drop id => exact h.drop id
  | release id => exact h.release id
  | cancelPending id => exact h.cancelPending id
  | shutDown => exact h.shutDown
  | perform id op disturbance => exact h.perform id op disturbance

/-- The sessions of a manager are in order whatever it has been asked. -/
theorem Reachable.wellFormed (h : m.Reachable) : m.WellFormed := by
  induction h with
  | new hnew =>
    rw [new_ok hnew]
    exact ⟨List.nodup_nil, nofun⟩
  | serve request _ hfresh ih => exact ih.serve request hfresh

/-- A request neither creates a session nor carries out an operation. -/
def Request.IsQuiet : Request → Prop
  | .create _ _ | .perform _ _ _ => False
  | _ => True

theorem quiet_serve_of_isQuiet (changed : String → Prop) (m : Manager γ σ) {request : Request}
    (h : request.IsQuiet) : m.Quiet changed (m.serve request) := by
  cases request with
  | create id options => cases h
  | perform id op disturbance => cases h
  | lookup id => exact .update id .prune (fun _ => ⟨rfl, rfl⟩) fun _ h => h
  | ids => exact .of_map .prune (fun _ => ⟨rfl, rfl⟩) fun _ h => h
  | drop id =>
    exact .update id (fun e => { e with isHeld := false }) (fun _ => ⟨rfl, rfl⟩) fun _ h => h
  | release id => exact quiet_release m id
  | cancelPending id => exact quiet_cancelPending m id
  | shutDown => exact quiet_shutDown m

end Manager

end OntoLogic
