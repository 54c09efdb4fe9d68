-- SUMMARY: The usage of a manager is the sum of the usage of its sessions.
import OntoLogic.Engine.Memory
import OntoLogic.Generation.Script
import OntoLogic.Proofs.Generation.Simulation
import OntoLogic.Proofs.Generation.Usage
import OntoLogic.Proofs.Manager.Requests

/-!
# Usage of managers

An operation counts exactly the answers that it gets, for its session and for the manager. So the
usage of a manager is the sum of the usage of its sessions, whatever it has been asked, and also
when operations of its sessions are carried out at the same time.
-/

namespace OntoLogic

variable {γ σ : Type} [GenerationService γ]

/-! ## Transcripts -/

/-- A service whose answers are written down. -/
structure Transcribed (γ : Type) where
  service : γ
  answers : List Answer := []

instance : GenerationService (Transcribed γ) where
  request prompt t :=
    let (delay, service) := GenerationService.request prompt t.service
    (delay, { t with service })
  respond prompt t :=
    let (answer, service) := GenerationService.respond prompt t.service
    (answer, { service, answers := t.answers ++ [answer] })

/-- A metered service counts an answer for the session and for all sessions together. -/
theorem Metered.respond_eq (prompt : String) (x : Metered γ) :
    GenerationService.respond prompt x =
      ((GenerationService.respond prompt x.service).1,
        { service := (GenerationService.respond prompt x.service).2
          session := x.session.count (GenerationService.respond prompt x.service).1
          total := x.total.count (GenerationService.respond prompt x.service).1 }) := by
  obtain ⟨service, session, total⟩ := x
  simp only [GenerationService.respond]
  generalize GenerationService.respond prompt service = answered
  obtain ⟨answer, service'⟩ := answered
  cases answer <;> rfl

/-- A metered service has counted what has been written down. -/
structure Metered.Counts (session total : Usage) (x : Metered γ) (t : Transcribed (Metered γ)) :
    Prop where
  service : t.service = x
  session : x.session = t.answers.foldl Usage.count session
  total : x.total = t.answers.foldl Usage.count total

theorem Metered.simulation (session total : Usage) :
    GenerationService.Simulation (Metered.Counts (γ := γ) session total) where
  request prompt x t h := by
    obtain ⟨x', answers⟩ := t
    obtain ⟨rfl, hsession, htotal⟩ := h
    exact ⟨rfl, rfl, hsession, htotal⟩
  respond prompt x t h := by
    obtain ⟨x', answers⟩ := t
    obtain ⟨rfl, hsession, htotal⟩ := h
    have hanswers : (GenerationService.respond prompt (Transcribed.mk x' answers)).2.answers =
        answers ++ [(GenerationService.respond prompt x').1] := rfl
    refine ⟨rfl, rfl, ?_, ?_⟩
    · rw [hanswers, List.foldl_concat, ← hsession, Metered.respond_eq]
    · rw [hanswers, List.foldl_concat, ← htotal, Metered.respond_eq]

/-- An environment whose service has its answers written down. -/
def Environment.transcribed (env : Environment (Option γ)) :
    Environment (Option (Transcribed γ)) where
  service := env.service.map ({ service := · })
  now := env.now
  deadline := env.deadline
  calledOff := env.calledOff
  messages := env.messages

namespace Session

variable [Engine σ]

/-- The answers that an operation gets. -/
def transcript (op : Operation) (env : Environment (Option γ)) (s : Session σ) : List Answer :=
  (s.perform op env.transcribed).2.2.service.elim [] (·.answers)

/-- What an operation leaves of a metered service has counted what has been written down. -/
theorem perform_transcribed (op : Operation) (env : Environment (Option (Metered γ)))
    (s : Session σ) (session total : Usage)
    (hx : ∀ x ∈ env.service, x.session = session ∧ x.total = total) :
    Option.Rel (Metered.Counts session total) (s.perform op env).2.2.service
        (s.perform op env.transcribed).2.2.service ∧
      (s.perform op env).2.2.service.isSome = env.service.isSome := by
  have hrel : Environment.Related (fun x t => Option.Rel (Metered.Counts session total) x t ∧
      x.isSome = env.service.isSome) env env.transcribed := by
    refine ⟨⟨?_, rfl⟩, rfl, rfl, rfl, rfl⟩
    unfold Environment.transcribed
    generalize env.service = service at hx
    cases service with
    | none => exact .none
    | some x => exact .some ⟨rfl, (hx x rfl).1, (hx x rfl).2⟩
  obtain ⟨response, s', e, e', hrun, hrun', hafter⟩ := perform_related
    ((Metered.simulation session total).option env.service.isSome) hrel op s
  rw [hrun, hrun']
  exact hafter.service

/-- An operation counts the answers that it gets. -/
theorem perform_counts (op : Operation) {env : Environment (Option (Metered γ))} (s : Session σ)
    {x : Metered γ} (hx : env.service = some x) :
    ∃ x', (s.perform op env).2.2.service = some x' ∧
      x'.session = (s.transcript op env).foldl Usage.count x.session ∧
      x'.total = (s.transcript op env).foldl Usage.count x.total := by
  obtain ⟨hcounts, hsome⟩ := s.perform_transcribed op env x.session x.total
    fun y hy => Option.some.inj (hx.symm.trans hy) ▸ ⟨rfl, rfl⟩
  obtain ⟨x', hx'⟩ := Option.isSome_iff_exists.mp (hsome.trans (hx ▸ rfl))
  rw [hx'] at hcounts
  unfold transcript
  generalize (s.perform op env.transcribed).2.2.service = service at hcounts
  cases hcounts with
  | some hcounts => exact ⟨x', hx', hcounts.session, hcounts.total⟩

/-- Without a service there are no answers. -/
theorem perform_of_no_service (op : Operation) {env : Environment (Option (Metered γ))}
    (s : Session σ) (hx : env.service = none) :
    (s.perform op env).2.2.service = none ∧ s.transcript op env = [] := by
  obtain ⟨hcounts, hsome⟩ := s.perform_transcribed op env {} {} (hx ▸ nofun)
  have hnone : (s.perform op env).2.2.service = none :=
    Option.isNone_iff_eq_none.mp (by simpa [hx] using hsome)
  rw [hnone] at hcounts
  unfold transcript
  generalize (s.perform op env.transcribed).2.2.service = service at hcounts
  cases hcounts with
  | none => exact ⟨hnone, rfl⟩

end Session

variable [Engine σ]

namespace Manager

/-! ## Operations at the same time -/

omit [GenerationService γ] in
/-- Operations of sessions that are carried out at the same time: the answers that those in progress
are still going to get, the answers that there have been, and the counters. Any operation in
progress can be the next to get an answer, and the additions of its recording may be made at any
time after that. What an operation sees of the service, other operations may have changed; so each
may meet a service of its own. An operation may be given up. -/
inductive Interleaving (σ : Type) [Engine σ] :
    List (String × List Answer) → List (String × Answer) → Meter → Prop
  | start : Interleaving σ [] [] {}
  | create {ops : List (String × List Answer)} {log : List (String × Answer)} {m : Meter}
    (id : String) : Interleaving σ ops log m → id ∉ m.ids →
    Interleaving σ ops log { m with ids := m.ids ++ [id] }
  | enter {ops : List (String × List Answer)} {log : List (String × Answer)} {m : Meter} {δ : Type}
    [GenerationService δ] (s : Session σ) (op : Operation) (env : Environment (Option δ)) :
    Interleaving σ ops log m → s.id ∈ m.ids →
    Interleaving σ (ops ++ [(s.id, s.transcript op env)]) log m
  | answer (before after : List (String × List Answer)) {log : List (String × Answer)} {m : Meter}
    {id : String} {answer : Answer} {answers : List Answer} :
    Interleaving σ (before ++ (id, answer :: answers) :: after) log m →
    Interleaving σ (before ++ (id, answers) :: after) (log ++ [(id, answer)])
      { m with pending := m.pending ++ recordings id answer }
  | add {ops : List (String × List Answer)} {log : List (String × Answer)} {m : Meter}
    {a : Addition} (before after : List Addition) :
    Interleaving σ ops log m → m.pending = before ++ a :: after →
    Interleaving σ ops log { m.add a with pending := before ++ after }
  | leave (before after : List (String × List Answer)) {log : List (String × Answer)} {m : Meter}
    {op : String × List Answer} : Interleaving σ (before ++ op :: after) log m →
    Interleaving σ (before ++ after) log m

namespace Interleaving

variable {ops : List (String × List Answer)} {log : List (String × Answer)} {m : Meter}

/-- The operations in progress are operations of sessions, and what they do to the counters is what
sessions that get their answers do. -/
theorem run (h : Interleaving σ ops log m) : (∀ op ∈ ops, op.1 ∈ m.ids) ∧ m.Run log := by
  induction h with
  | start => exact ⟨nofun, .start⟩
  | create id _ hid ih =>
    exact ⟨fun op hop => List.mem_append_left _ (ih.1 op hop), ih.2.create hid⟩
  | enter s op env _ hid ih =>
    exact ⟨List.forall_mem_append.mpr ⟨ih.1, List.forall_mem_singleton.mpr hid⟩, ih.2⟩
  | answer before after _ ih =>
    obtain ⟨hops, hrun⟩ := ih
    obtain ⟨hbefore, hid, hafter⟩ := List.forall_mem_append.mp hops |>.imp_right
      List.forall_mem_cons.mp
    exact ⟨List.forall_mem_append.mpr ⟨hbefore, List.forall_mem_cons.mpr ⟨hid, hafter⟩⟩,
      hrun.call _ hid⟩
  | add before after _ hpending ih => exact ⟨ih.1, ih.2.add hpending⟩
  | leave before after _ ih =>
    obtain ⟨hops, hrun⟩ := ih
    obtain ⟨hbefore, hafter⟩ := List.forall_mem_append.mp hops
    exact ⟨List.forall_mem_append.mpr ⟨hbefore, (List.forall_mem_cons.mp hafter).2⟩, hrun⟩

/-- The pending additions can be made in their order. -/
theorem drain {pending : List Addition} (h : Interleaving σ ops log { m with pending })
    (hm : m.pending = []) : Interleaving σ ops log (pending.foldl (fun m a => m.add a) m) := by
  induction pending generalizing m with
  | nil =>
    rw [← hm] at h
    exact h
  | cons a pending ih => exact ih (m := m.add a) (h.add [] pending rfl) hm

/-- An operation can get its answers while nothing else happens. -/
theorem answers {id : String} {answers : List Answer} (h : Interleaving σ [(id, answers)] log m)
    (hm : m.pending = []) :
    Interleaving σ [(id, [])] (log ++ answers.map (id, ·))
      (answers.foldl (fun m answer => m.count id answer) m) := by
  induction answers generalizing log m with
  | nil => rwa [List.map_nil, List.append_nil]
  | cons answer answers ih =>
    have hanswer := h.answer [] []
    simp only [hm, List.nil_append] at hanswer
    have hcount := hanswer.drain hm
    rw [Meter.foldl_recordings] at hcount
    have hrest := ih hcount hm
    rwa [List.append_assoc] at hrest

/-- An operation can be carried out while nothing else happens. -/
theorem operation {δ : Type} [GenerationService δ] (h : Interleaving σ [] log m)
    (hm : m.pending = []) (s : Session σ) (hid : s.id ∈ m.ids) (op : Operation)
    (env : Environment (Option δ)) :
    Interleaving σ [] (log ++ (s.transcript op env).map (s.id, ·))
      ((s.transcript op env).foldl (fun m answer => m.count s.id answer) m) :=
  ((h.enter s op env hid).answers hm).leave [] []

end Interleaving

/-! ## Requests -/

/-- The counters of a manager. No addition is pending between requests. -/
def meter (m : Manager γ σ) : Meter where
  ids := m.sessions.map (·.session.id)
  usage
    | none => m.usage
    | some id => ((m.session? id).map (·.usage)).getD {}

/-- The answers that a request gets, with the session that gets them. -/
def answersTo (request : Request) (m : Manager γ σ) : List (String × Answer) :=
  match request with
  | .perform id op disturbance =>
    match m.session? id with
    | none => []
    | some e => (e.session.transcript op (m.environment e disturbance)).map (id, ·)
  | _ => []

/-- A manager that has been set up and has served requests, with the answers that they got. -/
inductive History : List (String × Answer) → Manager γ σ → Prop
  | new {settings : Settings} {generator : Option γ} {newEngine : σ} {messages : JsonMessages}
    {m : Manager γ σ} : Manager.new settings generator newEngine messages = .ok m → History [] m
  | serve {log : List (String × Answer)} {m : Manager γ σ} (request : Request) : History log m →
    request.IsFresh m → History (log ++ m.answersTo request) (m.serve request)

variable {log : List (String × Answer)} {m m' : Manager γ σ}

theorem History.reachable (h : m.History log) : m.Reachable := by
  induction h with
  | new hnew => exact .new hnew
  | serve request _ hfresh ih => exact .serve request ih hfresh

omit [GenerationService γ] [Engine σ] in
theorem Quiet.meter {changed : String → Prop} (h : m.Quiet changed m') : m'.meter = m.meter := by
  obtain ⟨change, hsessions, hchange⟩ := h.sessions
  unfold Manager.meter
  congr 1
  · exact h.ids
  · funext owner
    cases owner with
    | none => exact h.usage
    | some id =>
      dsimp only
      rw [session?_map hsessions fun e he => (hchange e he).id, Option.map_map]
      cases he : m.session? id with
      | none => rfl
      | some e => exact (hchange e (mem_of_session? he)).usage

omit [GenerationService γ] [Engine σ] in
theorem mem_meter_ids {id : String} : id ∈ m.meter.ids ↔ (m.session? id).isSome := by
  simp [Manager.meter, Manager.session?]

omit [GenerationService γ] [Engine σ] in
theorem meter_new {settings : Settings} {generator : Option γ} {newEngine : σ}
    {messages : JsonMessages} (h : Manager.new settings generator newEngine messages = .ok m) :
    m.meter = {} := by
  rw [new_ok h]
  unfold Manager.meter
  congr 1
  funext owner
  cases owner <;> rfl

omit [GenerationService γ] in
/-- A new session has its counters at zero. -/
theorem meter_create (m : Manager γ σ) (id : String) (options : SessionOptions) :
    (m.create id options).2.meter = m.meter ∨
      (m.create id options).2.meter = { m.meter with ids := m.meter.ids ++ [id] } := by
  unfold Manager.create
  split
  · next s hmake =>
    obtain ⟨pipeline, maxReasoningSteps, -, hload⟩ := makeSession_ok hmake
    obtain ⟨engine, rfl⟩ := Session.Becomes.loadInitial hload rfl
    right
    unfold Manager.meter
    congr 1
    · exact List.map_append
    · funext owner
      cases owner with
      | none => rfl
      | some id' =>
        unfold Manager.session?
        dsimp only
        rw [List.find?_append]
        cases m.sessions.find? (·.session.id == id') with
        | some e => rfl
        | none =>
          rw [List.find?_singleton]
          split <;> rfl
  · exact .inl rfl

omit [GenerationService γ] [Engine σ] in
/-- A session whose counters have gone up with those of the manager. -/
theorem meter_settle {id : String} {e : ManagedSession σ} (he : m.session? id = some e)
    {s : Session σ} (hid : s.id = id) {service : Option (Metered γ)} {answers : List Answer}
    (hsession : (service.map (·.session)).getD e.usage = answers.foldl Usage.count e.usage)
    (htotal : (m.settle s service).usage = answers.foldl Usage.count m.usage) :
    (m.settle s service).meter =
      answers.foldl (fun meter answer => meter.count id answer) m.meter := by
  have hsessions := settle_sessions s service m
  have hkeeps : ∀ e' ∈ m.sessions, (if e'.session.id = s.id then
      { e' with session := s, usage := (service.map (·.session)).getD e'.usage }
      else e').session.id = e'.session.id := by
    intro e' _
    split
    · next heq => exact heq.symm
    · rfl
  rw [Meter.foldl_count]
  unfold Manager.meter
  congr 1
  · rw [hsessions, List.map_map]
    exact List.map_congr_left hkeeps
  · funext owner
    cases owner with
    | none => exact htotal
    | some id' =>
      dsimp only
      rw [session?_map hsessions hkeeps, Option.map_map]
      by_cases hid' : id' = id
      · subst hid'
        have heid := id_of_session? he
        simp [he, hid, heid, hsession]
      · cases he' : m.session? id' with
        | none => simp [hid']
        | some e' =>
          have heid := id_of_session? he'
          simp [hid, heid, hid']

/-- An operation counts the answers that it gets and nothing else. -/
theorem WellFormed.meter_perform (h : m.WellFormed) {id : String} {e : ManagedSession σ}
    (he : m.session? id = some e) (op : Operation) (disturbance : Option Disturbance) :
    (m.perform id op disturbance).2.meter =
      (e.session.transcript op (m.environment e disturbance)).foldl
        (fun meter answer => meter.count id answer) m.meter := by
  have hid : (e.session.perform op (m.environment e disturbance)).2.1.id = id := by
    obtain ⟨⟨program, ontology, engine, hs⟩, -⟩ :=
      (h.sessions e (mem_of_session? he)).checked.perform op (m.environment e disturbance)
    rw [hs]
    exact id_of_session? he
  have hquiet := quiet_disturbance (fun _ => True) he op disturbance
  rw [hquiet.meter]
  cases hgenerator : m.generator with
  | none =>
    have hservice : (m.environment e disturbance).service = none := by
      rw [environment, hgenerator, Option.map_none]
    obtain ⟨hafter, hanswers⟩ := e.session.perform_of_no_service op hservice
    rw [hafter, hanswers]
    exact meter_settle he hid rfl rfl
  | some g =>
    have hservice : (m.environment e disturbance).service = some ⟨g, e.usage, m.usage⟩ := by
      rw [environment, hgenerator, Option.map_some]
    obtain ⟨x, hafter, hsession, htotal⟩ := e.session.perform_counts op hservice
    rw [hafter]
    exact meter_settle he hid hsession htotal

theorem Interleaving.serve_of_isQuiet (h : Interleaving σ [] log m.meter) {request : Request}
    (hquiet : request.IsQuiet) :
    Interleaving σ [] (log ++ m.answersTo request) (m.serve request).meter := by
  have hanswers : m.answersTo request = [] := by cases request <;> first | rfl | cases hquiet
  rw [hanswers, List.append_nil, (quiet_serve_of_isQuiet (fun _ => True) m hquiet).meter]
  exact h

/-- A request is an operation of a session while nothing else happens, or it counts nothing. -/
theorem History.interleaving (h : m.History log) : Interleaving σ [] log m.meter := by
  induction h with
  | new hnew =>
    rw [meter_new hnew]
    exact .start
  | @serve log m request h hfresh ih =>
    cases request with
    | create id options =>
      have hnone : m.session? id = none := hfresh
      change Interleaving σ [] (log ++ []) (m.create id options).2.meter
      rw [List.append_nil]
      obtain hmeter | hmeter := meter_create m id options
      · rwa [hmeter]
      · rw [hmeter]
        exact ih.create id fun hmem => absurd (mem_meter_ids.mp hmem) (by simp [hnone])
    | perform id op disturbance =>
      change Interleaving σ [] _ (m.perform id op disturbance).2.meter
      cases he : m.session? id with
      | none => simpa [answersTo, Manager.perform, he] using ih
      | some e =>
        have hid := id_of_session? he
        have hmem : id ∈ m.meter.ids := mem_meter_ids.mpr (he ▸ rfl)
        have hanswers : m.answersTo (.perform id op disturbance) =
            (e.session.transcript op (m.environment e disturbance)).map (id, ·) := by
          simp only [answersTo, he]
        rw [h.reachable.wellFormed.meter_perform he, hanswers]
        subst hid
        exact ih.operation rfl e.session hmem op _
    | _ =>
      exact ih.serve_of_isQuiet trivial

omit [GenerationService γ] [Engine σ] in
theorem WellFormed.usage_meter (h : m.WellFormed) {e : ManagedSession σ} (he : e ∈ m.sessions) :
    m.meter.usage (some e.session.id) = e.usage := by
  have hsome : (m.session? e.session.id).isSome := mem_meter_ids.mp (List.mem_map_of_mem he)
  obtain ⟨e', he'⟩ := Option.isSome_iff_exists.mp hsome
  obtain rfl := h.eq_of_id (mem_of_session? he') he (id_of_session? he')
  simp [Manager.meter, he']

/-- The usage of a manager is the sum of the usage of all its sessions, and the calls of a session
are the successful answers that it got. -/
theorem History.addsUp (h : m.History log) :
    (∀ c, (m.usage.get c).toNat = (m.sessions.map fun e => (e.usage.get c).toNat).sum % 2 ^ 64) ∧
      ∀ e ∈ m.sessions, e.usage.calls.toNat =
        log.countP (fun x => e.session.id = x.1 ∧ x.2.isOk) % 2 ^ 64 := by
  have hwf := h.reachable.wellFormed
  have hsum : m.meter.AddsUp log := h.interleaving.run.2.addsUp rfl
  constructor
  · intro c
    have hsessions : (m.meter.ids.map fun id => ((m.meter.usage (some id)).get c).toNat) =
        m.sessions.map fun e => (e.usage.get c).toNat := by
      change (m.sessions.map _).map _ = _
      rw [List.map_map]
      exact List.map_congr_left fun e he => by simp only [Function.comp, hwf.usage_meter he]
    rw [← hsessions]
    exact hsum.total c
  · intro e he
    rw [← hsum.calls _ (List.mem_map_of_mem he), hwf.usage_meter he]

variable (γ σ) in
/-- However the calls of sessions are interleaved, when no recording is half done the counters of
the manager are the sums of those of all sessions so far, and the calls of a session are the
successful answers that it got, as far as counters go. Operations that are carried out at the same
time interleave their calls in this way, and a failed call changes no counter. So it is for a
manager whatever it has been asked, for an operation counts every answer of the service exactly once
for its session and once for the manager. -/
theorem usage_is_sum :
    (∀ log (meter : Meter), meter.Run log → meter.pending = [] → meter.AddsUp log) ∧
    (∀ ops log meter, Interleaving σ ops log meter → meter.Run log) ∧
    (∀ before after id error answers log meter,
      Interleaving σ (before ++ (id, .error error :: answers) :: after) log meter →
      Interleaving σ (before ++ (id, answers) :: after) (log ++ [(id, .error error)]) meter) ∧
    (∀ log (m : Manager γ σ), m.History log →
      (∀ c, (m.usage.get c).toNat =
        (m.sessions.map fun e => (e.usage.get c).toNat).sum % 2 ^ 64) ∧
      ∀ e ∈ m.sessions, e.usage.calls.toNat =
        log.countP (fun x => e.session.id = x.1 ∧ x.2.isOk) % 2 ^ 64) ∧
    (∀ prompt (x : Metered γ) error, (GenerationService.respond prompt x).1 = .error error →
      (GenerationService.respond prompt x).2.session = x.session ∧
      (GenerationService.respond prompt x).2.total = x.total) ∧
    ∀ (s : Session σ) op (env : Environment (Option (Metered γ))) x, env.service = some x →
      ∃ x', (s.perform op env).2.2.service = some x' ∧
        x'.session = (s.transcript op env).foldl Usage.count x.session ∧
        x'.total = (s.transcript op env).foldl Usage.count x.total := by
  refine ⟨fun log meter h => h.addsUp, fun ops log meter h => h.run.2, ?_,
    fun log m h => h.addsUp, ?_, fun s op env x hx => s.perform_counts op hx⟩
  · intro before after id error answers log meter h
    simpa [recordings] using h.answer before after
  · intro prompt x error herror
    rw [Metered.respond_eq] at herror ⊢
    dsimp only at herror ⊢
    rw [herror]
    exact ⟨rfl, rfl⟩

/-- Of two chains of reasoning that go on at the same time, one gets its answer while the recording
of the other is half done, and the other fails after that. Of two statements that are translated
one after the other, the second fails at first; an answer that is of no use is counted too. -/
theorem usage_is_sum_tweety :
    let g : ScriptedGenerator := .new (.queue [.ok "bird(tweety).", .error (.provider "busy"),
      .ok "no idea", .ok "bird(hedwig)."]) none 10 5
    let answer : Generation := ⟨"bird(tweety).", 10, 5, 1000⟩
    let log : List (String × Answer) :=
      [("a", .ok answer), ("b", .ok answer), ("a", .error (.provider "busy"))]
    let m : Manager ScriptedGenerator MemoryEngine :=
      { settings := {}, generator := some g, newEngine := .new {}, shutdown := ⟨0, []⟩,
        cancellations := ⟨1, []⟩ }
    let m₂ := (m.serve (.create "a" {})).serve (.create "b" {})
    let m₃ := m₂.serve (.perform "a" (.assertStatement "Tweety is a bird.") none)
    let m' := m₃.serve (.perform "b" (.assertStatement "Hedwig is a bird.") none)
    (∃ meter, Interleaving MemoryEngine [("a", []), ("b", [])] log meter ∧ meter.AddsUp log ∧
      meter.usage none = ⟨2, 20, 10, 2⟩ ∧ meter.usage (some "a") = ⟨1, 10, 5, 1⟩) ∧
    ∃ log, m'.History log ∧
      log.map (fun x => (x.1, x.2.isOk)) =
        [("a", true), ("b", false), ("b", true), ("b", true)] ∧
      m'.usage = ⟨3, 30, 15, 3⟩ ∧
      m'.sessions.map (fun e => (e.session.id, e.usage)) =
        [("a", ⟨1, 10, 5, 1⟩), ("b", ⟨2, 20, 10, 2⟩)] ∧
      ∀ c, (m'.usage.get c).toNat =
        (m'.sessions.map fun e => (e.usage.get c).toNat).sum % 2 ^ 64 := by
  intro g answer log m m₂ m₃ m'
  obtain ⟨haddsUp, hrun, hfailed, hmanager, -⟩ := usage_is_sum ScriptedGenerator MemoryEngine
  constructor
  · let env : Environment (Option ScriptedGenerator) := ⟨some g, 0, none, false, .placeholder⟩
    let start (id : String) : Session MemoryEngine :=
      .start id ⟨[.direct], 1, 0, none⟩ 8 none (.new {}) (.new {})
    have ha : (start "a").transcript (.reason "Who is a bird?" (some 2)) env =
        [.ok answer, .error (.provider "busy")] := by decide +kernel
    have hb : (start "b").transcript (.reason "Who is a bird?" (some 1)) env = [.ok answer] := by
      decide +kernel
    have hstart : Interleaving MemoryEngine [] [] { ids := ["a", "b"] } :=
      (Interleaving.start.create "a" (by decide)).create "b" (by decide)
    have henter := (hstart.enter (start "a") (.reason "Who is a bird?" (some 2)) env
      (by decide)).enter (start "b") (.reason "Who is a bird?" (some 1)) env (by decide)
    rw [ha, hb] at henter
    have hhalf := (henter.answer [] _).add ((recordings "a" (.ok answer)).take 4) _ rfl
    have hanswer := (hhalf.answer [("a", _)] []).drain (m := { ids := _, usage := _ }) rfl
    have hall := hfailed [] _ _ _ _ _ _ hanswer
    exact ⟨_, hall, haddsUp _ _ (hrun _ _ _ hall) rfl, by decide, by decide⟩
  · have hnew : Manager.new {} (some g) (.new {}) = .ok m := rfl
    have hfresh : (m.serve (.create "a" {})).session? "b" = none :=
      Option.isNone_iff_eq_none.mp (by decide +kernel)
    have hhistory : m'.History _ :=
      .serve _ (.serve _ (.serve _ (.serve _ (.new hnew) rfl) hfresh) trivial) trivial
    refine ⟨_, hhistory, ?_, ?_, ?_, (hmanager _ _ hhistory).1⟩
    · decide +kernel
    · decide +kernel
    · decide +kernel

end Manager

end OntoLogic
