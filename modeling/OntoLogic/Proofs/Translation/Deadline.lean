-- SUMMARY: A deadline changes nothing about a translation but where it stops.
import OntoLogic.Proofs.Translation.Attempts

/-!
# Deadlines

A translation can be called off by its own time limit and by whoever waits for it. Either way it
runs as it would without a deadline until the deadline is reached, and then it stops: a translation
that would have ended before is not disturbed, and any other is called off at the deadline, after
some of the prompts that it would have sent.

Every run is compared with the run of the same service from the same time that nothing calls off.
-/

namespace OntoLogic

variable {γ : Type} [GenerationService γ]

/-! ## Prompts that were sent -/

/-- A record of the prompts that a service has been sent: a request adds its prompt, and an answer
adds nothing. -/
structure GenerationService.Recorded (sent : γ → List String) : Prop where
  request : ∀ prompt g, sent (request prompt g).2 = sent g ++ [prompt]
  respond : ∀ prompt g, sent (respond prompt g).2 = sent g

/-- A scripted service keeps a record. -/
theorem ScriptedGenerator.recorded :
    GenerationService.Recorded fun g : ScriptedGenerator => g.prompts.toList where
  request _ _ := Array.toList_push
  respond _ _ := rfl

/-- A service has been sent at least the prompts that another one has been sent, first of all and in
the same order. -/
def GenerationService.SentFirst (g g' : γ) : Prop :=
  ∀ sent, Recorded sent → sent g <+: sent g'

namespace GenerationService

theorem SentFirst.refl (g : γ) : SentFirst g g :=
  fun sent _ => List.prefix_refl (sent g)

theorem SentFirst.trans {g g' g'' : γ} (h : SentFirst g g') (h' : SentFirst g' g'') :
    SentFirst g g'' :=
  fun sent hsent => (h sent hsent).trans (h' sent hsent)

theorem sentFirst_request (prompt : String) (g : γ) : SentFirst g (request prompt g).2 := by
  intro sent hsent
  rw [hsent.request]
  exact List.prefix_append _ _

theorem sentFirst_respond (prompt : String) (g : γ) : SentFirst g (respond prompt g).2 := by
  intro sent hsent
  have hsame := hsent.respond prompt g
  exact hsame ▸ List.prefix_refl _

end GenerationService

open GenerationService (SentFirst sentFirst_request sentFirst_respond)

namespace Pipeline

/-! ## Rounds -/

section Rounds

variable {check : String → Bool} {text : String} {terms : List String}

/-- After a round that is rejected, the next one begins, if there is one, when the pause is over. -/
theorem rounds_succ {p : Pipeline} {feedback feedback' : Option String} {env env' : Environment γ}
    (left : Nat)
    (h : round check text terms p.strategies feedback env = (.rejected feedback', env')) :
    p.rounds check text terms (left + 1) feedback env =
      if left = 0 || p.retryDelay = 0 then p.rounds check text terms left feedback' env'
      else
        match env'.wait p.retryDelay with
        | (true, env) => p.rounds check text terms left feedback' env
        | (false, env) => (.calledOff, env) := by
  rw [rounds]
  generalize round check text terms p.strategies feedback env = progress at h
  subst h
  rfl

/-- A round that finds a translation is the last. -/
theorem rounds_of_round_found {p : Pipeline} {feedback : Option String} {env env' : Environment γ}
    {t : Translation} (left : Nat)
    (h : round check text terms p.strategies feedback env = (.found t, env')) :
    p.rounds check text terms (left + 1) feedback env = (.found t, env') := by
  rw [rounds, h]

/-- A round that is called off is the last. -/
theorem rounds_of_round_calledOff {p : Pipeline} {feedback : Option String}
    {env env' : Environment γ} (left : Nat)
    (h : round check text terms p.strategies feedback env = (.calledOff, env')) :
    p.rounds check text terms (left + 1) feedback env = (.calledOff, env') := by
  rw [rounds, h]

theorem rounds_withoutLimit (p : Pipeline) (left : Nat) (feedback : Option String)
    (env : Environment γ) :
    { p with timeLimit := none }.rounds check text terms left feedback env =
      p.rounds check text terms left feedback env := by
  induction left generalizing feedback env with
  | zero => rfl
  | succ left ih => simp only [rounds, ih]

theorem translate_withoutLimit (p : Pipeline) (env : Environment γ) :
    { p with timeLimit := none }.translate check text terms env =
      (p.result (p.rounds check text terms p.maxAttempts none env).1,
        (p.rounds check text terms p.maxAttempts none env).2) := by
  simp only [translate, Environment.withTimeLimit, rounds_withoutLimit]
  rfl

end Rounds

variable {messages : JsonMessages} (check : String → Bool) (text : String) (terms : List String)

/-! ## Running without being called off -/

/-- A run has gone on from a service and a time without being called off. -/
def Proceeds (messages : JsonMessages) (g : γ) (now : Nat) (env : Environment γ) : Prop :=
  ∃ g' now', env = unlimited messages g' now' ∧ now ≤ now' ∧ SentFirst g g'

theorem Proceeds.refl (g : γ) (now : Nat) : Proceeds messages g now (unlimited messages g now) :=
  ⟨g, now, rfl, Nat.le_refl now, .refl g⟩

theorem Proceeds.trans {g g' : γ} {now now' : Nat} {env : Environment γ}
    (h : Proceeds messages g now (unlimited messages g' now'))
    (h' : Proceeds messages g' now' env) : Proceeds messages g now env := by
  obtain ⟨g₁, now₁, henv, hnow, hsent⟩ := h
  cases henv
  obtain ⟨g₂, now₂, rfl, hnow', hsent'⟩ := h'
  exact ⟨g₂, now₂, rfl, Nat.le_trans hnow hnow', hsent.trans hsent'⟩

variable (messages)

theorem translate_proceeds (s : Strategy) (feedback : Option String) (g : γ) (now : Nat) :
    ∃ outcome g' now', s.translate text terms feedback (unlimited messages g now) =
        (some outcome, unlimited messages g' now') ∧
      Proceeds messages g now (unlimited messages g' now') := by
  unfold Strategy.translate
  cases s.prompt? text terms feedback with
  | none => exact ⟨_, g, now, rfl, .refl g now⟩
  | some prompt =>
    exact ⟨_, _, _, rfl, _, _, rfl, Nat.le_add_right _ _,
      (sentFirst_request prompt g).trans (sentFirst_respond prompt _)⟩

/-- After an attempt that is not called off, only its outcome decides how a round goes on. -/
theorem round_cons (s : Strategy) (schedule : List Strategy)
    (outcome : Except TranslationError Translation) :
    (∃ t, ∀ (feedback : Option String) (env env' : Environment γ),
      s.translate text terms feedback env = (some outcome, env') →
      round check text terms (s :: schedule) feedback env = (.found t, env')) ∨
    ∃ feedback', ∀ (feedback : Option String) (env env' : Environment γ),
      s.translate text terms feedback env = (some outcome, env') →
      round check text terms (s :: schedule) feedback env =
        round check text terms schedule feedback' env' := by
  cases hfeedback : feedbackOf check outcome with
  | some message =>
    refine .inr ⟨some message, fun feedback env env' htranslate => ?_⟩
    cases outcome <;> simp [round, htranslate, hfeedback]
  | none =>
    cases outcome with
    | error e => cases hfeedback
    | ok t =>
      refine .inl ⟨t, fun feedback env env' htranslate => ?_⟩
      simp [round, htranslate, hfeedback]

theorem round_proceeds (schedule : List Strategy) (feedback : Option String) (g : γ) (now : Nat) :
    Proceeds messages g now
      (round check text terms schedule feedback (unlimited messages g now)).2 := by
  induction schedule generalizing feedback g now with
  | nil => exact .refl g now
  | cons s schedule ih =>
    obtain ⟨outcome, g', now', htranslate, hproceeds⟩ :=
      translate_proceeds messages text terms s feedback g now
    obtain ⟨t, hround⟩ | ⟨feedback', hround⟩ :=
      round_cons (γ := γ) check text terms s schedule outcome
    · rw [hround _ _ _ htranslate]
      exact hproceeds
    · rw [hround _ _ _ htranslate]
      exact hproceeds.trans (ih feedback' g' now')

theorem rounds_succ_proceeds {p : Pipeline} {left : Nat} {feedback : Option String} {g g' : γ}
    {now now' : Nat} {progress : Progress}
    (hround : round check text terms p.strategies feedback (unlimited messages g now) =
      (progress, unlimited messages g' now'))
    (hrest : ∀ feedback later,
      Proceeds messages g' later
        (p.rounds check text terms left feedback (unlimited messages g' later)).2) :
    Proceeds messages g' now'
      (p.rounds check text terms (left + 1) feedback (unlimited messages g now)).2 := by
  cases progress with
  | found t =>
    rw [rounds_of_round_found left hround]
    exact .refl g' now'
  | calledOff =>
    rw [rounds_of_round_calledOff left hround]
    exact .refl g' now'
  | rejected feedback' =>
    rw [rounds_succ left hround]
    split
    · exact hrest feedback' now'
    · exact .trans ⟨g', _, rfl, Nat.le_add_right now' p.retryDelay, .refl g'⟩ (hrest feedback' _)

theorem rounds_proceeds (p : Pipeline) (left : Nat) (feedback : Option String) (g : γ)
    (now : Nat) :
    Proceeds messages g now
      (p.rounds check text terms left feedback (unlimited messages g now)).2 := by
  induction left generalizing feedback g now with
  | zero => exact .refl g now
  | succ left ih =>
    have hproceeds := round_proceeds messages check text terms p.strategies feedback g now
    cases hround : round check text terms p.strategies feedback (unlimited messages g now) with
    | mk progress env =>
      rw [hround] at hproceeds
      obtain ⟨g', now', rfl, -, -⟩ := id hproceeds
      exact hproceeds.trans
        (rounds_succ_proceeds messages check text terms hround fun feedback' => ih feedback' g')

/-! ## Stopping at a deadline -/

/-- How a run with a deadline compares with a run that nothing calls off. -/
inductive Stops {α : Type} (calledOff : α) (deadline : Nat) (undisturbed run : α × Environment γ) :
    Prop
  /-- It is the same run, and it has not gone past the deadline. -/
  | kept (now : undisturbed.2.now ≤ deadline)
    (same : run = (undisturbed.1, { undisturbed.2 with deadline := some deadline }))
  /-- It has been called off at the deadline, after some of the prompts. -/
  | cut (result : run.1 = calledOff) (now : run.2.now = deadline)
    (late : deadline ≤ undisturbed.2.now) (sent : SentFirst run.2.service undisturbed.2.service)

/-- The environment of a service that is called off at a deadline. -/
def limited (messages : JsonMessages) (deadline : Nat) (g : γ) (now : Nat) : Environment γ :=
  ⟨g, now, some deadline, false, messages⟩

variable {deadline now : Nat}

/-- A run that has been called off stays called off while the other goes on. -/
theorem Stops.cut_of_proceeds {α : Type} {calledOff : α} {g : γ} {env : Environment γ}
    {undisturbed : α × Environment γ} (late : deadline ≤ now) (hnow : env.now = deadline)
    (hsent : SentFirst env.service g) (h : Proceeds messages g now undisturbed.2) :
    Stops calledOff deadline undisturbed (calledOff, env) := by
  obtain ⟨result, env'⟩ := undisturbed
  obtain ⟨g', now', rfl, hlater, hsent'⟩ := h
  exact .cut rfl hnow (Nat.le_trans late hlater) (hsent.trans hsent')

omit [GenerationService γ] in
theorem wait_limited (delay : Nat) (g : γ) (h : now ≤ deadline) :
    now + delay ≤ deadline ∧ (limited messages deadline g now).wait delay =
        (true, limited messages deadline g (now + delay)) ∨
      deadline ≤ now + delay ∧ (limited messages deadline g now).wait delay =
        (false, ⟨g, deadline, some deadline, true, messages⟩) := by
  unfold limited Environment.wait
  dsimp only
  rw [if_neg Bool.false_ne_true]
  split
  · next hpasses =>
    refine .inl ⟨?_, rfl⟩
    simp only [Bool.or_eq_true, decide_eq_true_eq] at hpasses
    omega
  · next hcut =>
    refine .inr ⟨?_, by rw [Nat.max_eq_right h]⟩
    simp only [Bool.or_eq_true, decide_eq_true_eq] at hcut
    omega

/-- A prompt is answered when the wait for the answer is over, and not at all when it is cut off. -/
theorem generate_of_wait (env : Environment γ) {env' : Environment γ} {prompt : String}
    {ready : Bool} (h : env.calledOff = false)
    (hwait : { env with service := (GenerationService.request prompt env.service).2 }.wait
      (GenerationService.request prompt env.service).1 = (ready, env')) :
    env.generate prompt =
      if ready then
        (some (GenerationService.respond prompt env'.service).1,
          { env' with service := (GenerationService.respond prompt env'.service).2 })
      else (none, env') := by
  unfold Environment.generate
  rw [if_neg (by simp [h])]
  dsimp only
  rw [hwait]
  cases ready <;> rfl

theorem generate_stops (prompt : String) (g : γ) (h : now ≤ deadline) :
    Stops none deadline ((unlimited messages g now).generate prompt)
      ((limited messages deadline g now).generate prompt) := by
  obtain ⟨hnow, hwait⟩ | ⟨hlate, hwait⟩ := wait_limited messages
    (GenerationService.request prompt g).1 (GenerationService.request prompt g).2 h
  · have hrun := generate_of_wait (limited messages deadline g now) rfl hwait
    rw [hrun]
    exact .kept hnow rfl
  · have hrun := generate_of_wait (limited messages deadline g now) rfl hwait
    rw [hrun]
    exact .cut rfl rfl hlate (sentFirst_respond prompt _)

theorem translate_stops (s : Strategy) (feedback : Option String) (g : γ) (h : now ≤ deadline) :
    Stops none deadline (s.translate text terms feedback (unlimited messages g now))
      (s.translate text terms feedback (limited messages deadline g now)) := by
  unfold Strategy.translate
  cases s.prompt? text terms feedback with
  | none => exact .kept h rfl
  | some prompt =>
    dsimp only
    cases generate_stops messages prompt g h with
    | kept hnow hsame =>
      rw [hsame]
      exact .kept hnow rfl
    | cut hresult hnow hlate hsent =>
      rw [hresult]
      exact .cut rfl hnow hlate hsent

theorem round_stops (schedule : List Strategy) (feedback : Option String) (g : γ)
    (h : now ≤ deadline) :
    Stops .calledOff deadline (round check text terms schedule feedback (unlimited messages g now))
      (round check text terms schedule feedback (limited messages deadline g now)) := by
  induction schedule generalizing feedback g now with
  | nil => exact .kept h rfl
  | cons s schedule ih =>
    obtain ⟨outcome, g', now', htranslate, hproceeds⟩ :=
      translate_proceeds messages text terms s feedback g now
    have hstops := translate_stops messages text terms s feedback g h
    rw [htranslate] at hstops
    have hnext := round_cons (γ := γ) check text terms s schedule outcome
    generalize hrun : s.translate text terms feedback (limited messages deadline g now) = run
      at hstops
    cases hstops with
    | kept hnow hsame =>
      rw [hsame] at hrun
      obtain ⟨t, hround⟩ | ⟨feedback', hround⟩ := hnext
      · rw [hround _ _ _ htranslate, hround _ _ _ hrun]
        exact .kept hnow rfl
      · rw [hround _ _ _ htranslate, hround _ _ _ hrun]
        exact ih feedback' g' hnow
    | cut hresult hnow hlate hsent =>
      obtain ⟨result, env⟩ := run
      obtain rfl : result = none := hresult
      have hcut : round check text terms (s :: schedule) feedback
          (limited messages deadline g now) = (.calledOff, env) := by rw [round, hrun]
      rw [hcut]
      refine .cut_of_proceeds messages hlate hnow hsent ?_
      obtain ⟨t, hround⟩ | ⟨feedback', hround⟩ := hnext
      · rw [hround _ _ _ htranslate]
        exact .refl g' now'
      · rw [hround _ _ _ htranslate]
        exact round_proceeds messages check text terms schedule feedback' g' now'

theorem rounds_stops (p : Pipeline) (left : Nat) (feedback : Option String) (g : γ)
    (h : now ≤ deadline) :
    Stops .calledOff deadline (p.rounds check text terms left feedback (unlimited messages g now))
      (p.rounds check text terms left feedback (limited messages deadline g now)) := by
  induction left generalizing feedback g now with
  | zero => exact .kept h rfl
  | succ left ih =>
    have hproceeds := round_proceeds messages check text terms p.strategies feedback g now
    have hstops := round_stops messages check text terms p.strategies feedback g h
    cases hround : round check text terms p.strategies feedback (unlimited messages g now) with
    | mk progress env =>
      rw [hround] at hproceeds hstops
      obtain ⟨g', now', rfl, -, -⟩ := hproceeds
      generalize hrun : round check text terms p.strategies feedback
        (limited messages deadline g now) = run at hstops
      cases hstops with
      | kept hnow hsame =>
        replace hrun : _ = (progress, limited messages deadline g' now') := hrun.trans hsame
        change now' ≤ deadline at hnow
        cases progress with
        | found t =>
          rw [rounds_of_round_found left hround, rounds_of_round_found left hrun]
          exact .kept hnow rfl
        | calledOff =>
          rw [rounds_of_round_calledOff left hround, rounds_of_round_calledOff left hrun]
          exact .kept hnow rfl
        | rejected feedback' =>
          rw [rounds_succ left hround, rounds_succ left hrun]
          split
          · exact ih feedback' g' hnow
          · -- The deadline can fall into the pause.
            have hproceeds := rounds_proceeds messages check text terms p left feedback' g'
              (now' + p.retryDelay)
            obtain ⟨hlater, hwait⟩ | ⟨hlate, hwait⟩ :=
              wait_limited messages p.retryDelay g' hnow
            · rw [hwait]
              exact ih feedback' g' hlater
            · rw [hwait]
              exact .cut_of_proceeds messages hlate rfl (.refl g') hproceeds
      | cut hresult hnow hlate hsent =>
        obtain ⟨result, env⟩ := run
        obtain rfl : result = .calledOff := hresult
        rw [rounds_of_round_calledOff left hrun]
        exact .cut_of_proceeds messages hlate hnow hsent
          (rounds_succ_proceeds messages check text terms hround fun feedback' =>
            rounds_proceeds messages check text terms p left feedback' g')

/-- Rounds that are called off before they begin do not begin, unless they take no time anyway. -/
theorem rounds_calledOff (p : Pipeline) (left : Nat) (feedback : Option String) (g : γ)
    (now : Nat) (limit : Option Nat) :
    p.rounds check text terms left feedback ⟨g, now, limit, true, messages⟩ =
        (.calledOff, ⟨g, now, limit, true, messages⟩) ∨
      (p.rounds check text terms left feedback (unlimited messages g now)).2 =
        unlimited messages g now := by
  induction left generalizing feedback with
  | zero => exact .inr rfl
  | succ left ih =>
    cases hstrategies : p.strategies with
    | nil =>
      have hround : ∀ env : Environment γ,
          round check text terms p.strategies feedback env = (.rejected feedback, env) := by
        intro env
        rw [hstrategies, round]
      rw [rounds_succ left (hround _), rounds_succ left (hround _)]
      split
      · exact ih feedback
      · exact .inl rfl
    | cons s schedule =>
      have hround : round check text terms p.strategies feedback
          ⟨g, now, limit, true, messages⟩ = (.calledOff, ⟨g, now, limit, true, messages⟩) := by
        rw [hstrategies, round]
        unfold Strategy.translate
        cases s.prompt? text terms feedback <;> rfl
      exact .inl (rounds_of_round_calledOff left hround)

/-! ## Pauses -/

/-- Some rounds of a pipeline are all rejected. There is a pause between two rounds, and nowhere
else. -/
inductive Exhausts (p : Pipeline) (check : String → Bool) (text : String) (terms : List String) :
    Nat → Option String → Environment γ → Option String → Environment γ → Prop
  | none (feedback : Option String) (env : Environment γ) :
    Exhausts p check text terms 0 feedback env feedback env
  | last {feedback feedback' : Option String} {env env' : Environment γ} :
    round check text terms p.strategies feedback env = (.rejected feedback', env') →
    Exhausts p check text terms 1 feedback env feedback' env'
  | pause {left : Nat} {feedback feedback' feedback'' : Option String}
    {env env' env'' : Environment γ} :
    round check text terms p.strategies feedback env = (.rejected feedback', env') →
    Exhausts p check text terms (left + 1) feedback' { env' with now := env'.now + p.retryDelay }
      feedback'' env'' →
    Exhausts p check text terms (left + 2) feedback env feedback'' env''

theorem rounds_exhausts {p : Pipeline} {left : Nat} {feedback feedback' : Option String} {g : γ}
    {now : Nat} {env : Environment γ}
    (h : p.rounds check text terms left feedback (unlimited messages g now) =
      (.rejected feedback', env)) :
    Exhausts p check text terms left feedback (unlimited messages g now) feedback' env := by
  induction left generalizing feedback g now with
  | zero =>
    cases h
    exact .none _ _
  | succ left ih =>
    have hproceeds := round_proceeds messages check text terms p.strategies feedback g now
    cases hround : round check text terms p.strategies feedback (unlimited messages g now) with
    | mk progress env' =>
      rw [hround] at hproceeds
      obtain ⟨g', now', rfl, -, -⟩ := hproceeds
      cases progress with
      | found t =>
        rw [rounds_of_round_found left hround] at h
        cases h
      | calledOff =>
        rw [rounds_of_round_calledOff left hround] at h
        cases h
      | rejected message =>
        rw [rounds_succ left hround] at h
        cases left with
        | zero =>
          cases h
          exact .last hround
        | succ left =>
          refine .pause hround (ih ?_)
          by_cases hdelay : p.retryDelay = 0
          · rw [if_pos (by simp [hdelay])] at h
            rw [hdelay]
            exact h
          · rw [if_neg (by simp [hdelay])] at h
            exact h

/-! ## Deadlines of translations -/

/-- Rounds with a deadline are those without, or they are called off at the deadline. -/
theorem rounds_deadline (p : Pipeline) (left : Nat) (feedback : Option String) (g : γ)
    (now : Nat) {limit : Nat} {fired : Bool} (hfired : fired = true → limit = 0) :
    let undisturbed := p.rounds check text terms left feedback (unlimited messages g now)
    let run :=
      p.rounds check text terms left feedback ⟨g, now, some (now + limit), fired, messages⟩
    (undisturbed.2.now < now + limit → run.1 = undisturbed.1 ∧
      run.2.service = undisturbed.2.service ∧ run.2.now = undisturbed.2.now) ∧
    (now + limit < undisturbed.2.now → run.1 = .calledOff ∧ run.2.now = now + limit ∧
      SentFirst run.2.service undisturbed.2.service) := by
  intro undisturbed run
  obtain ⟨g', now', hproceeds, hlater, hsent⟩ :=
    rounds_proceeds messages check text terms p left feedback g now
  have hnow : undisturbed.2.now = now' := congrArg Environment.now hproceeds
  have hservice : undisturbed.2.service = g' := congrArg Environment.service hproceeds
  cases fired with
  | true =>
    obtain rfl := hfired rfl
    refine ⟨fun hbefore => by omega, fun hafter => ?_⟩
    obtain hrun | hsame := rounds_calledOff messages check text terms p left
      feedback g now (some (now + 0))
    · rw [show run = _ from hrun, hservice]
      exact ⟨rfl, rfl, hsent⟩
    · have hsame' : undisturbed.2.now = now := congrArg Environment.now hsame
      omega
  | false =>
    have hstops : Stops .calledOff (now + limit) undisturbed run :=
      rounds_stops messages check text terms p left feedback g (Nat.le_add_right now limit)
    cases hstops with
    | kept hbefore hsame =>
      rw [hsame]
      exact ⟨fun _ => ⟨rfl, rfl, rfl⟩, fun hafter => by omega⟩
    | cut hresult hcut hlate hsent =>
      exact ⟨fun hbefore => by omega, fun _ => ⟨hresult, hcut, hsent⟩⟩

/-- The environment of a translation that may be called off from outside: a time from now, or by now
already. -/
def cancellable (messages : JsonMessages) (g : γ) (now : Nat) (cancel : Option Nat)
    (fired : Bool) : Environment γ :=
  ⟨g, now, cancel.map (now + ·), fired, messages⟩

/-- The time limit of a pipeline and the deadline from outside are one deadline. -/
theorem translate_cancellable {p : Pipeline} (g : γ) (now : Nat) {limit : Nat}
    {cancel : Option Nat} (fired : Bool)
    (h : (p.timeLimit.toList ++ cancel.toList).min? = some limit) :
    let run := p.translate check text terms (cancellable messages g now cancel fired)
    let rounds :=
      p.rounds check text terms p.maxAttempts none ⟨g, now, some (now + limit), fired, messages⟩
    run.1 = p.result rounds.1 ∧ run.2.service = rounds.2.service ∧ run.2.now = rounds.2.now := by
  intro run rounds
  cases htime : p.timeLimit with
  | none =>
    cases cancel with
    | none => simp [htime] at h
    | some cancel =>
      obtain rfl : cancel = limit := by simpa [htime] using h
      have hrun : run = (p.result rounds.1, rounds.2) := by
        simp only [run, translate, htime, Environment.withTimeLimit]
        rfl
      rw [hrun]
      exact ⟨rfl, rfl, rfl⟩
  | some time =>
    have hdeadline : min (now + time) ((cancel.map (now + ·)).getD (now + time)) = now + limit := by
      cases cancel with
      | none =>
        obtain rfl : time = limit := by simpa [htime] using h
        exact Nat.min_self _
      | some cancel =>
        obtain rfl : min time cancel = limit := by simpa [htime, List.min?_cons] using h
        exact Nat.add_min_add_left now time cancel
    simp only [run, translate, htime, Environment.withTimeLimit, cancellable, hdeadline]
    exact ⟨rfl, rfl, rfl⟩

/-- A deadline, from the time limit of a pipeline or from outside, only cuts a translation short.
One that would have ended before the deadline gives the same result after the same time and leaves
the same service. One that would have ended after it is called off at the deadline, and the prompts
sent until then are the first of those that would have been sent. When all rounds of a translation
without a deadline are rejected, there is a pause between two of them and nowhere else. -/
theorem translate_deadline (p : Pipeline) (messages : JsonMessages) (check : String → Bool)
    (text : String) (terms : List String) (g : γ) (now : Nat) (cancel : Option Nat) (fired : Bool)
    (limit : Nat) (hlimit : (p.timeLimit.toList ++ cancel.toList).min? = some limit)
    (hfired : fired = true → cancel = some 0) :
    let undisturbed :=
      { p with timeLimit := none }.translate check text terms (unlimited messages g now)
    let run := p.translate check text terms (cancellable messages g now cancel fired)
    ∃ elapsed, undisturbed.2.now = now + elapsed ∧
      (elapsed < limit → run.1 = undisturbed.1 ∧ run.2.service = undisturbed.2.service ∧
        run.2.now = now + elapsed) ∧
      (limit < elapsed → run.1 = .error .cancelled ∧ run.2.now = now + limit ∧
        SentFirst run.2.service undisturbed.2.service) ∧
      ∀ attempts message, undisturbed.1 = .error (.exhausted attempts message) →
        ∃ feedback, feedback.getD "" = message ∧
          Exhausts p check text terms p.maxAttempts none (unlimited messages g now) feedback
            undisturbed.2 := by
  intro undisturbed run
  have hundisturbed : undisturbed = _ := translate_withoutLimit p (unlimited messages g now)
  obtain ⟨hresult, hservice, hnow⟩ :=
    translate_cancellable messages check text terms g now fired hlimit
  have hzero : fired = true → limit = 0 := by
    intro h
    exact Nat.le_zero.mp ((List.min?_eq_some_iff.mp hlimit).2 0 (by simp [hfired h]))
  obtain ⟨hbefore, hafter⟩ := rounds_deadline messages check text terms p
    p.maxAttempts none g now hzero
  obtain ⟨g', now', hproceeds, hlater, -⟩ :=
    rounds_proceeds messages check text terms p p.maxAttempts none g now
  obtain ⟨elapsed, rfl⟩ := Nat.exists_eq_add_of_le hlater
  cases hrounds : p.rounds check text terms p.maxAttempts none (unlimited messages g now) with
  | mk progress env =>
    rw [hrounds] at hundisturbed hproceeds hbefore hafter
    obtain rfl : env = unlimited messages g' (now + elapsed) := hproceeds
    rw [hundisturbed]
    refine ⟨elapsed, rfl, ?_, ?_, ?_⟩
    · intro h
      obtain ⟨hprogress, hsame⟩ := hbefore (Nat.add_lt_add_left h now)
      exact ⟨by rw [hresult, hprogress], hservice.trans hsame.1, hnow.trans hsame.2⟩
    · intro h
      obtain ⟨hprogress, hcut, hsent⟩ := hafter (Nat.add_lt_add_left h now)
      refine ⟨by rw [hresult, hprogress]; rfl, hnow.trans hcut, ?_⟩
      rw [hservice]
      exact hsent
    · intro attempts message h
      cases progress with
      | found t => cases h
      | calledOff => cases h
      | rejected feedback =>
        cases h
        exact ⟨feedback, rfl, rounds_exhausts messages check text terms hrounds⟩

/-- Six calls of ten milliseconds each and two pauses of five would take seventy; the translation is
called off after thirty-three, in its third call. -/
theorem translate_deadline_tweety :
    let g : ScriptedGenerator := .new (.always (.ok "bird(tweety")) (some 10) 0 0
    let p : Pipeline := ⟨[.direct, .fewShot], 3, 5, some 40⟩
    let text := "Tweety is a bird."
    (p.timeLimit.toList ++ (some 33).toList).min? = some 33 ∧ (false = true → some 33 = some 0) ∧
    ∃ undisturbed run,
      { p with timeLimit := none }.translate isWellFormed text [] (unlimited .placeholder g 0) =
        undisturbed ∧
      p.translate isWellFormed text [] (cancellable .placeholder g 0 (some 33) false) = run ∧
      undisturbed.2.now = 70 ∧ undisturbed.2.service.prompts.size = 6 ∧
      run.1 = .error .cancelled ∧ run.2.now = 33 ∧ run.2.service.prompts.size = 3 ∧
      run.2.service.prompts.toList <+: undisturbed.2.service.prompts.toList := by
  intro g p text
  have hlimit : (p.timeLimit.toList ++ (some 33).toList).min? = some 33 := by decide
  refine ⟨hlimit, nofun, _, _, rfl, rfl, ?_⟩
  obtain ⟨elapsed, helapsed, -, hafter, -⟩ :=
    translate_deadline p .placeholder isWellFormed text [] g 0 (some 33) false 33 hlimit nofun
  have hend : ({ p with timeLimit := none }.translate isWellFormed text []
      (unlimited .placeholder g 0)).2.now = 70 := by decide +kernel
  obtain ⟨hcancelled, hnow, hsent⟩ := hafter (by rw [hend] at helapsed; omega)
  have hprefix := hsent (fun g => g.prompts.toList) ScriptedGenerator.recorded
  refine ⟨hend, ?_, hcancelled, hnow, ?_, hprefix⟩
  · decide +kernel
  · decide +kernel

end Pipeline

end OntoLogic
