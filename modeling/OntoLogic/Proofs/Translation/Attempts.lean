-- SUMMARY: A pipeline that nothing calls off is a search for the first attempt that passes.
import OntoLogic.Generation.Script
import OntoLogic.Proofs.Translation.Prompt
import OntoLogic.Translation.Pipeline

/-!
# Attempts

When nothing calls off a translation, only the answers of the service decide how it goes. Its rounds
then are one schedule of strategies, and each attempt is told what was wrong with the one before. A
pipeline makes the attempts of the schedule up to the first that passes.
-/

namespace OntoLogic

variable {γ : Type} [GenerationService γ]

/-! ## Attempts without a clock -/

/-- A call of a service that is not given up: the answer and the service after it. -/
def GenerationService.call (prompt : String) (g : γ) : Except GenerationError Generation × γ :=
  respond prompt (request prompt g).2

/-- What a strategy makes of a statement, and the service after it. -/
def Strategy.attempt (messages : JsonMessages) (s : Strategy) (text : String)
    (terms : List String) (feedback : Option String) (g : γ) :
    Except TranslationError Translation × γ :=
  match s.prompt? text terms feedback with
  | none => (.error (.unsupported s.name), g)
  | some prompt =>
    let (answer, g) := GenerationService.call prompt g
    (s.ofAnswer messages answer, g)

/-- One attempt to translate a statement. -/
structure Attempt where
  strategy : Strategy
  /-- What was wrong with the attempt before. -/
  feedback : Option String
  outcome : Except TranslationError Translation

namespace Attempt

/-- The prompt of an attempt, unless its strategy has none. -/
def prompt? (text : String) (terms : List String) (a : Attempt) : Option String :=
  a.strategy.prompt? text terms a.feedback

/-- An attempt passes when it gives a text that passes the check. -/
def passes (check : String → Bool) (a : Attempt) : Bool :=
  match a.outcome with
  | .ok t => check t.content
  | .error _ => false

/-- What was wrong with an attempt: its text does not pass the check, or there is none. -/
def failure (check : String → Bool) (a : Attempt) : Option String :=
  match a.outcome with
  | .ok t =>
    if check t.content then none
    else some ("previous output `" ++ t.content ++ "` is not valid Prolog syntax")
  | .error e => some e.message

variable {check : String → Bool} {a : Attempt}

theorem failure_eq_none : a.failure check = none ↔ a.passes check = true := by
  unfold failure passes
  cases a.outcome with
  | ok t => cases check t.content <;> simp
  | error e => simp

/-- No failure is told in a blank text. -/
theorem beginsPlain_failure {m : String} (h : m ∈ a.failure check) : Text.BeginsPlain m := by
  unfold failure at h
  cases houtcome : a.outcome with
  | ok t =>
    rw [houtcome] at h
    dsimp only at h
    split at h
    · cases h
    · cases h
      exact .append (.append ⟨'p', rfl, rfl⟩ _) _
  | error e =>
    rw [houtcome] at h
    cases h
    exact e.beginsPlain_message

theorem prompt?_eq (text : String) (terms : List String)
    (h : ∀ m ∈ a.feedback, Text.BeginsPlain m) :
    a.prompt? text terms =
      a.strategy.form?.map fun form => String.join (form.parts text terms a.feedback) := by
  simp only [prompt?, Strategy.prompt?, Prompt.Form.prompt_eq, Prompt.nonBlank_eq h]

end Attempt

namespace Pipeline

variable (messages : JsonMessages) (check : String → Bool) (text : String) (terms : List String)

/-- The attempts that a schedule of strategies leads to, whether or not one of them passes. -/
def attempts : (schedule : List Strategy) → (feedback : Option String) → γ → List Attempt
  | [], _, _ => []
  | s :: schedule, feedback, g =>
    let (outcome, g) := s.attempt messages text terms feedback g
    ⟨s, feedback, outcome⟩ :: attempts schedule (feedbackOf check outcome) g

/-- The attempts up to the first that passes. -/
def made (all : List Attempt) : List Attempt :=
  all.take (all.findIdx (·.passes check) + 1)

def prompts (all : List Attempt) : List String :=
  all.filterMap (·.prompt? text terms)

/-- A service after it has been called with some prompts. -/
def callAll (prompts : List String) (g : γ) : γ :=
  prompts.foldl (fun g prompt => (GenerationService.call prompt g).2) g

/-- A round without a clock. -/
def search : (schedule : List Strategy) → (feedback : Option String) → γ → Progress × γ
  | [], feedback, g => (.rejected feedback, g)
  | s :: schedule, feedback, g =>
    let (outcome, g) := s.attempt messages text terms feedback g
    match outcome, feedbackOf check outcome with
    | .ok t, none => (.found t, g)
    | _, feedback => search schedule feedback g

variable {check text terms}

/-! ## Running without being called off -/

/-- The environment of a service in which nothing is called off. -/
def unlimited (messages : JsonMessages) (g : γ) (now : Nat) : Environment γ :=
  ⟨g, now, none, false, messages⟩

omit [GenerationService γ] in
theorem service_unlimited (g : γ) (now : Nat) : (unlimited messages g now).service = g :=
  rfl

theorem generate_unlimited (prompt : String) (g : γ) (now : Nat) :
    ∃ now', (unlimited messages g now).generate prompt = (some (GenerationService.call prompt g).1,
      unlimited messages (GenerationService.call prompt g).2 now') :=
  ⟨now + (GenerationService.request prompt g).1, rfl⟩

theorem translate_unlimited (text : String) (terms : List String) (s : Strategy)
    (feedback : Option String) (g : γ) (now : Nat) :
    ∃ now', s.translate text terms feedback (unlimited messages g now) =
      (some (s.attempt messages text terms feedback g).1,
        unlimited messages (s.attempt messages text terms feedback g).2 now') := by
  unfold Strategy.translate Strategy.attempt
  cases s.prompt? text terms feedback with
  | none => exact ⟨now, rfl⟩
  | some prompt =>
    obtain ⟨now', hgenerate⟩ := generate_unlimited messages prompt g now
    refine ⟨now', ?_⟩
    dsimp only
    rw [hgenerate]
    rfl

theorem round_unlimited (schedule : List Strategy) (feedback : Option String) (g : γ) (now : Nat) :
    ∃ now', round check text terms schedule feedback (unlimited messages g now) =
      ((search messages check text terms schedule feedback g).1,
        unlimited messages (search messages check text terms schedule feedback g).2 now') := by
  induction schedule generalizing feedback g now with
  | nil => exact ⟨now, rfl⟩
  | cons s schedule ih =>
    obtain ⟨now', htranslate⟩ := translate_unlimited messages text terms s feedback g now
    rw [round, search, htranslate]
    obtain ⟨outcome, g'⟩ := s.attempt messages text terms feedback g
    cases outcome with
    | error e => exact ih _ _ now'
    | ok t =>
      cases hfeedback : feedbackOf check (.ok t) with
      | none => exact ⟨now', by simp [hfeedback]⟩
      | some message => simpa only [hfeedback] using ih (some message) g' now'

theorem search_cons_of_passes {s : Strategy} {feedback : Option String} {g : γ}
    (schedule : List Strategy)
    (h : Attempt.passes check ⟨s, feedback, (s.attempt messages text terms feedback g).1⟩ = true) :
    ∃ t, (s.attempt messages text terms feedback g).1 = .ok t ∧
      search messages check text terms (s :: schedule) feedback g =
        (.found t, (s.attempt messages text terms feedback g).2) := by
  rw [search]
  revert h
  obtain ⟨outcome, g'⟩ := s.attempt messages text terms feedback g
  intro h
  cases outcome with
  | error e => cases h
  | ok t =>
    have hfeedback : feedbackOf check (.ok t) = none := Attempt.failure_eq_none.mpr h
    exact ⟨t, rfl, by simp [hfeedback]⟩

theorem search_cons_of_not_passes {s : Strategy} {feedback : Option String} {g : γ}
    (schedule : List Strategy)
    (h : Attempt.passes check ⟨s, feedback, (s.attempt messages text terms feedback g).1⟩ = false) :
    search messages check text terms (s :: schedule) feedback g =
      search messages check text terms schedule
        (feedbackOf check (s.attempt messages text terms feedback g).1)
        (s.attempt messages text terms feedback g).2 := by
  rw [search]
  revert h
  obtain ⟨outcome, g'⟩ := s.attempt messages text terms feedback g
  intro h
  cases outcome with
  | error e => rfl
  | ok t =>
    have hcheck : check t.content = false := h
    simp [feedbackOf, hcheck]

theorem search_append (schedule schedule' : List Strategy) (feedback : Option String) (g : γ) :
    search messages check text terms (schedule ++ schedule') feedback g =
      match search messages check text terms schedule feedback g with
      | (.rejected feedback, g) => search messages check text terms schedule' feedback g
      | r => r := by
  induction schedule generalizing feedback g with
  | nil => rfl
  | cons s schedule ih =>
    cases hpasses : Attempt.passes check
      ⟨s, feedback, (s.attempt messages text terms feedback g).1⟩ with
    | true =>
      obtain ⟨t, houtcome, hsearch⟩ := search_cons_of_passes messages schedule hpasses
      obtain ⟨t', houtcome', hsearch'⟩ :=
        search_cons_of_passes messages (schedule ++ schedule') hpasses
      rw [houtcome] at houtcome'
      cases houtcome'
      rw [List.cons_append, hsearch, hsearch']
    | false =>
      rw [List.cons_append, search_cons_of_not_passes messages _ hpasses,
        search_cons_of_not_passes messages _ hpasses, ih]

/-- The rounds of a pipeline are one search. -/
theorem rounds_unlimited (check : String → Bool) (text : String) (terms : List String)
    (p : Pipeline) (left : Nat) (feedback : Option String) (g : γ) (now : Nat) :
    let schedule := (List.replicate left p.strategies).flatten
    ∃ now', p.rounds check text terms left feedback (unlimited messages g now) =
      ((search messages check text terms schedule feedback g).1,
        unlimited messages (search messages check text terms schedule feedback g).2 now') := by
  induction left generalizing feedback g now with
  | zero => exact ⟨now, rfl⟩
  | succ left ih =>
    obtain ⟨now', hround⟩ := round_unlimited messages p.strategies feedback g now
    simp only [List.replicate_succ, List.flatten_cons, search_append]
    rw [rounds, hround]
    obtain ⟨progress, g'⟩ := search messages check text terms p.strategies feedback g
    cases progress with
    | found t => exact ⟨now', rfl⟩
    | calledOff => exact ⟨now', rfl⟩
    | rejected feedback =>
      dsimp only
      split
      · exact ih feedback g' now'
      · exact ih feedback g' (now' + p.retryDelay)

/-! ## The attempts of a schedule -/

theorem attempts_cons (s : Strategy) (schedule : List Strategy) (feedback : Option String) (g : γ) :
    attempts messages check text terms (s :: schedule) feedback g =
      ⟨s, feedback, (s.attempt messages text terms feedback g).1⟩ ::
        attempts messages check text terms schedule
          (feedbackOf check (s.attempt messages text terms feedback g).1)
          (s.attempt messages text terms feedback g).2 :=
  rfl

theorem map_strategy_attempts (schedule : List Strategy) (feedback : Option String) (g : γ) :
    (attempts messages check text terms schedule feedback g).map (·.strategy) = schedule := by
  induction schedule generalizing feedback g with
  | nil => rfl
  | cons s schedule ih => rw [attempts_cons, List.map_cons, ih]

/-- A strategy calls the service for its prompt and for nothing else. -/
theorem attempt_snd (s : Strategy) (feedback : Option String) (g : γ) :
    (s.attempt messages text terms feedback g).2 =
      callAll (s.prompt? text terms feedback).toList g := by
  unfold Strategy.attempt
  cases s.prompt? text terms feedback with
  | none => rfl
  | some prompt => rfl

theorem callAll_append (prompts prompts' : List String) (g : γ) :
    callAll (prompts ++ prompts') g = callAll prompts' (callAll prompts g) :=
  List.foldl_append

theorem prompts_cons (a : Attempt) (all : List Attempt) :
    prompts text terms (a :: all) = (a.prompt? text terms).toList ++ prompts text terms all := by
  cases h : a.prompt? text terms <;> simp [prompts, h]

/-- What was wrong with the last of some attempts, or before them. -/
def lastFailure (check : String → Bool) (feedback : Option String) (all : List Attempt) :
    Option String :=
  (all.getLast?.map (·.failure check)).getD feedback

theorem lastFailure_cons (feedback : Option String) (a : Attempt) (all : List Attempt) :
    lastFailure check feedback (a :: all) = lastFailure check (a.failure check) all := by
  cases all with
  | nil => rfl
  | cons b all => simp [lastFailure, List.getLast?_cons]

theorem lastFailure_none (all : List Attempt) :
    lastFailure check none all = all.getLast?.bind (·.failure check) := by
  cases h : all.getLast? <;> simp [lastFailure, h]

/-- Each attempt is told what was wrong with the one before, and it finds the service as the calls
before have left it. -/
theorem attempt_of_append {schedule : List Strategy} {feedback : Option String} {g : γ}
    {before after : List Attempt} {a : Attempt}
    (h : attempts messages check text terms schedule feedback g = before ++ a :: after) :
    a.feedback = lastFailure check feedback before ∧
      a.outcome = (a.strategy.attempt messages text terms a.feedback
        (callAll (prompts text terms before) g)).1 := by
  induction schedule generalizing feedback g before with
  | nil => simp [attempts] at h
  | cons s schedule ih =>
    rw [attempts_cons] at h
    cases before with
    | nil =>
      obtain ⟨rfl, -⟩ := List.cons.inj h
      exact ⟨rfl, rfl⟩
    | cons b before =>
      obtain ⟨rfl, htail⟩ := List.cons.inj h
      obtain ⟨hfeedback, houtcome⟩ := ih htail
      rw [attempt_snd, ← callAll_append] at houtcome
      rw [lastFailure_cons, prompts_cons]
      exact ⟨hfeedback, houtcome⟩

/-! ## Searches -/

theorem made_cons (a : Attempt) (all : List Attempt) :
    made check (a :: all) = if a.passes check then [a] else a :: made check all := by
  unfold made
  cases h : a.passes check <;> simp [List.findIdx_cons, h]

/-- A search makes the attempts up to the first that passes. -/
theorem search_eq (check : String → Bool) (text : String) (terms : List String) (p : Pipeline)
    (schedule : List Strategy) (feedback : Option String) (g : γ) :
    let all := attempts messages check text terms schedule feedback g
    p.result (search messages check text terms schedule feedback g).1 =
      (match all.find? (·.passes check) with
        | some a => a.outcome
        | none => .error (.exhausted p.maxAttempts ((lastFailure check feedback all).getD ""))) ∧
    (search messages check text terms schedule feedback g).2 =
      callAll (prompts text terms (made check all)) g := by
  induction schedule generalizing feedback g with
  | nil => exact ⟨rfl, rfl⟩
  | cons s schedule ih =>
    dsimp only
    rw [attempts_cons, made_cons, lastFailure_cons]
    cases hpasses : Attempt.passes check
      ⟨s, feedback, (s.attempt messages text terms feedback g).1⟩ with
    | true =>
      obtain ⟨t, houtcome, hsearch⟩ := search_cons_of_passes messages schedule hpasses
      rw [List.find?_cons_of_pos hpasses, hsearch, if_pos rfl, prompts_cons, attempt_snd]
      exact ⟨houtcome.symm, by simp [prompts, Attempt.prompt?]⟩
    | false =>
      obtain ⟨hresult, hservice⟩ := ih
        (feedbackOf check (s.attempt messages text terms feedback g).1)
        (s.attempt messages text terms feedback g).2
      rw [List.find?_cons_of_neg (by simp [hpasses]), search_cons_of_not_passes messages _ hpasses,
        if_neg Bool.false_ne_true, prompts_cons, callAll_append]
      refine ⟨hresult, hservice.trans ?_⟩
      rw [attempt_snd]
      rfl

theorem length_prompts (all : List Attempt) :
    (prompts text terms all).length = all.countP (·.strategy ≠ .agentic) := by
  induction all with
  | nil => rfl
  | cons a all ih =>
    rw [prompts_cons, List.length_append, ih, List.countP_cons]
    unfold Attempt.prompt? Strategy.prompt?
    cases a.strategy <;> simp [Strategy.form?, Nat.add_comm]

/-- A scripted service keeps the prompts of its calls. -/
theorem prompts_callAll (prompts : List String) (g : ScriptedGenerator) :
    (callAll prompts g).prompts.toList = g.prompts.toList ++ prompts := by
  induction prompts generalizing g with
  | nil => simp [callAll]
  | cons prompt prompts ih =>
    have hcall : (GenerationService.call prompt g).2.prompts = g.prompts.push prompt := rfl
    rw [← List.singleton_append, callAll_append, ih, callAll, List.foldl_cons, List.foldl_nil,
      hcall, Array.toList_push, List.append_assoc]

/-- A translation that nothing calls off makes the attempts of its rounds, each told what was wrong
with the one before, up to the first that gives a text which passes the check. The outcome of that
one is the result; if there is none, what was wrong with the last attempt is reported. The service
is called for the prompts of these attempts, once for each that has one, and for nothing else. -/
theorem translate_eq_first (p : Pipeline) (hlimit : p.timeLimit = none) (messages : JsonMessages)
    (check : String → Bool) (text : String) (terms : List String) (g : γ) (now : Nat) :
    let schedule := (List.replicate p.maxAttempts p.strategies).flatten
    let all := attempts messages check text terms schedule none g
    let asked := prompts text terms (made check all)
    let run := p.translate check text terms (unlimited messages g now)
    all.map (·.strategy) = schedule ∧
    (∀ before a after, all = before ++ a :: after →
      a.feedback = before.getLast?.bind (·.failure check) ∧
      a.prompt? text terms = a.strategy.form?.map (fun form =>
        String.join (form.parts text terms (before.getLast?.bind (·.failure check)))) ∧
      a.outcome = (a.strategy.attempt messages text terms a.feedback
        (callAll (prompts text terms before) g)).1) ∧
    run.1 = (match all.find? (·.passes check) with
      | some a => a.outcome
      | none => .error (.exhausted p.maxAttempts
          ((all.getLast?.bind (·.failure check)).getD ""))) ∧
    (∃ now', run.2 = unlimited messages (callAll asked g) now') ∧
    asked.length = (made check all).countP (·.strategy ≠ .agentic) ∧
    asked.length ≤ p.maxAttempts * p.strategies.countP (· ≠ .agentic) := by
  intro schedule all asked run
  have hstrategies : all.map (·.strategy) = schedule :=
    map_strategy_attempts messages schedule none g
  have hlength : asked.length = (made check all).countP (·.strategy ≠ .agentic) :=
    length_prompts (made check all)
  obtain ⟨hresult, hservice⟩ := search_eq messages check text terms p schedule none g
  obtain ⟨now', hrounds⟩ := rounds_unlimited messages check text terms p p.maxAttempts none g now
  have hrun : run = (p.result (search messages check text terms schedule none g).1,
      unlimited messages (search messages check text terms schedule none g).2 now') := by
    simp only [run, translate, hlimit, Environment.withTimeLimit, hrounds]
    rfl
  refine ⟨hstrategies, ?_, ?_, ⟨now', ?_⟩, hlength, ?_⟩
  · intro before a after h
    obtain ⟨hfeedback, houtcome⟩ := attempt_of_append messages h
    rw [lastFailure_none] at hfeedback
    refine ⟨hfeedback, ?_, houtcome⟩
    rw [← hfeedback]
    refine Attempt.prompt?_eq text terms fun m hm => ?_
    rw [hfeedback] at hm
    obtain ⟨b, -, hb⟩ := Option.bind_eq_some_iff.mp hm
    exact Attempt.beginsPlain_failure hb
  · rw [hrun, ← lastFailure_none]
    exact hresult
  · rw [hrun, ← hservice]
  · calc asked.length
      _ = (made check all).countP (·.strategy ≠ .agentic) := hlength
      _ ≤ all.countP (·.strategy ≠ .agentic) := (List.take_sublist _ _).countP_le
      _ = (all.map (·.strategy)).countP (· ≠ .agentic) := by rw [List.countP_map]; rfl
      _ = p.maxAttempts * p.strategies.countP (· ≠ .agentic) := by
        rw [hstrategies, List.countP_flatten, List.map_replicate, List.sum_replicate_nat]

/-- Five attempts of six are made, three of them with a prompt: the agentic strategy has none, the
first text does not pass, the service fails, and the fifth attempt passes. -/
theorem translate_eq_first_tweety :
    let g : ScriptedGenerator := .new (.queue
      [.ok "bird(tweety", .error (.provider "busy"), .ok " bird(tweety). ", .ok "fish(tweety)."])
      none 0 0
    let p : Pipeline := { strategies := [.agentic, .direct, .structured], maxAttempts := 2 }
    let text := "Tweety is a bird."
    let all :=
      attempts .placeholder isWellFormed text ["bird"] (p.strategies ++ p.strategies) none g
    let run := p.translate isWellFormed text ["bird"] (unlimited .placeholder g 0)
    p.timeLimit = none ∧
    (made isWellFormed all).map (·.strategy) =
      [.agentic, .direct, .structured, .agentic, .direct] ∧
    run.1.toOption.map (·.content) = some "bird(tweety)." ∧
    run.2.service.prompts.toList =
      [Prompt.direct text ["bird"]
          (some "strategy `agentic` cannot translate single statements"),
        Prompt.structured text ["bird"]
          (some "previous output `bird(tweety` is not valid Prolog syntax"),
        Prompt.direct text ["bird"]
          (some "strategy `agentic` cannot translate single statements")] := by
  intro g p text all run
  obtain ⟨-, -, hresult, ⟨now, hservice⟩, -⟩ :=
    translate_eq_first p rfl .placeholder isWellFormed text ["bird"] g 0
  refine ⟨rfl, by decide +kernel, ?_, ?_⟩
  · rw [hresult]
    decide +kernel
  · rw [hservice, service_unlimited, prompts_callAll]
    decide +kernel

end Pipeline

end OntoLogic
