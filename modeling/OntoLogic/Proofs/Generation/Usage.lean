-- SUMMARY: Usage adds up however the recordings of several sessions interleave.
import Mathlib.Algebra.BigOperators.Group.List.Basic
import Mathlib.Data.List.Nodup
import Mathlib.Data.UInt
import OntoLogic.Generation.Usage

/-!
# Usage under interleaving

A generation is recorded by eight atomic additions, four to the counters of the session that asked
for it and four to the counters of all sessions together. Sessions call the service at the same
time, so the additions of several recordings may interleave in any order. When none of them is
pending any more, the counters of all sessions together are the sums of those of the sessions, and
the calls of a session are its successful answers, all of it modulo the size of a counter.
-/

namespace OntoLogic

/-! ## Counters -/

/-- The answer of a generation service to a call. -/
abbrev Answer := Except GenerationError Generation

inductive Counter where
  | calls
  | promptTokens
  | completionTokens
  | latency
  deriving DecidableEq

/-- All counters, in the order in which a recording adds to them. -/
def Counter.all : List Counter :=
  [.calls, .promptTokens, .completionTokens, .latency]

/-- What a generation adds to a counter. -/
def Generation.amount (g : Generation) : Counter → UInt64
  | .calls => 1
  | .promptTokens => g.promptTokens
  | .completionTokens => g.completionTokens
  | .latency => UInt64.ofNat (min (g.latency / 1000) (UInt64.size - 1))

/-- What an answer adds to a counter. A failure adds nothing. -/
def Answer.amount : Answer → Counter → UInt64
  | .ok g, c => g.amount c
  | .error _, _ => 0

namespace Usage

def get (c : Counter) (u : Usage) : UInt64 :=
  match c with
  | .calls => u.calls
  | .promptTokens => u.promptTokens
  | .completionTokens => u.completionTokens
  | .latency => u.latency

def addTo (c : Counter) (amount : UInt64) (u : Usage) : Usage :=
  match c with
  | .calls => { u with calls := u.calls + amount }
  | .promptTokens => { u with promptTokens := u.promptTokens + amount }
  | .completionTokens => { u with completionTokens := u.completionTokens + amount }
  | .latency => { u with latency := u.latency + amount }

theorem get_addTo (c c' : Counter) (amount : UInt64) (u : Usage) :
    (u.addTo c amount).get c' = u.get c' + if c = c' then amount else 0 := by
  cases c <;> cases c' <;> simp [addTo, get]

/-- A recording consists of additions to all counters. -/
theorem record_eq_foldl (u : Usage) (g : Generation) :
    u.record g = Counter.all.foldl (fun u c => u.addTo c (g.amount c)) u :=
  rfl

/-- Counts the generation in an answer. A failure is not counted. -/
def count (u : Usage) : Answer → Usage
  | .ok g => u.record g
  | .error _ => u

end Usage

/-! ## Additions -/

/-- An addition to one counter. -/
structure Addition where
  /-- The session whose counter it is; none for a counter of all sessions together. -/
  owner : Option String
  counter : Counter
  amount : UInt64

/-- The additions that record an answer to a session. -/
def recordings (id : String) : Answer → List Addition
  | .ok g =>
    Counter.all.map (fun c => ⟨some id, c, g.amount c⟩) ++
      Counter.all.map fun c => ⟨none, c, g.amount c⟩
  | .error _ => []

/-- What some additions are going to add to a counter. -/
def due (owner : Option String) (c : Counter) (additions : List Addition) : UInt64 :=
  (additions.map fun a => if a.owner = owner ∧ a.counter = c then a.amount else 0).sum

/-- What the answers in a log have added to a counter when they are recorded: for a session the
answers that it got, and for all sessions together every answer. -/
def recorded (owner : Option String) (c : Counter) (log : List (String × Answer)) : UInt64 :=
  (log.map fun x => if owner.all (· = x.1) then x.2.amount c else 0).sum

theorem due_append (owner : Option String) (c : Counter) (additions additions' : List Addition) :
    due owner c (additions ++ additions') = due owner c additions + due owner c additions' := by
  simp [due]

theorem recorded_append (owner : Option String) (c : Counter) (log log' : List (String × Answer)) :
    recorded owner c (log ++ log') = recorded owner c log + recorded owner c log' := by
  simp [recorded]

theorem recorded_cons (owner : Option String) (c : Counter) (x : String × Answer)
    (log : List (String × Answer)) :
    recorded owner c (x :: log) =
      (if owner.all (· = x.1) then x.2.amount c else 0) + recorded owner c log := by
  rw [recorded, List.map_cons, List.sum_cons, recorded]

/-- An answer is recorded once for its session and once for all sessions together. -/
theorem due_recordings (owner : Option String) (c : Counter) (id : String) (answer : Answer) :
    due owner c (recordings id answer) = recorded owner c [(id, answer)] := by
  cases answer with
  | error e => simp [due, recorded, recordings, Answer.amount]
  | ok g =>
    cases owner with
    | none => cases c <;> simp [due, recorded, recordings, Answer.amount, Counter.all]
    | some owner =>
      by_cases hid : owner = id
      · subst hid
        cases c <;> simp [due, recorded, recordings, Answer.amount, Counter.all]
      · simp [due, recorded, recordings, Answer.amount, Counter.all, hid, Ne.symm hid]

/-! ## Interleaved additions -/

/-- The counters of some sessions, and the additions that are still to be made. -/
structure Meter where
  /-- The ids of all sessions so far. -/
  ids : List String := []
  /-- The counters of every session, and those of all sessions together. -/
  usage : Option String → Usage := fun _ => {}
  pending : List Addition := []

namespace Meter

def add (a : Addition) (m : Meter) : Meter :=
  { m with usage := Function.update m.usage a.owner ((m.usage a.owner).addTo a.counter a.amount) }

/-- What becomes of counters, with the answers of the service so far and the sessions that got
them. Any session can get any answer at any time, and of the pending additions any can be the next
to be made. -/
inductive Run : List (String × Answer) → Meter → Prop
  | start : Run [] {}
  | create {log : List (String × Answer)} {m : Meter} {id : String} : Run log m → id ∉ m.ids →
    Run log { m with ids := m.ids ++ [id] }
  | call {log : List (String × Answer)} {m : Meter} {id : String} (answer : Answer) : Run log m →
    id ∈ m.ids →
    Run (log ++ [(id, answer)]) { m with pending := m.pending ++ recordings id answer }
  | add {log : List (String × Answer)} {m : Meter} {a : Addition} {before after : List Addition} :
    Run log m → m.pending = before ++ a :: after →
    Run log { m.add a with pending := before ++ after }

variable {log : List (String × Answer)} {m : Meter}

theorem get_add (a : Addition) (m : Meter) (owner : Option String) (c : Counter) :
    ((m.add a).usage owner).get c = (m.usage owner).get c + due owner c [a] := by
  by_cases howner : a.owner = owner
  · subst howner
    simp [add, due, Usage.get_addTo]
  · simp [add, due, howner, Function.update_of_ne (Ne.symm howner)]

/-- Sessions have different ids, and only they get answers. -/
theorem Run.ids (h : Run log m) : m.ids.Nodup ∧ ∀ x ∈ log, x.1 ∈ m.ids := by
  induction h with
  | start => exact ⟨List.nodup_nil, nofun⟩
  | create _ hid ih =>
    obtain ⟨hnodup, hlog⟩ := ih
    refine ⟨?_, fun x hx => List.mem_append_left _ (hlog x hx)⟩
    exact hnodup.append (List.nodup_singleton _) (List.disjoint_singleton.mpr hid)
  | call answer _ hid ih =>
    obtain ⟨hnodup, hlog⟩ := ih
    exact ⟨hnodup, List.forall_mem_append.mpr ⟨hlog, List.forall_mem_singleton.mpr hid⟩⟩
  | add _ _ ih => exact ih

/-- What a counter has, and what is still to be added to it, is what the answers come to. -/
theorem Run.get_add_due (h : Run log m) (owner : Option String) (c : Counter) :
    (m.usage owner).get c + due owner c m.pending = recorded owner c log := by
  induction h with
  | start => cases c <;> rfl
  | create _ _ ih => exact ih
  | call answer _ _ ih =>
    rw [due_append, due_recordings, recorded_append, ← ih, UInt64.add_assoc]
  | @add log m a before after _ hpending ih =>
    rw [hpending, due_append, ← List.singleton_append, due_append] at ih
    rw [← ih]
    dsimp only
    rw [get_add, due_append]
    ac_rfl

/-! ## Recordings at one go -/

/-- Counts an answer to a session. -/
def count (id : String) (answer : Answer) (m : Meter) : Meter :=
  { m with usage := fun owner =>
      if owner.all (· = id) then (m.usage owner).count answer else m.usage owner }

/-- A recording whose additions are made one after the other counts the answer. -/
theorem foldl_recordings (id : String) (answer : Answer) (m : Meter) :
    (recordings id answer).foldl (fun m a => m.add a) m = m.count id answer := by
  obtain ⟨ids, usage, pending⟩ := m
  cases answer with
  | error e => simp [recordings, count, Usage.count]
  | ok g =>
    simp only [recordings, Counter.all, List.map_cons, List.map_nil, List.cons_append,
      List.nil_append, List.foldl_cons, List.foldl_nil, add, count, Usage.count]
    congr 1
    funext owner
    cases owner with
    | none => simp [Usage.record_eq_foldl, Counter.all]
    | some owner =>
      by_cases hid : owner = id
      · subst hid
        simp [Usage.record_eq_foldl, Counter.all]
      · simp [hid]

theorem foldl_count (id : String) (answers : List Answer) (m : Meter) :
    answers.foldl (fun m answer => m.count id answer) m =
      { m with usage := fun owner =>
          if owner.all (· = id) then answers.foldl Usage.count (m.usage owner)
          else m.usage owner } := by
  induction answers generalizing m with
  | nil => simp
  | cons answer answers ih =>
    rw [List.foldl_cons, ih]
    unfold count
    congr 1
    funext owner
    dsimp only
    split
    · rw [List.foldl_cons]
    · rfl

/-! ## Sums -/

open scoped UInt64.CommRing in
/-- Every answer is recorded for one session. -/
theorem sum_recorded {ids : List String} (hnodup : ids.Nodup) (c : Counter)
    {log : List (String × Answer)} (hlog : ∀ x ∈ log, x.1 ∈ ids) :
    (ids.map fun id => recorded (some id) c log).sum = recorded none c log := by
  induction log with
  | nil => exact List.sum_map_zero
  | cons x log ih =>
    obtain ⟨hx, hlog⟩ := List.forall_mem_cons.mp hlog
    simp only [recorded_cons, Option.all_some, Option.all_none, decide_eq_true_eq, if_true]
    rw [List.sum_map_add, ih hlog, List.sum_map_ite_eq, List.count_eq_one_of_mem hnodup hx,
      List.sum_map_zero]
    simp

theorem toNat_sum (amounts : List UInt64) :
    amounts.sum.toNat = (amounts.map UInt64.toNat).sum % 2 ^ 64 := by
  induction amounts with
  | nil => rfl
  | cons amount amounts ih =>
    rw [List.sum_cons, List.map_cons, List.sum_cons, UInt64.toNat_add, ih, Nat.add_mod_mod]

/-- Of the answers that a session got, its calls are the successful ones. -/
theorem toNat_recorded_calls (id : String) (log : List (String × Answer)) :
    (recorded (some id) .calls log).toNat =
      log.countP (fun x => id = x.1 ∧ x.2.isOk) % 2 ^ 64 := by
  induction log with
  | nil => rfl
  | cons x log ih =>
    obtain ⟨id', answer⟩ := x
    rw [recorded_cons, UInt64.toNat_add, ih, Nat.add_mod_mod, List.countP_cons, Nat.add_comm]
    cases answer <;> by_cases hid : id = id' <;>
      simp [Answer.amount, Generation.amount, Except.isOk, Except.toBool, hid]

/-- The counters of all sessions together are the sums of those of the sessions, and the calls of a
session are its successful answers, as far as counters go. -/
structure AddsUp (log : List (String × Answer)) (m : Meter) : Prop where
  total : ∀ c, ((m.usage none).get c).toNat =
    (m.ids.map fun id => ((m.usage (some id)).get c).toNat).sum % 2 ^ 64
  calls : ∀ id ∈ m.ids, (m.usage (some id)).calls.toNat =
    log.countP (fun x => id = x.1 ∧ x.2.isOk) % 2 ^ 64

/-- When no addition is pending, the counters add up, however the additions were interleaved. -/
theorem Run.addsUp (h : Run log m) (hpending : m.pending = []) : m.AddsUp log := by
  obtain ⟨hnodup, hlog⟩ := h.ids
  have hget (owner : Option String) (c : Counter) :
      (m.usage owner).get c = recorded owner c log := by
    have hdue := h.get_add_due owner c
    rwa [hpending, due, List.map_nil, List.sum_nil, UInt64.add_zero] at hdue
  refine ⟨fun c => ?_, fun id _ => ?_⟩
  · simp only [hget]
    rw [← sum_recorded hnodup c hlog, toNat_sum, List.map_map]
    rfl
  · rw [← toNat_recorded_calls, ← hget]
    rfl

end Meter

end OntoLogic
