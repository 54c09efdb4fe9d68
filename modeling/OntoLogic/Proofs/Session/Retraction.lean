-- SUMMARY: A retraction removes the first text that spells the given clause, however it is written.
import Mathlib.Data.List.Find
import OntoLogic.Proofs.Session.Assertion

/-!
# Retractions

A retraction looks for a text that is equal to the given one or spells the same clause. Every text
of a program spells a clause, so the second is all that counts: layout, comments and quotes that are
not needed do not matter. The first such text is removed, the others stay in their order, and the
engine loads what is left.
-/

namespace OntoLogic

def Clause.spelledBy (c : Clause) (text : String) : Bool :=
  (Clause.parse text).toOption = some c

theorem Clause.spelledBy_iff {c : Clause} {text : String} :
    c.spelledBy text = true ↔ Clause.parse text = .ok c := by
  unfold spelledBy
  cases Clause.parse text <;> simp [Except.toOption]

/-- Removing the first element with a property leaves one less. -/
theorem countP_eraseP {α : Type} (p : α → Bool) (l : List α) :
    (l.eraseP p).countP p = l.countP p - 1 := by
  induction l with
  | nil => rfl
  | cons a l ih =>
    by_cases ha : p a = true
    · rw [List.eraseP_cons_of_pos ha, List.countP_cons_of_pos ha, Nat.add_sub_cancel]
    · rw [List.eraseP_cons_of_neg ha, List.countP_cons_of_neg ha, List.countP_cons_of_neg ha, ih]

theorem countP_iterate_eraseP {α : Type} (p : α → Bool) (n : Nat) (l : List α) :
    ((List.eraseP p)^[n] l).countP p = l.countP p - n := by
  induction n generalizing l with
  | zero => rfl
  | succ n ih => rw [Function.iterate_succ_apply, ih, countP_eraseP, Nat.sub_sub, Nat.add_comm 1 n]

namespace Session

/-! ## Programs that have been loaded -/

/-- A session has got another program, which its engine has loaded. Nothing else has changed. -/
def LoadedWith (s : Session MemoryEngine) (program : List String) (s' : Session MemoryEngine) :
    Prop :=
  ∃ theory, Theory.load program = .ok theory ∧
    s' = { s with program, engine := ⟨s.engine.bounds, theory⟩ }

variable {bounds : Bounds} {s s' s'' : Session MemoryEngine} {program program' : List String}
  {text target existing : String} {c : Clause}

theorem LoadedWith.trans (h : s.LoadedWith program s') (h' : s'.LoadedWith program' s'') :
    s.LoadedWith program' s'' := by
  obtain ⟨theory, -, rfl⟩ := h
  obtain ⟨theory', hload', rfl⟩ := h'
  exact ⟨theory', hload', rfl⟩

/-- The program determines the session. -/
theorem LoadedWith.unique (h : s.LoadedWith program s') (h' : s.LoadedWith program s'') :
    s' = s'' := by
  obtain ⟨theory, hload, rfl⟩ := h
  obtain ⟨theory', hload', rfl⟩ := h'
  rw [Except.ok.inj (hload.symm.trans hload')]

/-- The engine of a consistent session has loaded its program. -/
theorem Becomes.loadedWith (h : s.Becomes program s.ontology s') (hs : s.Consistent bounds)
    (hs' : s'.Consistent bounds) : s.LoadedWith program s' := by
  obtain ⟨engine, rfl⟩ := h
  refine ⟨engine.theory, hs'.loaded, ?_⟩
  have hbounds : engine.bounds = s.engine.bounds := hs'.bounds_eq.trans hs.bounds_eq.symm
  rw [← hbounds]

theorem Consistent.loadedWith (h : s.Consistent bounds) : s.LoadedWith s.program s :=
  (Becomes.refl s).loadedWith h h

/-! ## One retraction -/

/-- A text that spells a clause is the same as all texts that spell this clause. -/
theorem sameClause_iff (h : ∃ d, Clause.parse existing = .ok d) :
    sameClause target existing = true ↔
      ∃ c, Clause.parse target = .ok c ∧ c.spelledBy existing = true := by
  obtain ⟨d, hd⟩ := h
  simp only [sameClause, Clause.spelledBy_iff, hd, Bool.or_eq_true, beq_iff_eq]
  constructor
  · rintro (rfl | hsame)
    · exact ⟨d, hd, rfl⟩
    · cases htarget : Clause.parse target with
      | error e => simp [htarget] at hsame
      | ok c => exact ⟨c, rfl, by simpa [htarget, eq_comm] using hsame⟩
  · rintro ⟨c, hc, hcd⟩
    cases hcd
    simp [hc]

/-- Nothing is retracted with a text that only consists of blanks. -/
theorem retract_blank (h : Text.trim text = "") :
    s.retract text = (.error (.invalidInput .emptyClause), s) := by
  simp [retract, h]

/-- Nothing is retracted with a text that spells no clause. -/
theorem Consistent.retract_malformed (h : s.Consistent bounds) (hne : Text.trim text ≠ "")
    (hparse : ∀ c, Clause.parse text ≠ .ok c) : s.retract text = (.ok false, s) := by
  have hfind : (s.program.zipIdx.find? fun p => sameClause (Text.trim text) p.1) = none := by
    rw [List.find?_eq_none]
    intro p hmem hsame
    have hexisting := (h.allowed p.1 (List.fst_mem_of_mem_zipIdx hmem)).exists_parse
    obtain ⟨c, hc, -⟩ := (sameClause_iff hexisting).mp hsame
    exact hparse c (Clause.parse_trim.mp hc)
  unfold Session.retract
  rw [if_neg (by simpa using hne), hfind]

/-- A retraction removes the first text that spells the clause, if there is one. -/
theorem Consistent.retract_spelled (h : s.Consistent bounds) (hparse : Clause.parse text = .ok c) :
    (s.retract text).1 = .ok (s.program.any c.spelledBy) ∧
      s.LoadedWith (s.program.eraseP c.spelledBy) (s.retract text).2 := by
  have htrim : Clause.parse (Text.trim text) = .ok c := Clause.parse_trim.mpr hparse
  have hne : Text.trim text ≠ "" := Clause.trim_ne_empty hparse
  have hsame : ∀ existing ∈ s.program,
      sameClause (Text.trim text) existing = c.spelledBy existing := by
    intro existing hmem
    rw [Bool.eq_iff_iff, sameClause_iff (h.allowed existing hmem).exists_parse]
    exact ⟨fun ⟨d, hd, hspelled⟩ => Except.ok.inj (hd.symm.trans htrim) ▸ hspelled,
      fun hspelled => ⟨c, htrim, hspelled⟩⟩
  have hposition : s.program.findIdx? c.spelledBy =
      (s.program.zipIdx.find? fun p => sameClause (Text.trim text) p.1).map Prod.snd := by
    rw [List.findIdx?_eq_fst_find?_zipIdx]
    refine congrArg (Option.map Prod.snd) (List.find?_congr fun p hmem => ?_)
    exact (hsame p.1 (List.fst_mem_of_mem_zipIdx hmem)).symm
  rw [List.eraseP_eq_eraseIdx, ← List.findIdx?_isSome, hposition]
  unfold Session.retract
  rw [if_neg (by simpa using hne)]
  cases hfind : s.program.zipIdx.find? fun p => sameClause (Text.trim text) p.1 with
  | none => exact ⟨rfl, h.loadedWith⟩
  | some found =>
    obtain ⟨removed, i⟩ := found
    obtain ⟨s', hs', hconsistent⟩ :=
      h.rebuild fun t ht => h.allowed t (List.mem_of_mem_eraseIdx (i := i) ht)
    obtain ⟨engine, rfl⟩ := exists_of_rebuild hs'
    dsimp only
    rw [hs']
    exact ⟨rfl, Becomes.loadedWith ⟨engine, rfl⟩ h hconsistent⟩

/-- A clause that is not in the program can be retracted when it has been asserted, and then all is
as it was. -/
theorem Consistent.retract_assert (h : s.Consistent bounds) (hparse : Clause.parse text = .ok c)
    (hnew : ∀ existing ∈ s.program, ¬c.spelledBy existing = true)
    (hasserted : (s.assert text).1.succeeds = true) :
    (s.assert text).2.retract text = (.ok true, s) := by
  obtain ⟨-, -, hbecomes⟩ := assert_succeeds hasserted
  have hloaded := hbecomes.loadedWith h (h.assert text)
  have hprogram : (s.assert text).2.program = s.program ++ [Text.trim text] := by
    obtain ⟨_, -, heq⟩ := hloaded
    rw [heq]
  have hspelled : c.spelledBy (Text.trim text) = true :=
    Clause.spelledBy_iff.mpr (Clause.parse_trim.mpr hparse)
  obtain ⟨hresult, hretracted⟩ := (h.assert text).retract_spelled hparse
  rw [hprogram, List.any_append, List.any_cons, hspelled] at hresult
  rw [hprogram, List.eraseP_append_right _ hnew, List.eraseP_cons_of_pos hspelled,
    List.append_nil] at hretracted
  exact Prod.ext (by simpa using hresult) ((hloaded.trans hretracted).unique h.loadedWith)

/-! ## Repeated retractions -/

/-- The results of retracting a text a number of times, and the session after that. -/
def retractTimes (text : String) (s : Session MemoryEngine) :
    Nat → List (Except SessionError Bool) × Session MemoryEngine
  | 0 => ([], s)
  | n + 1 =>
    let first := s.retract text
    let more := retractTimes text first.2 n
    (first.1 :: more.1, more.2)

/-- As long as there are texts that spell the clause, each retraction removes the first of them. -/
theorem Consistent.retractTimes_spelled (h : s.Consistent bounds)
    (hparse : Clause.parse text = .ok c) (n : Nat) :
    (s.retractTimes text n).1 =
        List.replicate (min n (s.program.countP c.spelledBy)) (.ok true) ++
          List.replicate (n - s.program.countP c.spelledBy) (.ok false) ∧
      s.LoadedWith ((List.eraseP c.spelledBy)^[n] s.program) (s.retractTimes text n).2 := by
  induction n generalizing s with
  | zero => exact ⟨by simp [retractTimes], h.loadedWith⟩
  | succ n ih =>
    obtain ⟨hresult, hretracted⟩ := h.retract_spelled hparse
    obtain ⟨hresults, hleft⟩ := ih (h.retract text)
    have hprogram : (s.retract text).2.program = s.program.eraseP c.spelledBy := by
      obtain ⟨_, -, heq⟩ := hretracted
      rw [heq]
    rw [hprogram, countP_eraseP] at hresults
    rw [hprogram] at hleft
    rw [retractTimes, Function.iterate_succ_apply]
    refine ⟨?_, hretracted.trans hleft⟩
    rw [hresult, hresults]
    generalize hcount : s.program.countP c.spelledBy = count
    cases count with
    | zero =>
      rw [List.any_eq_false.mpr (List.countP_eq_zero.mp hcount)]
      simp [List.replicate_succ]
    | succ k =>
      rw [List.any_eq_true.mpr (List.countP_pos_iff.mp (hcount ▸ Nat.succ_pos k))]
      simp [List.replicate_succ]

/-- Once no text spells the clause, nothing changes any more. -/
theorem Consistent.retractTimes_exhausted (h : s.Consistent bounds)
    (hparse : Clause.parse text = .ok c) {n : Nat} (hn : s.program.countP c.spelledBy ≤ n) :
    (s.retractTimes text n).2 = (s.retractTimes text (s.program.countP c.spelledBy)).2 := by
  obtain ⟨k, rfl⟩ := Nat.exists_eq_add_of_le hn
  let left := (List.eraseP c.spelledBy)^[s.program.countP c.spelledBy] s.program
  have hnone : left.countP c.spelledBy = 0 := by rw [countP_iterate_eraseP, Nat.sub_self]
  have hfixed : left.eraseP c.spelledBy = left :=
    List.eraseP_of_forall_not (List.countP_eq_zero.mp hnone)
  have hmore := (h.retractTimes_spelled hparse (s.program.countP c.spelledBy + k)).2
  rw [Nat.add_comm, Function.iterate_add_apply, Function.iterate_fixed hfixed,
    Nat.add_comm] at hmore
  exact hmore.unique (h.retractTimes_spelled hparse _).2

/-- Repeated retractions of a clause, however it is spelled, succeed as often as the program spells
it. Each removes the first text that spells it, and the engine loads what is left; then nothing
changes any more. A text that spells no clause removes nothing. A new clause can be asserted and
retracted, and the session is as it was. -/
theorem retract_occurrences (h : Reachable bounds s) (text : String) :
    (Text.trim text = "" → s.retract text = (.error (.invalidInput .emptyClause), s)) ∧
    (Text.trim text ≠ "" → (∀ c, Clause.parse text ≠ .ok c) → s.retract text = (.ok false, s)) ∧
    ∀ c, Clause.parse text = .ok c →
      (∀ n, (s.retractTimes text n).1 =
          List.replicate (min n (s.program.countP c.spelledBy)) (.ok true) ++
            List.replicate (n - s.program.countP c.spelledBy) (.ok false) ∧
        s.LoadedWith ((List.eraseP c.spelledBy)^[n] s.program) (s.retractTimes text n).2) ∧
      (∀ n, s.program.countP c.spelledBy ≤ n → (s.retractTimes text n).2 =
        (s.retractTimes text (s.program.countP c.spelledBy)).2) ∧
      ((∀ existing ∈ s.program, Clause.parse existing ≠ .ok c) →
        (s.assert text).1.succeeds = true → (s.assert text).2.retract text = (.ok true, s)) := by
  have hc := h.consistent
  refine ⟨retract_blank, hc.retract_malformed, fun c hparse => ⟨hc.retractTimes_spelled hparse,
    fun n => hc.retractTimes_exhausted hparse, fun hnew => hc.retract_assert hparse ?_⟩⟩
  intro existing hmem hspelled
  exact hnew existing hmem (Clause.spelledBy_iff.mp hspelled)

/-- A program that spells a rule twice, with other layout, quotes, a comment and a text between. -/
theorem retract_occurrences_owl :
    let program := ["fly(X) :- owl(X).", "owl(rob).", "fly( X ) :- % so\n 'owl'(X)."]
    let s₀ : Session MemoryEngine :=
      start "s" ⟨[], 1, 0, none⟩ 8 (some { types := ["owl", "fly"] }) (.new {}) (.new {})
    let s := (s₀.loadInitial program).toOption.getD s₀
    let text := " fly(X):-owl(X). "
    let new := "owl(_)."
    Reachable {} s ∧ s.program = program ∧
    (s.retractTimes text 3).1 = [.ok true, .ok true, .ok false] ∧
    s.LoadedWith ["owl(rob)."] (s.retractTimes text 3).2 ∧
    (s.retractTimes text 3).2 = (s.retractTimes text 2).2 ∧
    s.retract "fly(" = (.ok false, s) ∧
    (s.assert new).1.succeeds = true ∧ (s.assert new).2.retract new = (.ok true, s) := by
  intro program s₀ s text new
  have hloaded : s₀.loadInitial program = .ok s := eq_ok_getD (by decide +kernel) _
  have hreach : Reachable {} s := .create hloaded
  have hprogram : s.program = program := by decide +kernel
  let c := (Clause.parse text).toOption.getD default
  have hparse : Clause.parse text = .ok c := eq_ok_getD (by decide +kernel) _
  have hcount : s.program.countP c.spelledBy = 2 := by rw [hprogram]; decide +kernel
  have hleft : (List.eraseP c.spelledBy)^[3] s.program = ["owl(rob)."] := by
    rw [hprogram]
    decide +kernel
  obtain ⟨-, -, hspelled⟩ := retract_occurrences hreach text
  obtain ⟨htimes, hexhausted, -⟩ := hspelled c hparse
  obtain ⟨hresults, hsession⟩ := htimes 3
  rw [hcount] at hresults
  rw [hleft] at hsession
  have hsame := hexhausted 3 (by rw [hcount]; decide)
  rw [hcount] at hsame
  obtain ⟨-, hmalformed, -⟩ := retract_occurrences hreach "fly("
  have hnot : (Clause.parse "fly(").isOk = false := by decide +kernel
  have hkept := hmalformed (by decide +kernel) fun d hd => by rw [hd] at hnot; cases hnot
  let d := (Clause.parse new).toOption.getD default
  have hparse' : Clause.parse new = .ok d := eq_ok_getD (by decide +kernel) _
  have hnew : ∀ existing ∈ s.program, ¬d.spelledBy existing = true := by
    rw [hprogram]
    decide +kernel
  have hasserted : (s.assert new).1.succeeds = true := by decide +kernel
  obtain ⟨-, -, hback⟩ := retract_occurrences hreach new
  exact ⟨hreach, hprogram, hresults, hsession, hsame, hkept, hasserted,
    (hback d hparse').2.2 (fun t ht htd => hnew t ht (Clause.spelledBy_iff.mpr htd)) hasserted⟩

end Session

end OntoLogic
