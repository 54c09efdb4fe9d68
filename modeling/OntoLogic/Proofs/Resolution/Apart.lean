-- SUMMARY: Each copy of a clause has variables that occur nowhere else when the copy is made.
import OntoLogic.Proofs.Resolution.Renaming
import OntoLogic.Proofs.Resolution.Termination

/-!
# Copies stand apart

Copies of clauses are numbered in the order in which they are made. The numbers go on from one
branch of a search to the next and through the searches of negations, also where the bindings are
taken back. So at each point the goals and the bindings only have variables that were read from a
text, and variables of copies with smaller numbers.

A variable of a copy spells a variable of the clause and the number of the copy. It spells no other
variable and number, and it cannot be read from a text.
-/

namespace OntoLogic

/-! ## The variables of bindings -/

namespace Substitution

/-- The variables that are bound, and those of the terms they are bound to, have a property. -/
def Over (P : String → Prop) (s : Substitution) : Prop :=
  ∀ x t, s.get? x = some t → P x ∧ ∀ y ∈ t.occurrences, P y

variable {P Q : String → Prop} {s s' : Substitution} {t u : Term} {ls rs ts us : List Term}
  {x : String} {b : Bool}

theorem over_empty : (∅ : Substitution).Over P := by
  intro x t hx
  simp at hx

theorem Over.mono (h : s.Over P) (hPQ : ∀ x, P x → Q x) : s.Over Q := fun x t hx =>
  (h x t hx).imp (hPQ x) fun ht y hy => hPQ y (ht y hy)

theorem Over.insert (h : s.Over P) (hx : P x) (ht : ∀ y ∈ t.occurrences, P y) :
    (s.insert x t).Over P := by
  intro y u hy
  rw [get?_insert] at hy
  split at hy
  · next heq =>
    cases hy
    exact ⟨heq ▸ hx, ht⟩
  · exact h y u hy

theorem Walks.over (h : s.Walks t u) (hs : s.Over P) (ht : ∀ x ∈ t.occurrences, P x) :
    ∀ x ∈ u.occurrences, P x := by
  induction h with
  | ends => exact ht
  | follows hx _ ih => exact ih (hs _ _ hx).2

theorem Resolves.over (h : s.Resolves ts us) (hs : s.Over P)
    (hts : ∀ x ∈ ts.flatMap Term.occurrences, P x) : ∀ x ∈ us.flatMap Term.occurrences, P x := by
  induction h with
  | nil => exact hts
  | compound ht _ _ ihargs ih =>
    rw [List.flatMap_cons, List.forall_mem_append] at hts ⊢
    have hargs := ht.over hs hts.1
    rw [Term.occurrences_compound] at hargs ⊢
    exact ⟨ihargs hargs, ih hts.2⟩
  | plain ht _ _ ih =>
    rw [List.flatMap_cons, List.forall_mem_append] at hts ⊢
    exact ⟨ht.over hs hts.1, ih hts.2⟩

theorem Resolves.over_one (h : s.Resolves [t] [u]) (hs : s.Over P)
    (ht : ∀ x ∈ t.occurrences, P x) : ∀ x ∈ u.occurrences, P x := by
  simpa using h.over hs (by simpa using ht)

theorem Meets.over_args {l r : Term} (h : s.Meets l r (.args ls rs)) (hs : s.Over P)
    (hl : ∀ x ∈ l.occurrences, P x) (hr : ∀ x ∈ r.occurrences, P x) :
    (∀ x ∈ ls.flatMap Term.occurrences, P x) ∧ ∀ x ∈ rs.flatMap Term.occurrences, P x := by
  obtain ⟨l', r', hl', hr', hmove⟩ := h
  obtain ⟨f, rfl, rfl, -⟩ := compounds_of_move hmove
  rw [← Term.occurrences_compound f ls, ← Term.occurrences_compound f rs]
  exact ⟨hl'.over hs hl, hr'.over hs hr⟩

theorem Meets.over_insert {l r : Term} (h : s.Meets l r (.bind x t)) (hs : s.Over P)
    (hl : ∀ x ∈ l.occurrences, P x) (hr : ∀ x ∈ r.occurrences, P x) : (s.insert x t).Over P := by
  obtain ⟨l', r', hl', hr', hmove⟩ := h
  have hl := hl'.over hs hl
  have hr := hr'.over hs hr
  obtain ⟨-, ⟨rfl, rfl⟩ | ⟨rfl, rfl⟩⟩ := binds_of_move hmove
  · exact hs.insert (hl _ List.mem_cons_self) hr
  · exact hs.insert (hr _ List.mem_cons_self) hl

/-- Unification makes bindings out of variables that are there. -/
theorem Unifies.over (h : s.Unifies ls rs b s') (hs : s.Over P)
    (hls : ∀ x ∈ ls.flatMap Term.occurrences, P x) (hrs : ∀ x ∈ rs.flatMap Term.occurrences, P x) :
    s'.Over P := by
  induction h with
  | nil | bind_fails | clash => exact hs
  | skip _ _ ih =>
    rw [List.flatMap_cons, List.forall_mem_append] at hls hrs
    exact ih hs hls.2 hrs.2
  | bind hmeets _ _ ih =>
    rw [List.flatMap_cons, List.forall_mem_append] at hls hrs
    exact ih (hmeets.over_insert hs hls.1 hrs.1) hls.2 hrs.2
  | args hmeets _ _ ihargs ih =>
    rw [List.flatMap_cons, List.forall_mem_append] at hls hrs
    obtain ⟨hls', hrs'⟩ := hmeets.over_args hs hls.1 hrs.1
    exact ih (ihargs hs hls' hrs') hls.2 hrs.2
  | args_fail hmeets _ ih =>
    rw [List.flatMap_cons, List.forall_mem_append] at hls hrs
    obtain ⟨hls', hrs'⟩ := hmeets.over_args hs hls.1 hrs.1
    exact ih hs hls' hrs'

/-- Two terms are unified. -/
theorem Unifies.over_pair {l r : Term} (h : s.Unifies [l] [r] b s') (hs : s.Over P)
    (hl : ∀ x ∈ l.occurrences, P x) (hr : ∀ x ∈ r.occurrences, P x) : s'.Over P :=
  h.over hs (by simpa using hl) (by simpa using hr)

end Substitution

/-! ## Copies of clauses -/

namespace Search

namespace Copy

/-- The variables of a copy, its head and its body, left to right. -/
def vars (e : Copy) : List String :=
  (e.clause.head.rename e.number).occurrences ++
    (e.clause.body.map (Goal.rename e.number)).flatMap Goal.occurrences

/-- Everything that the search holds when it makes a copy is older than the copy. -/
structure Fresh (theory : Theory) (e : Copy) (k : Nat) : Prop where
  number : e.number = k + 1
  clause : e.clause ∈ theory.clauses.toList
  goals : ∀ g ∈ e.goals, ∀ x ∈ g.occurrences, Old k x
  bindings : e.bindings.Over (Old k)

/-- The variables of a copy are other ones than those of the query, of the goals and of the
bindings, and they are as distinct from each other as those of the clause. -/
structure Apart (query : Query) (e : Copy) : Prop where
  query : ∀ x ∈ e.vars, x ∉ query.vars
  goals : ∀ g ∈ e.goals, ∀ x ∈ e.vars, x ∉ g.occurrences
  keys : ∀ x ∈ e.vars, e.bindings.get? x = none
  values : ∀ y t, e.bindings.get? y = some t → ∀ x ∈ e.vars, x ∉ t.occurrences
  vars : e.vars = e.clause.occurrences.map fun y => Term.suffixed y e.number
  distinct : ∀ y ∈ e.clause.occurrences, ∀ z ∈ e.clause.occurrences,
    Term.suffixed y e.number = Term.suffixed z e.number → y = z

theorem vars_eq (e : Copy) :
    e.vars = e.clause.occurrences.map fun y => Term.suffixed y e.number := by
  rw [vars, Clause.occurrences, List.map_append, List.map_flatMap, List.flatMap_map]
  congr 1
  · exact e.clause.head.occurrences_mapVars
  · exact List.flatMap_congr fun g _ => g.rename_eq_subst _ ▸ g.occurrences_mapVars

end Copy

/-! ## Copies in the course of a search -/

def Frame.goals : Frame → List Goal
  | .solve _ goals => goals
  | .clauses _ t goal rest _ => .call goal :: .call t :: rest

def Frame.clausesLeft : Frame → List Clause
  | .solve _ _ => []
  | .clauses _ _ _ _ cs => cs

variable {theory : Theory} {bounds : Bounds} {calledOff : Nat → Bool} {f : Frame}
  {s s' : Substitution} {st : State} {res : Flow × State} {log log' : List Copy} {e : Copy}
  {d i j k : Nat} {t goal : Term} {g : Goal} {goals rest : List Goal} {c : Clause}
  {cs : List Clause}

/-- The copies of a part of a search, before which `j` copies have been made and after which `k`. -/
structure Logged (theory : Theory) (log : List Copy) (j k : Nat) : Prop where
  numbers : log.map Copy.number = List.range' (j + 1) log.length
  total : k = j + log.length
  fresh : ∀ e ∈ log, ∃ i, e.Fresh theory i

theorem Logged.nil : Logged theory [] j j where
  numbers := rfl
  total := rfl
  fresh := nofun

theorem Logged.append (h : Logged theory log i j) (h' : Logged theory log' j k) :
    Logged theory (log ++ log') i k where
  numbers := by
    have hj : j + 1 = i + 1 + log.length := by rw [h.total, Nat.add_right_comm]
    rw [List.map_append, h.numbers, h'.numbers, hj, List.length_append, List.range'_append_1]
  total := by rw [h'.total, h.total, List.length_append, Nat.add_assoc]
  fresh := List.forall_mem_append.mpr ⟨h.fresh, h'.fresh⟩

theorem Logged.cons (h : e.Fresh theory j) (hlog : Logged theory log (j + 1) k) :
    Logged theory (e :: log) j k :=
  have hone : Logged theory [e] j (j + 1) :=
    ⟨congrArg List.singleton h.number, rfl, List.forall_mem_singleton.mpr ⟨j, h⟩⟩
  hone.append hlog

/-- A call holds clauses of the theory, and no variables of copies that are still to be made. -/
structure Frame.Valid (theory : Theory) (f : Frame) (s : Substitution) (k : Nat) : Prop where
  clauses : ∀ c ∈ f.clausesLeft, c ∈ theory.clauses.toList
  goals : ∀ g ∈ f.goals, ∀ x ∈ g.occurrences, Old k x
  bindings : s.Over (Old k)

namespace Frame.Valid

theorem solve (hgoals : ∀ g ∈ goals, ∀ x ∈ g.occurrences, Old k x) (hs : s.Over (Old k)) :
    (Frame.solve d goals).Valid theory s k :=
  ⟨nofun, hgoals, hs⟩

theorem mono (h : f.Valid theory s j) (hjk : j ≤ k) : f.Valid theory s k where
  clauses := h.clauses
  goals g hg x hx := (h.goals g hg x hx).mono hjk
  bindings := h.bindings.mono fun _ hx => hx.mono hjk

theorem tail (h : (Frame.solve d (g :: rest)).Valid theory s k) :
    (Frame.solve d rest).Valid theory s k :=
  solve (List.forall_mem_cons.mp h.goals).2 h.bindings

theorem call (h : (Frame.solve d (.call t :: rest)).Valid theory s k)
    (hgoal : s.Resolves [t] [goal]) (key : Indicator) :
    (Frame.clauses d t goal rest (theory.candidates key)).Valid theory s k where
  clauses _ hc := mem_of_mem_candidates hc
  goals :=
    have ht := (List.forall_mem_cons.mp h.goals).1
    List.forall_mem_cons.mpr ⟨hgoal.over_one h.bindings ht, h.goals⟩
  bindings := h.bindings

theorem nextClause (h : (Frame.clauses d t goal rest (c :: cs)).Valid theory s k) :
    (Frame.clauses d t goal rest cs).Valid theory s k :=
  ⟨(List.forall_mem_cons.mp h.clauses).2, h.goals, h.bindings⟩

theorem fresh (h : (Frame.clauses d t goal rest (c :: cs)).Valid theory s k) :
    Copy.Fresh theory ⟨c, k + 1, .call t :: rest, s⟩ k :=
  ⟨rfl, (List.forall_mem_cons.mp h.clauses).1, (List.forall_mem_cons.mp h.goals).2, h.bindings⟩

/-- The next copy of a clause has variables that are no longer those of copies to be made. -/
theorem body (h : (Frame.clauses d t goal rest (c :: cs)).Valid theory s k)
    (hunify : s.Unifies [goal] [c.head.rename (k + 1)] true s') :
    (Frame.solve (d + 1) (c.body.map (Goal.rename (k + 1)) ++ rest)).Valid theory s' (k + 1) := by
  have hlater := h.mono (Nat.le_succ k)
  obtain ⟨hgoal, -, hrest⟩ : _ ∧ _ ∧ _ := by
    simpa only [Frame.goals, List.forall_mem_cons] using hlater.goals
  refine solve (List.forall_mem_append.mpr ⟨?_, hrest⟩) (hunify.over_pair hlater.bindings hgoal ?_)
  · intro g hg x hx
    obtain ⟨g', -, rfl⟩ := List.mem_map.mp hg
    obtain ⟨y, -, rfl⟩ := Goal.mem_occurrences_rename.mp hx
    exact old_suffixed y (k + 1)
  · intro x hx
    obtain ⟨y, -, rfl⟩ := Term.mem_occurrences_rename.mp hx
    exact old_suffixed y (k + 1)

end Frame.Valid

theorem verdict_returns_copies (h : verdict bounds calledOff goal st = .returns res) :
    res.2.copies = st.copies := by
  unfold verdict at h
  split at h
  · cases h
    rfl
  · split at h
    · cases h
      rfl
    · split at h
      · cases h
      · cases h
        rfl
      · cases h

/-- A call makes copies that are numbered from where it starts, and each of them is fresh. -/
theorem Returns.logged (h : Returns theory bounds calledOff f s st res log)
    (hf : f.Valid theory s st.copies) : Logged theory log st.copies res.2.copies := by
  induction h with
  | answer | deep | unify_fails | notUnify_fails | exhausted => exact .nil
  | unify _ hunify _ ih =>
    obtain ⟨hl, hr⟩ := List.forall_mem_append.mp (List.forall_mem_cons.mp hf.goals).1
    exact ih (.solve hf.tail.goals (hunify.over_pair hf.bindings hl hr))
  | notUnify _ _ _ ih => exact ih hf.tail
  | not _ _ _ _ ih ihrest =>
    have hinner := ih (.solve (List.forall_mem_singleton.mpr (List.forall_mem_cons.mp hf.goals).1)
      hf.bindings)
    exact hinner.append (ihrest (hf.tail.mono (hinner.total ▸ Nat.le_add_right _ _)))
  | not_fails _ _ _ ih =>
    exact ih (.solve (List.forall_mem_singleton.mpr (List.forall_mem_cons.mp hf.goals).1)
      hf.bindings)
  | call_returns _ _ hverdict => exact verdict_returns_copies hverdict ▸ .nil
  | call_succeeds _ _ _ _ ih => exact ih hf.tail
  | call_tries _ hgoal _ _ ih => exact ih (hf.call hgoal _)
  | clash _ _ ih => exact .cons hf.fresh (ih (hf.nextClause.mono (Nat.le_succ _)))
  | last hunify _ ih => exact .cons hf.fresh (ih (hf.body hunify))
  | next hunify _ _ ih ihnext =>
    have hbody := ih (hf.body hunify)
    have hle := (Nat.le_succ _).trans (hbody.total ▸ Nat.le_add_right _ _)
    exact .cons hf.fresh (hbody.append (ihnext (hf.nextClause.mono hle)))

/-! ## Whole searches -/

theorem isSource_of_fromText (h : c.FromText) : ∀ x ∈ c.occurrences, IsSource x := by
  refine List.forall_mem_append.mpr ⟨h.head, fun x hx => ?_⟩
  obtain ⟨g, hg, hx⟩ := List.mem_flatMap.mp hx
  exact (h.body g hg).isSource x hx

theorem Query.isSource_of_mem_vars {query : Query} (h : ∀ g ∈ query.goals, g.FromText) :
    ∀ x ∈ query.vars, IsSource x := by
  intro x hx
  obtain ⟨g, hg, hx⟩ := List.mem_flatMap.mp (List.mem_eraseDups.mp hx)
  exact (h g hg).isSource x hx

/-- A variable of a clause or of a query that has been read from a text. -/
def IsParsed (x : String) : Prop :=
  (∃ text c, Clause.parse text = .ok c ∧ x ∈ c.occurrences) ∨
    ∃ text query, Query.parse text = .ok query ∧ x ∈ query.vars

theorem IsParsed.isSource {x : String} (h : IsParsed x) : IsSource x := by
  obtain ⟨text, c, hparse, hx⟩ | ⟨text, query, hparse, hx⟩ := h
  · exact isSource_of_fromText (Clause.parse_fromText text c hparse) x hx
  · exact Query.isSource_of_mem_vars (Query.parse_fromText text query hparse) x hx

namespace Copy

/-- What is older than a copy has no variable of the copy. -/
theorem Fresh.not_old {x : String} (h : e.Fresh theory k) (hclause : e.clause.FromText)
    (hx : x ∈ e.vars) : ¬Old k x := by
  rw [vars_eq] at hx
  obtain ⟨y, hy, rfl⟩ := List.mem_map.mp hx
  intro hold
  exact hold y e.number (isSource_of_fromText hclause y hy) (h.number ▸ Nat.lt_succ_self k) rfl

theorem Fresh.apart {query : Query} (h : e.Fresh theory k) (hclause : e.clause.FromText)
    (hquery : ∀ g ∈ query.goals, g.FromText) : e.Apart query where
  query x hx hmem :=
    h.not_old hclause hx (old_of_isSource (Query.isSource_of_mem_vars hquery x hmem))
  goals g hg x hx hmem := h.not_old hclause hx (h.goals g hg x hmem)
  keys x hx := Option.eq_none_iff_forall_ne_some.mpr fun t ht =>
    h.not_old hclause hx (h.bindings x t ht).1
  values y t ht x hx hmem := h.not_old hclause hx ((h.bindings y t ht).2 x hmem)
  vars := e.vars_eq
  distinct _ _ _ _ heq := (suffixed_inj heq).1

/-- Copies with different numbers share no variable. -/
theorem disjoint_vars {e' : Copy} (h : e.number ≠ e'.number) : ∀ x ∈ e.vars, x ∉ e'.vars := by
  intro x hx hx'
  rw [vars_eq] at hx hx'
  obtain ⟨y, -, rfl⟩ := List.mem_map.mp hx
  obtain ⟨z, -, heq⟩ := List.mem_map.mp hx'
  exact h (suffixed_inj heq).2.symm

end Copy

/-- Copies of a part of a search share no variables with each other. -/
theorem Logged.pairwise (h : Logged theory log j k) :
    log.Pairwise fun e e' => ∀ x ∈ e.vars, x ∉ e'.vars := by
  have hlt : (log.map Copy.number).Pairwise (· < ·) := h.numbers ▸ List.pairwise_lt_range'
  exact (List.pairwise_map.mp hlt).imp fun hlt => Copy.disjoint_vars hlt.ne

/-- In a search for the answers of a query, whenever it is called off, the copies of clauses are
numbered one after another. The variables of a copy are not those of the query, not those of the
goals and the bindings that the search holds when it makes the copy, and not those of other copies;
and variables of the clause that are different stay so. The names of copies spell their variable and
number, and no variable that has been read has a name of a copy. -/
theorem copies_apart {texts : List String} {text : String} {query : Query}
    (hload : Theory.load texts = .ok theory) (hparse : Query.parse text = .ok query)
    (bounds : Bounds) (calledOff : Nat → Bool) :
    (∃! p : (Flow × State) × List Copy, RunReturns theory bounds calledOff query p.1 p.2) ∧
    (∀ res log, RunReturns theory bounds calledOff query res log →
      ((∀ n, calledOff n = false) → res = run theory bounds query) ∧
      log.map Copy.number = List.range' 1 res.2.copies ∧
      (∀ e ∈ log, e.clause ∈ theory.clauses.toList ∧ e.Apart query) ∧
      log.Pairwise fun e e' => ∀ x ∈ e.vars, x ∉ e'.vars) ∧
    (∀ x y j k, Term.suffixed x j = Term.suffixed y k → x = y ∧ j = k) ∧
    ∀ x y k, IsParsed x → IsParsed y → x ≠ Term.suffixed y k := by
  have hprogram := (Theory.load_cases hload).1
  have hquery := Query.parse_fromText text query hparse
  have hempty : (∅ : Substitution).WellFormed := Substitution.wellFormed_empty
  refine ⟨existsUnique_returns theory bounds calledOff _ hempty _, fun res log h => ?_,
    fun _ _ _ _ => suffixed_inj, fun x y k hx hy => hx.isSource.ne_suffixed hy.isSource k⟩
  have hlogged : Logged theory log 0 res.2.copies := Returns.logged h
    (.solve (fun g hg x hx => old_of_isSource ((hquery g hg).isSource x hx))
      Substitution.over_empty)
  refine ⟨fun hoff => Returns.eq_run h hoff hempty, ?_, fun e he => ?_, hlogged.pairwise⟩
  · rw [hlogged.numbers, hlogged.total, Nat.zero_add, Nat.zero_add]
  · obtain ⟨k, hfresh⟩ := hlogged.fresh e he
    exact ⟨hfresh.clause, hfresh.apart (hprogram _ hfresh.clause) hquery⟩

/-- Anonymous variables, a negation, and copies of one clause that are made again and again. -/
theorem copies_apart_negation :
    let texts := ["p(X, Y) :- q(X, _), \\+ q(f(X), b), Y = X.", "q(a, c).", "q(f(X), X)."]
    let text := "p(A, _), q(A, _)"
    let theory := (Theory.load texts).toOption.getD .empty
    let query := (Query.parse text).toOption.getD ⟨[]⟩
    let res := run theory {} query
    Theory.load texts = .ok theory ∧ Query.parse text = .ok query ∧ res.2.copies = 11 ∧
    ∃ log, RunReturns theory {} (fun _ => false) query res log ∧ log.length = 11 ∧
      (∀ e ∈ log, e.clause ∈ theory.clauses.toList ∧ e.Apart query) ∧
      log.Pairwise fun e e' => ∀ x ∈ e.vars, x ∉ e'.vars := by
  intro texts text theory query res
  have hload : Theory.load texts = .ok theory := eq_ok_getD (by decide +kernel) _
  have hparse : Query.parse text = .ok query := eq_ok_getD (by decide +kernel) _
  have hcopies : res.2.copies = 11 := by decide +kernel
  obtain ⟨⟨⟨res', log⟩, h, -⟩, hlog, -⟩ := copies_apart hload hparse {} fun _ => false
  obtain ⟨hres, hnumbers, hapart, hpairwise⟩ := hlog res' log h
  obtain rfl : res' = res := hres fun _ => rfl
  have hlength : log.length = 11 := by
    rw [← hcopies, ← List.length_map Copy.number, hnumbers, List.length_range']
  exact ⟨hload, hparse, hcopies, log, h, hlength, hapart, hpairwise⟩

end Search

end OntoLogic
