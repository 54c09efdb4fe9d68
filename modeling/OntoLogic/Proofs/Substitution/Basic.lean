-- SUMMARY: Acyclic bindings: walking, resolving and the occurs check reach an end within their limits.
import OntoLogic.Proofs.Term.Basic
import OntoLogic.Substitution

/-!
# Bindings without cycles

Bindings are well formed when no variable is bound to a term that leads back to it. A rank that
falls along every binding says so. The keys whose rank is not above that of a variable then limit
how many bindings can be followed from it, and there are no more of them than bindings.

An assignment gives every variable a term. It satisfies the bindings when each bound variable has
the value of the term it is bound to. Resolving gives the most general such assignment.
-/

namespace OntoLogic

/-- A term for every variable. -/
abbrev Assignment := String → Term

/-- Every bound variable has the value of the term it is bound to. -/
def Assignment.Satisfies (σ : Assignment) (s : Substitution) : Prop :=
  ∀ x t, s.get? x = some t → σ x = t.subst σ

namespace Substitution

variable {s s' : Substitution} {x y : String} {t u : Term} {n m : Nat} {σ : Assignment}

/-! ## Bindings -/

@[simp] theorem get?_empty : (∅ : Substitution).get? x = none :=
  Std.TreeMap.getElem?_emptyc

theorem get?_insert : (s.insert x t).get? y = if x = y then some t else s.get? y := by
  simp [get?, insert, Std.TreeMap.getElem?_insert]

theorem get?_insert_self : (s.insert x t).get? x = some t := by
  simp [get?_insert]

theorem mem_keys : x ∈ s.bindings.keys ↔ (s.get? x).isSome := by
  rw [Std.TreeMap.mem_keys, Std.TreeMap.mem_iff_isSome_getElem?]
  rfl

theorem mem_keys_of_get? (h : s.get? x = some t) : x ∈ s.bindings.keys :=
  mem_keys.mpr (by simp [h])

theorem size_insert (h : s.get? x = none) : (s.insert x t).size = s.size + 1 := by
  have hmem : x ∉ s.bindings := by
    rw [Std.TreeMap.mem_iff_isSome_getElem?]
    exact fun hsome => by simp_all [get?]
  simp [size, insert, Std.TreeMap.size_insert, hmem]

/-- All bindings of one substitution are bindings of another. -/
def Extends (s' s : Substitution) : Prop :=
  ∀ x t, s.get? x = some t → s'.get? x = some t

theorem Extends.refl (s : Substitution) : s.Extends s := fun _ _ h => h

theorem Extends.trans {s'' : Substitution} (h' : s''.Extends s') (h : s'.Extends s) :
    s''.Extends s :=
  fun x t hx => h' x t (h x t hx)

theorem extends_insert (h : s.get? x = none) : (s.insert x t).Extends s := by
  intro y u hy
  rw [get?_insert]
  split
  · next heq => simp_all
  · exact hy

theorem satisfies_empty : σ.Satisfies ∅ := by
  intro x t h
  simp at h

theorem Extends.satisfies (h : s'.Extends s) (hσ : σ.Satisfies s') : σ.Satisfies s :=
  fun x t hx => hσ x t (h x t hx)

theorem satisfies_insert (hσ : σ.Satisfies s) (h : σ x = t.subst σ) :
    σ.Satisfies (s.insert x t) := by
  intro y u hy
  rw [get?_insert] at hy
  split at hy
  · next heq => simp_all
  · exact hσ y u hy

/-- Values may be made more special. -/
theorem satisfies_subst (hσ : σ.Satisfies s) (τ : Assignment) :
    Assignment.Satisfies (fun x => (σ x).subst τ) s := by
  intro x t h
  simp only [hσ x t h, Term.subst_subst]

/-! ## Well-formed bindings -/

/-- A rank that falls from a bound variable to the variables of its term. -/
def Ranked (s : Substitution) (rank : String → Nat) : Prop :=
  ∀ x t, s.get? x = some t → ∀ y ∈ t.occurrences, rank y < rank x

/-- All subterms of bound terms are in a pool of terms. -/
def Within (s : Substitution) (pool : List Term) : Prop :=
  ∀ x t, s.get? x = some t → t.subterms ⊆ pool

theorem Within.insert {pool : List Term} (h : s.Within pool) (ht : t.subterms ⊆ pool) :
    (s.insert x t).Within pool := by
  intro y u hy
  rw [get?_insert] at hy
  split at hy
  · cases hy
    exact ht
  · exact h y u hy

/-- Bindings without cycles whose terms are no larger than the weight says. -/
structure WellFormed (s : Substitution) : Prop where
  acyclic : ∃ rank, s.Ranked rank
  /-- The weight limits the number of subterms of bound terms. -/
  covered : ∃ pool : List Term, pool.length ≤ s.weight ∧ s.Within pool

theorem wellFormed_empty : (∅ : Substitution).WellFormed where
  acyclic := ⟨fun _ => 0, fun x t h => by simp at h⟩
  covered := ⟨[], Nat.zero_le _, fun x t h => by simp at h⟩

/-- A condition that one member meets and that is missing from a stronger one is met more often. -/
theorem countP_lt_countP {α : Type} {p q : α → Bool} {l : List α} {a : α}
    (h : ∀ b ∈ l, p b → q b) (ha : a ∈ l) (hq : q a) (hp : ¬p a) : l.countP p < l.countP q := by
  induction l with
  | nil => cases ha
  | cons b l ih =>
    have htail : ∀ c ∈ l, p c → q c := fun c hc => h c (List.mem_cons_of_mem b hc)
    simp only [List.countP_cons]
    cases ha with
    | head =>
      have := List.countP_mono_left htail
      simp only [hq, hp]
      simp
      omega
    | tail _ ha =>
      have := ih htail ha
      have hb := h b List.mem_cons_self
      split <;> split <;> simp_all
      omega

/-- How many bindings can at most be followed from a variable. -/
def reach (s : Substitution) (rank : String → Nat) (x : String) : Nat :=
  s.bindings.keys.countP fun k => rank k ≤ rank x

theorem reach_le_size (rank : String → Nat) : s.reach rank x ≤ s.size :=
  List.countP_le_length.trans_eq Std.TreeMap.length_keys

theorem reach_pos (rank : String → Nat) (h : s.get? x = some t) : 0 < s.reach rank x :=
  List.countP_pos_iff.mpr ⟨x, mem_keys_of_get? h, by simp⟩

/-- A binding that has been followed is not met again. -/
theorem Ranked.reach_lt {rank : String → Nat} (h : s.Ranked rank) (hx : s.get? x = some t)
    (hy : y ∈ t.occurrences) : s.reach rank y < s.reach rank x := by
  have hlt := h x t hx y hy
  refine countP_lt_countP (fun k _ hk => ?_) (mem_keys_of_get? hx) (by simp) (by simpa using hlt)
  simp only [decide_eq_true_eq] at hk ⊢
  omega

/-! ## Walking -/

/-- A walk has come to its end, or it follows one binding. -/
theorem walkUpTo_succ (s : Substitution) (n : Nat) (t : Term) :
    (s.walkUpTo (n + 1) t = t ∧ ∀ x, t = .var x → s.get? x = none) ∨
    ∃ x u, t = .var x ∧ s.get? x = some u ∧ s.walkUpTo (n + 1) t = s.walkUpTo n u := by
  cases t with
  | var x =>
    cases h : s.get? x with
    | none => exact .inl ⟨by simp [walkUpTo, h], fun y hy => by cases hy; exact h⟩
    | some u => exact .inr ⟨x, u, rfl, h, by simp [walkUpTo, h]⟩
  | _ => exact .inl ⟨rfl, fun y hy => by cases hy⟩

/-- Walking only meets the term itself and bound terms. -/
theorem walkUpTo_of {P : Term → Prop} (ht : P t) (hs : ∀ x u, s.get? x = some u → P u) :
    P (s.walkUpTo n t) := by
  induction n generalizing t with
  | zero => exact ht
  | succ n ih =>
    rcases walkUpTo_succ s n t with ⟨hend, -⟩ | ⟨x, u, -, hu, hnext⟩
    · exact hend.symm ▸ ht
    · exact hnext.symm ▸ ih (hs x u hu)

theorem walk_of {P : Term → Prop} (ht : P t) (hs : ∀ x u, s.get? x = some u → P u) : P (s.walk t) :=
  walkUpTo_of ht hs

theorem walkUpTo_subst (h : σ.Satisfies s) : (s.walkUpTo n t).subst σ = t.subst σ := by
  induction n generalizing t with
  | zero => rfl
  | succ n ih =>
    rcases walkUpTo_succ s n t with ⟨hend, -⟩ | ⟨x, u, rfl, hu, hnext⟩
    · rw [hend]
    · rw [hnext, ih, Term.subst_var, h x u hu]

/-- Walking does not change the value of a term. -/
theorem walk_subst (h : σ.Satisfies s) (t : Term) : (s.walk t).subst σ = t.subst σ :=
  walkUpTo_subst h

theorem Ranked.walkUpTo_unbound {rank : String → Nat} (h : s.Ranked rank)
    (hx : ∀ x ∈ t.occurrences, s.reach rank x ≤ n) (hy : s.walkUpTo n t = .var y) :
    s.get? y = none := by
  induction n generalizing t with
  | zero =>
    obtain rfl : t = .var y := hy
    cases hbound : s.get? y with
    | none => rfl
    | some u =>
      have := reach_pos rank hbound
      have := hx y (by simp)
      omega
  | succ n ih =>
    rcases walkUpTo_succ s n t with ⟨hend, hunbound⟩ | ⟨x, u, rfl, hu, hnext⟩
    · exact hunbound y (hend.symm.trans hy)
    · refine ih (fun z hz => ?_) (hnext.symm.trans hy)
      have := h.reach_lt hu hz
      have := hx x (by simp)
      omega

/-- Walking ends at an unbound variable or at a term that is no variable. -/
theorem WellFormed.walk_unbound (h : s.WellFormed) (hy : s.walk t = .var y) : s.get? y = none := by
  obtain ⟨rank, hrank⟩ := h.acyclic
  exact hrank.walkUpTo_unbound (fun x _ => reach_le_size rank) hy

/-! ## Resolving -/

theorem resolveUpTo_succ (s : Substitution) (n : Nat) (t : Term) :
    s.resolveUpTo (n + 1) t = t.subst fun x => s.resolveUpTo (n + 1) (.var x) := by
  simp [resolveUpTo]

theorem resolveUpTo_unbound (h : ∀ x ∈ t.occurrences, s.get? x = none) :
    s.resolveUpTo n t = t := by
  cases n with
  | zero => rfl
  | succ n =>
    rw [← Term.subst_var_self t, resolveUpTo_succ, Term.subst_subst]
    exact Term.subst_congr fun x hx => by simp [resolveUpTo, h x hx]

/-- Enough steps are as good as more. -/
theorem Ranked.resolveUpTo_eq {rank : String → Nat} (h : s.Ranked rank)
    (hn : ∀ x ∈ t.occurrences, s.reach rank x ≤ n) (hm : ∀ x ∈ t.occurrences, s.reach rank x ≤ m) :
    s.resolveUpTo n t = s.resolveUpTo m t := by
  have hzero : ∀ {k : Nat} {u : Term}, (∀ x ∈ u.occurrences, s.reach rank x ≤ 0) →
      s.resolveUpTo k u = u := by
    intro k u hu
    apply resolveUpTo_unbound
    intro x hx
    cases hbound : s.get? x with
    | none => rfl
    | some v => exact absurd (reach_pos rank hbound) (Nat.not_lt.mpr (hu x hx))
  induction n generalizing t m with
  | zero => rw [hzero hn, hzero hn]
  | succ n ih =>
    cases m with
    | zero => rw [hzero hm, hzero hm]
    | succ m =>
      rw [resolveUpTo_succ s n, resolveUpTo_succ s m]
      apply Term.subst_congr
      intro x hx
      cases hbound : s.get? x with
      | none => simp [resolveUpTo, hbound]
      | some u =>
        simp only [resolveUpTo, Term.subst_var, hbound]
        have hx' : ∀ y ∈ u.occurrences, s.reach rank y < s.reach rank x :=
          fun y hy => h.reach_lt hbound hy
        exact ih (fun y hy => by have := hx' y hy; have := hn x hx; omega)
          (fun y hy => by have := hx' y hy; have := hm x hx; omega)

/-- The resolved value of every variable. -/
def value (s : Substitution) : Assignment := fun x => s.resolve (.var x)

/-- Resolving a term is giving every variable its value. -/
theorem resolve_eq_subst (s : Substitution) (t : Term) : s.resolve t = t.subst s.value := by
  unfold value resolve
  cases s.size with
  | zero => exact (Term.subst_var_self t).symm
  | succ n => exact resolveUpTo_succ s n t

theorem value_unbound (h : s.get? x = none) : s.value x = .var x :=
  resolveUpTo_unbound (by simpa using h)

/-- The values satisfy the bindings. -/
theorem WellFormed.value_satisfies (h : s.WellFormed) : s.value.Satisfies s := by
  obtain ⟨rank, hrank⟩ := h.acyclic
  intro x t hx
  rw [← resolve_eq_subst]
  have hpos := reach_pos rank hx
  have hsize := reach_le_size (s := s) (x := x) rank
  obtain ⟨n, hn⟩ : ∃ n, s.size = n + 1 := ⟨s.size - 1, by omega⟩
  simp only [value, resolve, hn]
  have hreach : ∀ y ∈ t.occurrences, s.reach rank y ≤ n := fun y hy => by
    have := hrank.reach_lt hx hy
    omega
  have hstep : s.resolveUpTo (n + 1) (.var x) = s.resolveUpTo n t := by simp [resolveUpTo, hx]
  rw [hstep]
  exact hrank.resolveUpTo_eq hreach fun y hy => (hreach y hy).trans (Nat.le_succ n)

theorem resolveUpTo_subst (h : σ.Satisfies s) : (s.resolveUpTo n t).subst σ = t.subst σ := by
  induction n generalizing t with
  | zero => rfl
  | succ n ih =>
    rw [resolveUpTo_succ, Term.subst_subst]
    apply Term.subst_congr
    intro x _
    cases hbound : s.get? x with
    | none => simp [resolveUpTo, hbound]
    | some u =>
      simp only [resolveUpTo, Term.subst_var, hbound]
      rw [ih, h x u hbound]

/-- Resolving does not change the value of a term. -/
theorem resolve_subst (h : σ.Satisfies s) (t : Term) : (s.resolve t).subst σ = t.subst σ :=
  resolveUpTo_subst h

/-! ## The occurs check -/

theorem occursUpTo_eq (s : Substitution) (x : String) (n : Nat) (t : Term) :
    s.occursUpTo x n t = (s.resolveUpTo n t).occurrences.contains x := by
  induction n generalizing t with
  | zero => rfl
  | succ n ih =>
    rw [Bool.eq_iff_iff]
    simp only [occursUpTo, List.any_eq_true, List.contains_eq_mem, decide_eq_true_eq]
    rw [resolveUpTo_succ, Term.mem_occurrences_subst]
    refine exists_congr fun y => and_congr_right ?_
    intro _
    cases hbound : s.get? y with
    | none =>
      simp only [resolveUpTo, Term.subst_var, hbound, Term.occurrences_var, List.mem_singleton,
        beq_iff_eq]
      exact eq_comm
    | some u => simp [resolveUpTo, hbound, ih]

/-- The occurs check looks at the resolved term. -/
theorem occurs_iff : s.occurs x t = true ↔ x ∈ (s.resolve t).occurrences := by
  unfold occurs resolve
  simp [occursUpTo_eq]

/-- A binding that passes the occurs check keeps the bindings well formed. -/
theorem WellFormed.insert (h : s.WellFormed) (hx : s.get? x = none)
    (hocc : x ∉ (s.resolve t).occurrences) : (s.insert x t).WellFormed := by
  obtain ⟨⟨rank, hrank⟩, pool, hlen, hpool⟩ := h
  have hvalue := WellFormed.value_satisfies ⟨⟨rank, hrank⟩, pool, hlen, hpool⟩
  -- Variables that lead to `x` are lifted above all variables of `t`.
  let lift := (t.occurrences.map rank).sum + 1
  refine ⟨⟨fun y => if x ∈ (s.value y).occurrences then rank y + lift else rank y, ?_⟩, ?_⟩
  · intro y u hy z hz
    rw [get?_insert] at hy
    split at hy
    · next heq =>
      subst heq
      obtain rfl : t = u := by simpa using hy
      have hz' : x ∉ (s.value z).occurrences := fun hmem => by
        rw [resolve_eq_subst] at hocc
        exact hocc (Term.mem_occurrences_subst.mpr ⟨z, hz, hmem⟩)
      have hle : rank z ≤ (t.occurrences.map rank).sum :=
        List.single_le_sum (fun _ _ => Nat.zero_le _) _ (List.mem_map_of_mem hz)
      simp only [hz', if_false, value_unbound hx, Term.occurrences_var, List.mem_singleton,
        if_true]
      omega
    · have hlt := hrank y u hy z hz
      have hmem : x ∈ (s.value z).occurrences → x ∈ (s.value y).occurrences := fun hmem => by
        rw [hvalue y u hy]
        exact Term.mem_occurrences_subst.mpr ⟨z, hz, hmem⟩
      dsimp only
      split <;> split <;> simp_all
      omega
  · refine ⟨t.subterms ++ pool, ?_, Within.insert ?_ (List.subset_append_left _ _)⟩
    · simp only [List.length_append, Term.length_subterms, Substitution.insert]
      omega
    · intro y u hy
      exact List.Subset.trans (hpool y u hy) (List.subset_append_right _ _)

/-- Binding a variable either fails the occurs check and changes nothing, or adds the binding. -/
theorem bind_cases (s : Substitution) (x : String) (t : Term) :
    (x ∈ (s.resolve t).occurrences ∧ s.bind x t = (false, s)) ∨
    (x ∉ (s.resolve t).occurrences ∧ s.bind x t = (true, s.insert x t)) := by
  unfold bind
  split
  · next h => exact .inl ⟨occurs_iff.mp h, rfl⟩
  · next h => exact .inr ⟨fun hmem => h (occurs_iff.mpr hmem), rfl⟩

end Substitution

end OntoLogic
