-- SUMMARY: Unification ends with a most general unifier, or there is none.
import OntoLogic.Proofs.Substitution.Unlimited

/-!
# Most general unifiers

Unification is run on one substitution after another, and a run that fails leaves bindings behind as
well. Whatever has been run before, unification without limits ends, and the limits of the program
are never met: along nested compounds the values of the terms get smaller under the bindings at the
end, whether these are a unifier or the bindings at a failure.
-/

namespace OntoLogic.Substitution

variable {s s' : Substitution} {l r t a : Term} {ls rs : List Term} {x f : String} {n : Nat}
  {b : Bool} {σ : Assignment} {pool : List Term}

/-! ## Moves -/

theorem binds_of_move (h : move l r = .bind x t) : Binds l r x t := by
  unfold move at h
  split at h
  · next y z =>
    split at h
    · cases h
    · next hne =>
      cases h
      exact ⟨by simpa using Ne.symm hne, .inl ⟨rfl, rfl⟩⟩
  · next hr =>
    cases h
    exact ⟨hr _, .inl ⟨rfl, rfl⟩⟩
  · next hl =>
    cases h
    exact ⟨hl _, .inr ⟨rfl, rfl⟩⟩
  · split at h <;> cases h
  · split at h <;> cases h

theorem compounds_of_move (h : move l r = .args ls rs) :
    ∃ f, l = .compound f ls ∧ r = .compound f rs ∧ ls.length = rs.length := by
  unfold move at h
  split at h
  · split at h <;> cases h
  · cases h
  · cases h
  · next f ls g rs =>
    split at h
    · next heq =>
      cases h
      exact ⟨f, rfl, by rw [heq.1], heq.2⟩
    · cases h
  · split at h <;> cases h

/-- A level of unification makes one move. -/
theorem unifyUpTo_move (n : Nat) (s : Substitution) (l r : Term) :
    unifyUpTo (n + 1) s l r = match move (s.walk l) (s.walk r) with
      | .skip => (true, s)
      | .bind x t => s.bind x t
      | .args ls rs => unifyArgs (unifyUpTo n) s ls rs
      | .clash => (false, s) := by
  unfold unifyUpTo
  generalize s.walk l = l', s.walk r = r'
  cases l' <;> cases r' <;> simp only [move]
  all_goals split_ifs <;> simp_all

/-! ## Limits -/

/-- The arguments of the compound that a term leads to have smaller values. -/
theorem rank_lt_of_walk (hσ : σ.Satisfies s) (hs : s.Within pool) (hl : l.subterms ⊆ pool)
    (hwalk : s.walk l = .compound f ls) (ha : a ∈ ls) : rank pool σ a < rank pool σ l := by
  have hvalue : (Term.compound f ls).subst σ = l.subst σ := hwalk ▸ walk_subst hσ l
  have hmem : Term.compound f ls ∈ pool := hwalk ▸ walk_of hl hs (Term.self_mem_subterms _)
  have hlt : rank pool σ a < rank pool σ (.compound f ls) := by
    apply rank_lt_rank hmem
    rw [Term.subst_compound]
    exact Term.size_lt_of_mem_args (List.mem_map_of_mem ha)
  unfold rank at hlt ⊢
  rwa [hvalue] at hlt

/-- A run of unification ends as it does without limits, or fails because it has used up its levels.
Then the rank of a term on the left is as high as the number of levels, under the bindings at the
failure. -/
structure Runs (pool : List Term) (n : Nat) (s : Substitution) (ls rs : List Term) (b : Bool)
    (s' : Substitution) : Prop where
  wellFormed : s'.WellFormed
  within : s'.Within pool
  ends : Unifies s ls rs b s' ∨ b = false ∧ ∃ a ∈ ls, n ≤ rank pool s'.value a

theorem unifyArgs_runs {unify : Substitution → Term → Term → Bool × Substitution}
    (hunify : ∀ l ∈ ls, ∀ r ∈ rs, ∀ s b s', s.WellFormed → s.Within pool →
      unify s l r = (b, s') → Runs pool n s [l] [r] b s')
    (hs : s.WellFormed) (hpool : s.Within pool) (hlen : ls.length = rs.length)
    (h : unifyArgs unify s ls rs = (b, s')) : Runs pool n s ls rs b s' := by
  induction ls generalizing rs s with
  | nil =>
    obtain rfl := List.length_eq_zero_iff.mp hlen.symm
    obtain ⟨rfl, rfl⟩ := Prod.mk.inj h
    exact ⟨hs, hpool, .inl .nil⟩
  | cons l ls ih =>
    obtain ⟨r, rs, rfl⟩ := List.exists_cons_of_length_eq_add_one hlen.symm
    unfold unifyArgs at h
    split at h
    · next s₁ hhead =>
      have head := hunify l List.mem_cons_self r List.mem_cons_self s true s₁ hs hpool hhead
      have htail : ∀ l ∈ ls, ∀ r ∈ rs, ∀ s b s', s.WellFormed → s.Within pool →
          unify s l r = (b, s') → Runs pool n s [l] [r] b s' := fun l hl r hr =>
        hunify l (List.mem_cons_of_mem _ hl) r (List.mem_cons_of_mem _ hr)
      have tail := ih htail head.wellFormed head.within (by simpa using hlen) h
      refine ⟨tail.wellFormed, tail.within, ?_⟩
      obtain hl | ⟨hfalse, -⟩ := head.ends
      · rcases tail.ends with hls | ⟨hb, a, ha, hrank⟩
        · exact .inl (hl.cons hls)
        · exact .inr ⟨hb, a, List.mem_cons_of_mem l ha, hrank⟩
      · cases hfalse
    · next s₁ hhead =>
      have head := hunify l List.mem_cons_self r List.mem_cons_self s false s₁ hs hpool hhead
      obtain ⟨rfl, rfl⟩ := Prod.mk.inj h
      refine ⟨head.wellFormed, head.within, ?_⟩
      rcases head.ends with hl | ⟨hb, a, ha, hrank⟩
      · exact .inl hl.cons_false
      · exact .inr ⟨hb, a, List.mem_cons.mpr (.inl (List.mem_singleton.mp ha)), hrank⟩

theorem unifyUpTo_runs (hs : s.WellFormed) (hpool : s.Within pool) (hl : l.subterms ⊆ pool)
    (hr : r.subterms ⊆ pool) (h : unifyUpTo n s l r = (b, s')) : Runs pool n s [l] [r] b s' := by
  induction n generalizing s l r b s' with
  | zero =>
    obtain ⟨rfl, rfl⟩ := Prod.mk.inj h
    exact ⟨hs, hpool, .inr ⟨rfl, l, List.mem_singleton_self l, Nat.zero_le _⟩⟩
  | succ n ih =>
    have hun := unifyUpTo_unified hs h
    have hmeets := hs.meets l r
    rw [unifyUpTo_move] at h
    cases hmove : move (s.walk l) (s.walk r) with
    | skip =>
      rw [hmove] at h hmeets
      obtain ⟨rfl, rfl⟩ := Prod.mk.inj h
      exact ⟨hs, hpool, .inl (.skip hmeets .nil)⟩
    | bind x t =>
      rw [hmove] at h hmeets
      have hchecks := hs.checks x t
      have ht := (binds_of_move hmove).subterms_subset hpool hl hr
      dsimp only at h
      unfold bind at h
      cases hocc : s.occurs x t with
      | true =>
        rw [if_pos hocc] at h
        obtain ⟨rfl, rfl⟩ := Prod.mk.inj h
        exact ⟨hs, hpool, .inl (.bind_fails hmeets (hocc ▸ hchecks))⟩
      | false =>
        rw [if_neg (by simp [hocc])] at h
        obtain ⟨rfl, rfl⟩ := Prod.mk.inj h
        exact ⟨hun.wellFormed, hpool.insert ht, .inl (.bind hmeets (hocc ▸ hchecks) .nil)⟩
    | args ls rs =>
      rw [hmove] at h hmeets
      obtain ⟨f, hwl, hwr, hlen⟩ := compounds_of_move hmove
      have hls : (Term.compound f ls).subterms ⊆ pool := hwl ▸ walk_of hl hpool
      have hrs : (Term.compound f rs).subterms ⊆ pool := hwr ▸ walk_of hr hpool
      have args : Runs pool n s ls rs b s' := by
        refine unifyArgs_runs (fun a ha c hc s b s' hs hpool h => ?_) hs hpool hlen h
        exact ih hs hpool (List.Subset.trans (Term.subterms_subset_of_mem_args ha) hls)
          (List.Subset.trans (Term.subterms_subset_of_mem_args hc) hrs) h
      refine ⟨args.wellFormed, args.within, ?_⟩
      rcases args.ends with hargs | ⟨hb, a, ha, hrank⟩
      · cases b with
        | true => exact .inl (.args hmeets hargs .nil)
        | false => exact .inl (.args_fail hmeets hargs)
      · have hσ : s'.value.Satisfies s := hun.grows.satisfies args.wellFormed.value_satisfies
        have hlt : rank pool s'.value a < rank pool s'.value l :=
          rank_lt_of_walk hσ hpool hl hwl ha
        exact .inr ⟨hb, l, List.mem_singleton_self l, hrank.trans_lt hlt⟩
    | clash =>
      rw [hmove] at h hmeets
      obtain ⟨rfl, rfl⟩ := Prod.mk.inj h
      exact ⟨hs, hpool, .inl (.clash hmeets)⟩

/-- Unification without limits ends, and the program does what it does. -/
theorem WellFormed.unifies (hs : s.WellFormed) (l r : Term) :
    Unifies s [l] [r] (s.unify l r).1 (s.unify l r).2 := by
  obtain ⟨pool, hlen, hpool⟩ := hs.covered
  let all := l.subterms ++ r.subterms ++ pool
  have hall : s.Within all := fun x t hx =>
    List.Subset.trans (hpool x t hx) (List.subset_append_right _ _)
  have hl : l.subterms ⊆ all :=
    List.Subset.trans (List.subset_append_left _ _) (List.subset_append_left _ _)
  have hr : r.subterms ⊆ all :=
    List.Subset.trans (List.subset_append_right _ _) (List.subset_append_left _ _)
  obtain hends | ⟨-, a, -, hrank⟩ := (unifyUpTo_runs hs hall hl hr (Prod.eta _).symm).ends
  · exact hends
  · have hle := hrank.trans List.countP_le_length
    simp only [all, List.length_append, Term.length_subterms] at hle
    omega

/-! ## Most general unifiers -/

/-- A substitution that runs of unification have left behind, failed ones included. -/
inductive Reachable : Substitution → Prop
  | empty : Reachable ∅
  | unify {s : Substitution} (l r : Term) (h : Reachable s) : Reachable (s.unify l r).2

theorem Reachable.wellFormed (h : s.Reachable) : s.WellFormed := by
  induction h with
  | empty => exact wellFormed_empty
  | unify l r _ ih => exact (unifyUpTo_unified ih rfl).wellFormed

/-- The order of the two terms does not matter for success. -/
theorem WellFormed.unify_comm (hs : s.WellFormed) (h : (s.unify l r).1 = true) :
    (s.unify r l).1 = true := by
  obtain ⟨hs', -, hsat⟩ := unify_true hs (Prod.ext h rfl)
  obtain ⟨hσ, heq⟩ := (hsat _).mp hs'.value_satisfies
  obtain ⟨s'', hunify⟩ := exists_unify hs hσ heq.symm
  rw [hunify]

/-- Unification, as the rules have it, ends, and with what the program gives. A success keeps every
binding, makes the two terms equal, and loses no assignment that satisfies the bindings and makes
the terms equal. After a failure there is no such assignment. So the order of the terms decides
neither. -/
theorem unify_mostGeneral (h : s.Reachable) (l r : Term) :
    (∀ b s', Unifies s [l] [r] b s' ↔ s.unify l r = (b, s')) ∧
    ((s.unify l r).1 = true → (s.unify l r).2.Extends s ∧
      (s.unify l r).2.resolve l = (s.unify l r).2.resolve r ∧
      ∀ σ : Assignment, σ.Satisfies s → l.subst σ = r.subst σ → σ.Satisfies (s.unify l r).2) ∧
    ((s.unify l r).1 = false → ∀ σ : Assignment, σ.Satisfies s → l.subst σ ≠ r.subst σ) ∧
    (s.unify l r).1 = (s.unify r l).1 := by
  have hs := h.wellFormed
  have hends := hs.unifies l r
  refine ⟨fun b s' => ⟨fun hb => ?_, ?_⟩, fun htrue => ?_, fun hfalse σ hσ => ?_, ?_⟩
  · obtain ⟨rfl, rfl⟩ := hends.unique hb
    rfl
  · rintro hunify
    rwa [hunify] at hends
  · obtain ⟨hs', hext, hsat⟩ := unify_true hs (Prod.ext htrue rfl)
    refine ⟨hext, ?_, fun σ hσ heq => (hsat σ).mpr ⟨hσ, heq⟩⟩
    rw [resolve_eq_subst, resolve_eq_subst]
    exact ((hsat _).mp hs'.value_satisfies).2
  · exact unify_false hs hfalse hσ
  · exact Bool.eq_iff_iff.mpr ⟨hs.unify_comm, hs.unify_comm⟩

/-- A run that fails leaves a binding of `X` to `Y`, which the next run goes through. -/
theorem unify_mostGeneral_after_failure :
    let first := (∅ : Substitution).unify (.compound "f" [.var "X", .atom "a"])
      (.compound "f" [.var "Y", .atom "b"])
    let s := first.2
    let l : Term := .compound "g" [.var "X", .var "Z"]
    let r : Term := .compound "g" [.compound "h" [.var "W"], .var "Y"]
    first.1 = false ∧ s.get? "X" = some (.var "Y") ∧ s.Reachable ∧ (s.unify l r).1 = true ∧
    (∀ b s', Unifies s [l] [r] b s' ↔ s.unify l r = (b, s')) ∧
    ((s.unify l r).1 = true → (s.unify l r).2.Extends s ∧
      (s.unify l r).2.resolve l = (s.unify l r).2.resolve r ∧
      ∀ σ : Assignment, σ.Satisfies s → l.subst σ = r.subst σ → σ.Satisfies (s.unify l r).2) ∧
    ((s.unify l r).1 = false → ∀ σ : Assignment, σ.Satisfies s → l.subst σ ≠ r.subst σ) ∧
    (s.unify l r).1 = (s.unify r l).1 := by
  intro first s l r
  have hreach : s.Reachable := .unify _ _ .empty
  exact ⟨by decide +kernel, by decide +kernel, hreach, by decide +kernel,
    unify_mostGeneral hreach l r⟩

end OntoLogic.Substitution
