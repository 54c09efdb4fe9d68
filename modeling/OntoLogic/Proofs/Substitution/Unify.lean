-- SUMMARY: Unification gives a most general unifier and finds one whenever there is one.
import OntoLogic.Proofs.Substitution.Basic

/-!
# Unification

Unification looks at two walked terms. When one of them is a variable it binds the variable; when
both are compounds of one kind it goes on with their arguments; otherwise the terms have to be
equal. What it adds to the bindings holds under every assignment that makes the two terms equal, and
under every assignment that satisfies the new bindings the terms are equal.

The levels never run out before a unifier is found: the values of the terms under the unifier get
smaller from level to level, and all terms that are met are subterms of the first two or of bound
terms.
-/

namespace OntoLogic.Substitution

variable {s s' : Substitution} {l r t : Term} {ls rs : List Term} {x : String} {n : Nat}
  {σ : Assignment} {b : Bool}

/-! ## One step -/

/-- The variable `x` has to be bound to the term `t` when `l` and `r` are unified. -/
def Binds (l r : Term) (x : String) (t : Term) : Prop :=
  t ≠ .var x ∧ (l = .var x ∧ r = t ∨ r = .var x ∧ l = t)

/-- Terms that are no variables and not both compounds are equal when their values are. -/
theorem eq_of_subst_eq (hl : ∀ x, l ≠ .var x) (hr : ∀ x, r ≠ .var x)
    (hlr : ∀ f ls g rs, l = .compound f ls → r ≠ .compound g rs) (h : l.subst σ = r.subst σ) :
    l = r := by
  cases l with
  | var x => exact absurd rfl (hl x)
  | compound f ls =>
    cases r with
    | var x => exact absurd rfl (hr x)
    | compound g rs => exact absurd rfl (hlr f ls g rs rfl)
    | _ => simp at h
  | _ =>
    cases r with
    | var x => exact absurd rfl (hr x)
    | _ => simp_all

/-- What a level of unification does with the walked terms. -/
theorem unifyUpTo_succ (n : Nat) (s : Substitution) (l r : Term) :
    (s.walk l = s.walk r ∧ unifyUpTo (n + 1) s l r = (true, s)) ∨
    (∃ x t, Binds (s.walk l) (s.walk r) x t ∧ unifyUpTo (n + 1) s l r = s.bind x t) ∨
    (∃ f ls rs, s.walk l = .compound f ls ∧ s.walk r = .compound f rs ∧ ls.length = rs.length ∧
      unifyUpTo (n + 1) s l r = unifyArgs (unifyUpTo n) s ls rs) ∨
    ((∀ σ, (s.walk l).subst σ ≠ (s.walk r).subst σ) ∧ unifyUpTo (n + 1) s l r = (false, s)) := by
  unfold unifyUpTo
  split
  · next x y hl hr =>
    split
    · next heq => exact .inl ⟨by rw [hl, hr, heq], rfl⟩
    · next hne =>
      exact .inr (.inl ⟨x, .var y, ⟨by simpa using Ne.symm hne, .inl ⟨hl, hr⟩⟩, rfl⟩)
  · next x hl hr => exact .inr (.inl ⟨x, _, ⟨fun h => hr x h, .inl ⟨hl, rfl⟩⟩, rfl⟩)
  · next y hr hl => exact .inr (.inl ⟨y, _, ⟨fun h => hl y h, .inr ⟨hr, rfl⟩⟩, rfl⟩)
  · next f ls g rs hl hr =>
    split
    · next h => exact .inr (.inr (.inl ⟨f, ls, rs, hl, h.1 ▸ hr, h.2, rfl⟩))
    · next h =>
      refine .inr (.inr (.inr ⟨fun σ heq => h ?_, rfl⟩))
      simp only [hl, hr, Term.subst_compound, Term.compound.injEq] at heq
      exact ⟨heq.1, by simpa using congrArg List.length heq.2⟩
  · next hl hr _ hlr =>
    by_cases heq : s.walk l = s.walk r
    · exact .inl ⟨heq, by simp [heq]⟩
    · have hne : ∀ σ, (s.walk l).subst σ ≠ (s.walk r).subst σ := fun σ h =>
        heq (eq_of_subst_eq hl hr hlr h)
      exact .inr (.inr (.inr ⟨hne, by simp [heq]⟩))

/-! ## Soundness -/

/-- What unifying two terms leaves behind: bindings that extend the ones before, and after a success
the terms have the same values under these. -/
structure Unified (s : Substitution) (ls rs : List Term) (b : Bool) (s' : Substitution) : Prop where
  wellFormed : s'.WellFormed
  grows : s'.Extends s
  sound : b = true → ∀ σ, Assignment.Satisfies σ s' →
    ls.map (Term.subst σ) = rs.map (Term.subst σ)

/-- An unbound variable may be bound. -/
theorem WellFormed.bind (h : s.WellFormed) (hx : s.get? x = none) (heq : s.bind x t = (b, s')) :
    s'.WellFormed ∧ s'.Extends s ∧ (b = true → s'.get? x = some t) := by
  rcases bind_cases s x t with ⟨-, hbind⟩ | ⟨hocc, hbind⟩
  · obtain ⟨rfl, rfl⟩ := Prod.mk.inj (hbind.symm.trans heq)
    exact ⟨h, .refl s, nofun⟩
  · obtain ⟨rfl, rfl⟩ := Prod.mk.inj (hbind.symm.trans heq)
    exact ⟨h.insert hx hocc, extends_insert hx, fun _ => get?_insert_self⟩

theorem Binds.unbound (h : Binds (s.walk l) (s.walk r) x t) (hs : s.WellFormed) :
    s.get? x = none := by
  rcases h.2 with ⟨hx, -⟩ | ⟨hx, -⟩
  · exact hs.walk_unbound hx
  · exact hs.walk_unbound hx

/-- Binding the variable is making the values equal. -/
theorem Binds.subst_eq_iff (h : Binds (s.walk l) (s.walk r) x t) (hσ : σ.Satisfies s) :
    l.subst σ = r.subst σ ↔ σ x = t.subst σ := by
  rw [← walk_subst hσ l, ← walk_subst hσ r]
  rcases h.2 with ⟨hx, ht⟩ | ⟨hx, ht⟩
  · rw [hx, ht, Term.subst_var]
  · rw [hx, ht, Term.subst_var, eq_comm]

theorem unifyArgs_unified {unify : Substitution → Term → Term → Bool × Substitution}
    (hunify : ∀ s l r b s', s.WellFormed → unify s l r = (b, s') → Unified s [l] [r] b s')
    (hs : s.WellFormed) (hlen : ls.length = rs.length) (h : unifyArgs unify s ls rs = (b, s')) :
    Unified s ls rs b s' := by
  induction ls generalizing rs s with
  | nil =>
    obtain rfl := List.length_eq_zero_iff.mp hlen.symm
    obtain ⟨rfl, rfl⟩ := Prod.mk.inj h
    exact ⟨hs, .refl s, fun _ _ _ => rfl⟩
  | cons l ls ih =>
    obtain ⟨r, rs, rfl⟩ := List.exists_cons_of_length_eq_add_one hlen.symm
    unfold unifyArgs at h
    split at h
    · next s₁ hhead =>
      have head := hunify s l r true s₁ hs hhead
      have tail := ih head.wellFormed (by simpa using hlen) h
      refine ⟨tail.wellFormed, tail.grows.trans head.grows, ?_⟩
      intro hb σ hσ
      have hl := head.sound rfl σ (tail.grows.satisfies hσ)
      simp only [List.map_cons, List.map_nil, List.cons.injEq, and_true] at hl
      rw [List.map_cons, List.map_cons, hl, tail.sound hb σ hσ]
    · next s₁ hhead =>
      have head := hunify s l r false s₁ hs hhead
      obtain ⟨rfl, rfl⟩ := Prod.mk.inj h
      exact ⟨head.wellFormed, head.grows, nofun⟩

theorem unifyUpTo_unified (hs : s.WellFormed) (h : unifyUpTo n s l r = (b, s')) :
    Unified s [l] [r] b s' := by
  induction n generalizing s l r b s' with
  | zero =>
    obtain ⟨rfl, rfl⟩ := Prod.mk.inj h
    exact ⟨hs, .refl s, nofun⟩
  | succ n ih =>
    rcases unifyUpTo_succ n s l r with ⟨heq, hstep⟩ | ⟨x, t, hx, hstep⟩ |
      ⟨f, ls, rs, hl, hr, hlen, hstep⟩ | ⟨-, hstep⟩
    · obtain ⟨rfl, rfl⟩ := Prod.mk.inj (hstep.symm.trans h)
      refine ⟨hs, .refl s, ?_⟩
      intro _ σ hσ
      simp [← walk_subst hσ l, ← walk_subst hσ r, heq]
    · obtain ⟨hwf, hext, hget⟩ := hs.bind (hx.unbound hs) (hstep.symm.trans h)
      refine ⟨hwf, hext, ?_⟩
      intro hb σ hσ
      simpa using (hx.subst_eq_iff (hext.satisfies hσ)).mpr (hσ x t (hget hb))
    · have args := unifyArgs_unified (fun _ _ _ _ _ => ih) hs hlen (hstep.symm.trans h)
      refine ⟨args.wellFormed, args.grows, ?_⟩
      intro hb σ hσ
      have hσ' := args.grows.satisfies hσ
      simp [← walk_subst hσ' l, ← walk_subst hσ' r, hl, hr, args.sound hb σ hσ]
    · obtain ⟨rfl, rfl⟩ := Prod.mk.inj (hstep.symm.trans h)
      exact ⟨hs, .refl s, nofun⟩

/-! ## Completeness -/

/-- A variable that has to be bound is not what the other term resolves to. -/
theorem Binds.resolve_ne (h : Binds (s.walk l) (s.walk r) x t) (hs : s.WellFormed) :
    s.resolve t ≠ .var x := by
  obtain ⟨hne, hlr⟩ := h
  obtain ⟨w, rfl⟩ : ∃ w, s.walk w = t := by
    rcases hlr with ⟨-, ht⟩ | ⟨-, ht⟩
    · exact ⟨r, ht⟩
    · exact ⟨l, ht⟩
  rw [resolve_eq_subst]
  cases hw : s.walk w with
  | var y =>
    rw [Term.subst_var, value_unbound (hs.walk_unbound hw)]
    exact hw ▸ hne
  | _ => simp

/-- The occurs check refuses no binding that an assignment satisfies. -/
theorem Binds.bind_eq (h : Binds (s.walk l) (s.walk r) x t) (hs : s.WellFormed)
    (hσ : σ.Satisfies s) (heq : l.subst σ = r.subst σ) : s.bind x t = (true, s.insert x t) := by
  rcases bind_cases s x t with ⟨hocc, -⟩ | ⟨-, hbind⟩
  · have hlt := Term.size_lt_size_subst (f := σ) hocc (h.resolve_ne hs)
    rw [resolve_subst hσ, (h.subst_eq_iff hσ).mp heq] at hlt
    exact absurd hlt (Nat.lt_irrefl _)
  · exact hbind

theorem Binds.subterms_subset {pool : List Term} (h : Binds (s.walk l) (s.walk r) x t)
    (hs : s.Within pool) (hl : l.subterms ⊆ pool) (hr : r.subterms ⊆ pool) : t.subterms ⊆ pool := by
  rcases h.2 with ⟨-, rfl⟩ | ⟨-, rfl⟩
  · exact walk_of hr hs
  · exact walk_of hl hs

/-- How many terms of a pool are no larger than a term under an assignment. -/
def rank (pool : List Term) (σ : Assignment) (t : Term) : Nat :=
  pool.countP fun u => (u.subst σ).size ≤ (t.subst σ).size

theorem rank_lt_rank {pool : List Term} (ht : t ∈ pool) (h : (l.subst σ).size < (t.subst σ).size) :
    rank pool σ l < rank pool σ t := by
  refine countP_lt_countP (fun u _ hu => ?_) ht (by simp) (by simpa using h)
  simp only [decide_eq_true_eq] at hu ⊢
  omega

/-- Unification succeeds, stays within a pool of terms, and loses no assignment. -/
def Solves (pool : List Term) (σ : Assignment) (result : Bool × Substitution) : Prop :=
  result.1 = true ∧ result.2.WellFormed ∧ result.2.Within pool ∧ σ.Satisfies result.2

theorem unifyArgs_solves {pool : List Term}
    {unify : Substitution → Term → Term → Bool × Substitution} (hs : s.WellFormed)
    (hpool : s.Within pool) (hσ : σ.Satisfies s)
    (hunify : ∀ l ∈ ls, ∀ r ∈ rs, ∀ s, s.WellFormed → s.Within pool → σ.Satisfies s →
      l.subst σ = r.subst σ → Solves pool σ (unify s l r))
    (h : ls.map (Term.subst σ) = rs.map (Term.subst σ)) :
    Solves pool σ (unifyArgs unify s ls rs) := by
  induction ls generalizing rs s with
  | nil =>
    obtain rfl : rs = [] := by simpa using h.symm
    exact ⟨rfl, hs, hpool, hσ⟩
  | cons l ls ih =>
    cases rs with
    | nil => simp at h
    | cons r rs =>
      simp only [List.map_cons, List.cons.injEq] at h
      have head := hunify l List.mem_cons_self r List.mem_cons_self s hs hpool hσ h.1
      unfold unifyArgs
      split
      · next s₁ hhead =>
        obtain ⟨-, hs₁, hpool₁, hσ₁⟩ := hhead ▸ head
        exact ih hs₁ hpool₁ hσ₁ (fun l hl r hr => hunify l (List.mem_cons_of_mem _ hl) r
          (List.mem_cons_of_mem _ hr)) h.2
      · next s₁ hhead => exact absurd (hhead ▸ head).1 (by simp)

theorem unifyUpTo_solves {pool : List Term} (hs : s.WellFormed) (hpool : s.Within pool)
    (hl : l.subterms ⊆ pool) (hr : r.subterms ⊆ pool) (hσ : σ.Satisfies s)
    (h : l.subst σ = r.subst σ) (hn : rank pool σ l < n) :
    Solves pool σ (unifyUpTo n s l r) := by
  induction n generalizing s l r with
  | zero => exact absurd hn (Nat.not_lt_zero _)
  | succ n ih =>
    rcases unifyUpTo_succ n s l r with ⟨-, hstep⟩ | ⟨x, t, hx, hstep⟩ |
      ⟨f, ls, rs, hwl, hwr, -, hstep⟩ | ⟨hne, -⟩
    · rw [hstep]
      exact ⟨rfl, hs, hpool, hσ⟩
    · rw [hstep, hx.bind_eq hs hσ h]
      have hbind := hx.bind_eq hs hσ h
      exact ⟨rfl, (hs.bind (hx.unbound hs) hbind).1,
        hpool.insert (hx.subterms_subset hpool hl hr),
        satisfies_insert hσ ((hx.subst_eq_iff hσ).mp h)⟩
    · rw [hstep]
      have hwl' : (Term.compound f ls).subterms ⊆ pool := hwl ▸ walk_of hl hpool
      have hwr' : (Term.compound f rs).subterms ⊆ pool := hwr ▸ walk_of hr hpool
      have hargs : (Term.compound f ls).subst σ = (Term.compound f rs).subst σ := by
        rw [← hwl, ← hwr, walk_subst hσ, walk_subst hσ, h]
      have hwalk : rank pool σ (.compound f ls) = rank pool σ l := by
        unfold rank
        rw [← hwl, walk_subst hσ]
      refine unifyArgs_solves hs hpool hσ (fun a ha c hc s hs hpool hσ h => ?_)
        (by simpa using hargs)
      refine ih hs hpool (List.Subset.trans (Term.subterms_subset_of_mem_args ha) hwl')
        (List.Subset.trans (Term.subterms_subset_of_mem_args hc) hwr') hσ h ?_
      -- The values of arguments are smaller than the value of the compound.
      have hlt : rank pool σ a < rank pool σ (.compound f ls) := by
        refine rank_lt_rank (hwl' (Term.self_mem_subterms _)) ?_
        rw [Term.subst_compound]
        exact Term.size_lt_of_mem_args (List.mem_map_of_mem ha)
      omega
    · refine absurd ?_ (hne σ)
      rw [walk_subst hσ, walk_subst hσ, h]

/-! ## Most general unifiers -/

/-- The levels that unification starts with are enough. -/
theorem unify_solves (hs : s.WellFormed) (hσ : σ.Satisfies s) (h : l.subst σ = r.subst σ) :
    ∃ pool, Solves pool σ (s.unify l r) := by
  obtain ⟨pool, hlen, hpool⟩ := hs.covered
  refine ⟨l.subterms ++ r.subterms ++ pool, unifyUpTo_solves hs ?_ ?_ ?_ hσ h ?_⟩
  · exact fun x t hx => List.Subset.trans (hpool x t hx) (List.subset_append_right _ _)
  · exact List.Subset.trans (List.subset_append_left _ _) (List.subset_append_left _ _)
  · exact List.Subset.trans (List.subset_append_right _ _) (List.subset_append_left _ _)
  · refine List.countP_le_length.trans_lt ?_
    simp only [List.length_append, Term.length_subterms]
    omega

/-- After a success the assignments are those from before that make the two terms equal. -/
theorem unify_true (hs : s.WellFormed) (h : s.unify l r = (true, s')) :
    s'.WellFormed ∧ s'.Extends s ∧ ∀ σ : Assignment,
      σ.Satisfies s' ↔ σ.Satisfies s ∧ l.subst σ = r.subst σ := by
  have hun := unifyUpTo_unified hs h
  refine ⟨hun.wellFormed, hun.grows, fun σ => ⟨fun hσ => ⟨hun.grows.satisfies hσ, ?_⟩, ?_⟩⟩
  · simpa using hun.sound rfl σ hσ
  · rintro ⟨hσ, heq⟩
    obtain ⟨pool, hsolves⟩ := unify_solves hs hσ heq
    rw [h] at hsolves
    exact hsolves.2.2.2

/-- Unification fails only when no assignment makes the two terms equal. -/
theorem unify_false (hs : s.WellFormed) (h : (s.unify l r).1 = false) (hσ : σ.Satisfies s) :
    l.subst σ ≠ r.subst σ := by
  intro heq
  obtain ⟨pool, htrue, -⟩ := unify_solves hs hσ heq
  exact absurd htrue (by simp [h])

/-- Terms that have the same value under an assignment unify. -/
theorem exists_unify (hs : s.WellFormed) (hσ : σ.Satisfies s) (h : l.subst σ = r.subst σ) :
    ∃ s', s.unify l r = (true, s') := by
  cases hunify : (s.unify l r).1 with
  | true => exact ⟨(s.unify l r).2, Prod.ext hunify rfl⟩
  | false => exact absurd h (unify_false hs hunify hσ)

/-- Resolving a term first makes no difference. -/
theorem unify_resolve_true (hs : s.WellFormed) (h : s.unify (s.resolve l) r = (true, s')) :
    ∀ σ : Assignment, σ.Satisfies s' ↔ σ.Satisfies s ∧ l.subst σ = r.subst σ := by
  intro σ
  rw [(unify_true hs h).2.2 σ]
  exact and_congr_right fun hσ => by rw [resolve_subst hσ]

end OntoLogic.Substitution
