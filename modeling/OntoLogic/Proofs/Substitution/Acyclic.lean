-- SUMMARY: Bindings are only added, never in a circle, so looking through them always ends.
import Mathlib.Logic.Relation
import OntoLogic.Proofs.Substitution.Mgu

/-!
# Bindings over time

Unification changes a substitution in one way: it binds a variable that has no binding to a term
that does not lead back to it. This is so at each moment of a run, and it makes no difference
whether the run goes on to succeed. So the bindings that have been made stay, and never form a
circle.

Looking through such bindings needs no limit. Following a variable, searching a term and replacing
the variables of a term all end, and give what the functions with their limits give. What is left in
a resolved term has no binding, and resolving it again changes nothing.
-/

namespace OntoLogic.Substitution

variable {s s' m : Substitution} {t u : Term} {ls rs ts us vs : List Term} {x y : String} {b : Bool}

/-! ## Resolving by rules -/

/-- Replacing the bound variables of a list of terms ends, without a limit, and gives another list.
Each term is walked first. -/
inductive Resolves (s : Substitution) : List Term → List Term → Prop
  | nil : Resolves s [] []
  | compound {t : Term} {f : String} {args args' ts us : List Term} :
    s.Walks t (.compound f args) → Resolves s args args' → Resolves s ts us →
    Resolves s (t :: ts) (.compound f args' :: us)
  | plain {t u : Term} {ts us : List Term} : s.Walks t u → (∀ f args, u ≠ .compound f args) →
    Resolves s ts us → Resolves s (t :: ts) (u :: us)

theorem Resolves.unique (h : s.Resolves ts us) (h' : s.Resolves ts vs) : us = vs := by
  induction h generalizing vs with
  | nil =>
    cases h'
    rfl
  | compound ht _ _ ihargs ih =>
    cases h' with
    | compound ht' hargs' h' =>
      cases ht.unique ht'
      rw [ihargs hargs', ih h']
    | plain ht' hne => exact absurd (ht'.unique ht) (hne _ _)
  | plain ht hne _ ih =>
    cases h' with
    | compound ht' => exact absurd (ht.unique ht') (hne _ _)
    | plain ht' _ h' => rw [ht.unique ht', ih h']

theorem Resolves.cons (h : s.Resolves [t] [u]) (h' : s.Resolves ts us) :
    s.Resolves (t :: ts) (u :: us) := by
  cases h with
  | compound ht hargs hnil => exact .compound ht hargs h'
  | plain ht hne hnil => exact .plain ht hne h'

theorem resolves_map {f : Term → Term} (h : ∀ t ∈ ts, s.Resolves [t] [f t]) :
    s.Resolves ts (ts.map f) := by
  induction ts with
  | nil => exact .nil
  | cons t ts ih =>
    obtain ⟨ht, hts⟩ := List.forall_mem_cons.mp h
    exact ht.cons (ih hts)

/-- A term is resolved to its value. -/
theorem WellFormed.resolves_value (h : s.WellFormed) (t : Term) :
    s.Resolves [t] [t.subst s.value] := by
  induction t using h.walk_induct with
  | walk t ih =>
    have hwalks := h.walks t
    rw [← walk_subst h.value_satisfies t]
    cases hwalk : s.walk t with
    | var y =>
      rw [hwalk] at hwalks
      rw [Term.subst_var, value_unbound (h.walk_unbound hwalk)]
      exact .plain hwalks nofun .nil
    | compound f args =>
      rw [hwalk] at hwalks
      rw [Term.subst_compound]
      exact .compound hwalks (resolves_map (ih f args hwalk)) .nil
    | atom | number | string =>
      rw [hwalk] at hwalks
      exact .plain hwalks nofun .nil

/-- Resolving ends. -/
theorem WellFormed.resolves (h : s.WellFormed) (t : Term) : s.Resolves [t] [s.resolve t] := by
  rw [resolve_eq_subst]
  exact h.resolves_value t

/-! ## Resolved terms -/

/-- A variable that is left in a resolved term has no binding. -/
theorem WellFormed.resolve_unbound (h : s.WellFormed) (t : Term) :
    ∀ x ∈ (s.resolve t).occurrences, s.get? x = none := by
  -- one rule after the other, each variable is what some walk leads to
  have hlist {ts us : List Term} (hus : s.Resolves ts us) :
      ∀ u ∈ us, ∀ x ∈ u.occurrences, s.get? x = none := by
    induction hus with
    | nil => nofun
    | @compound t f args args' ts us ht _ _ ihargs ih =>
      refine List.forall_mem_cons.mpr ⟨fun x hx => ?_, ih⟩
      obtain ⟨a, ha, hxa⟩ := List.mem_flatMap.mp (Term.occurrences_compound f args' ▸ hx)
      exact ihargs a ha x hxa
    | @plain t u ts us ht hne _ ih =>
      refine List.forall_mem_cons.mpr ⟨fun x hx => ?_, ih⟩
      obtain rfl := ht.unique (h.walks t)
      cases hwalk : s.walk t with
      | var y =>
        obtain rfl : x = y := by simpa [hwalk] using hx
        exact h.walk_unbound hwalk
      | compound f args => exact absurd hwalk (hne f args)
      | atom | number | string => simp [hwalk] at hx
  exact hlist (h.resolves t) _ List.mem_cons_self

/-- A resolved term has been resolved. -/
theorem WellFormed.resolve_resolve (h : s.WellFormed) (t : Term) :
    s.resolve (s.resolve t) = s.resolve t := by
  calc s.resolve (s.resolve t)
    _ = (s.resolve t).subst s.value := resolve_eq_subst s _
    _ = (s.resolve t).subst .var :=
      Term.subst_congr fun x hx => value_unbound (h.resolve_unbound t x hx)
    _ = s.resolve t := Term.subst_var_self _

/-! ## One binding after another -/

/-- One binding is added: of a variable that has none, to a term that does not lead to it. -/
def AddsBinding (s s' : Substitution) : Prop :=
  ∃ x t, s.get? x = none ∧ x ∉ (s.resolve t).occurrences ∧ s' = s.insert x t

/-- Bindings are added one by one. -/
abbrev Grows : Substitution → Substitution → Prop :=
  Relation.ReflTransGen AddsBinding

theorem AddsBinding.wellFormed (h : AddsBinding s s') (hs : s.WellFormed) : s'.WellFormed := by
  obtain ⟨x, t, hx, hocc, rfl⟩ := h
  exact hs.insert hx hocc

theorem AddsBinding.extends (h : AddsBinding s s') : s'.Extends s := by
  obtain ⟨x, t, hx, -, rfl⟩ := h
  exact extends_insert hx

theorem AddsBinding.size_lt (h : AddsBinding s s') : s.size < s'.size := by
  obtain ⟨x, t, hx, -, rfl⟩ := h
  rw [size_insert hx]
  exact Nat.lt_succ_self _

theorem Grows.wellFormed (h : Grows s s') (hs : s.WellFormed) : s'.WellFormed := by
  induction h with
  | refl => exact hs
  | tail _ hstep ih => exact hstep.wellFormed ih

theorem Grows.extends (h : Grows s s') : s'.Extends s := by
  induction h with
  | refl => exact .refl s
  | tail _ hstep ih => exact hstep.extends.trans ih

theorem Grows.size_le (h : Grows s s') : s.size ≤ s'.size := by
  induction h with
  | refl => exact Nat.le_refl _
  | tail _ hstep ih => exact ih.trans hstep.size_lt.le

theorem Walks.unbound (h : s.Walks t (.var x)) : s.get? x = none := by
  generalize hu : Term.var x = u at h
  induction h with
  | ends hunbound => exact hunbound x hu.symm
  | follows _ _ ih => exact ih hu

/-- A binding that unification makes is one that may be added. -/
theorem Meets.addsBinding {l r : Term} (h : s.Meets l r (.bind x t)) (hs : s.WellFormed)
    (hchecks : s.Checks x [t] false) : AddsBinding s (s.insert x t) := by
  obtain ⟨l', r', hl, hr, hmove⟩ := h
  refine ⟨x, t, ?_, ?_, rfl⟩
  · obtain ⟨-, ⟨rfl, -⟩ | ⟨rfl, -⟩⟩ := binds_of_move hmove
    · exact hl.unbound
    · exact hr.unbound
  · rw [← occurs_iff, ← hchecks.unique (hs.checks x t)]
    exact Bool.false_ne_true

theorem Unifies.grows (h : Unifies s ls rs b s') (hs : s.WellFormed) : Grows s s' := by
  induction h with
  | nil | bind_fails | clash => exact .refl
  | skip _ _ ih | args_fail _ _ ih => exact ih hs
  | bind hmeets hchecks _ ih =>
    have hadds := hmeets.addsBinding hs hchecks
    exact .head hadds (ih (hadds.wellFormed hs))
  | args _ _ _ ihargs ih =>
    have hargs := ihargs hs
    exact hargs.trans (ih (hargs.wellFormed hs))

/-- Unifying two lists of terms passes through a substitution: it is the one at the start, or the
one after some of the bindings have been made. -/
inductive Passes : Substitution → List Term → List Term → Substitution → Prop
  | here {s : Substitution} {ls rs : List Term} : Passes s ls rs s
  | skip {s m : Substitution} {l r : Term} {ls rs : List Term} :
    s.Meets l r .skip → Passes s ls rs m → Passes s (l :: ls) (r :: rs) m
  | bind {s m : Substitution} {l r t : Term} {x : String} {ls rs : List Term} :
    s.Meets l r (.bind x t) → s.Checks x [t] false → Passes (s.insert x t) ls rs m →
    Passes s (l :: ls) (r :: rs) m
  | inside {s m : Substitution} {l r : Term} {ls' rs' ls rs : List Term} :
    s.Meets l r (.args ls' rs') → Passes s ls' rs' m → Passes s (l :: ls) (r :: rs) m
  | after {s s₁ m : Substitution} {l r : Term} {ls' rs' ls rs : List Term} :
    s.Meets l r (.args ls' rs') → Unifies s ls' rs' true s₁ → Passes s₁ ls rs m →
    Passes s (l :: ls) (r :: rs) m

/-- Whatever a run of unification passes through comes from the start by adding bindings. -/
theorem Passes.grows (h : s.Passes ls rs m) (hs : s.WellFormed) : Grows s m := by
  induction h with
  | here => exact .refl
  | skip _ _ ih | inside _ _ ih => exact ih hs
  | bind hmeets hchecks _ ih =>
    have hadds := hmeets.addsBinding hs hchecks
    exact .head hadds (ih (hadds.wellFormed hs))
  | after _ hargs _ ih =>
    have hgrows := hargs.grows hs
    exact hgrows.trans (ih (hgrows.wellFormed hs))

/-- The end comes from whatever a run of unification passes through by adding bindings, whether the
run succeeds or fails. -/
theorem Passes.grows_end (h : s.Passes ls rs m) (hs : s.WellFormed)
    (hend : Unifies s ls rs b s') : Grows m s' := by
  induction h generalizing b s' with
  | here => exact hend.grows hs
  | skip hm _ ih =>
    cases hend with
    | skip _ hend => exact ih hs hend
    | bind hm' | bind_fails hm' | args hm' | args_fail hm' | clash hm' => cases hm.unique hm'
  | bind hm hchecks _ ih =>
    cases hend with
    | bind hm' _ hend =>
      cases hm.unique hm'
      exact ih ((hm.addsBinding hs hchecks).wellFormed hs) hend
    | bind_fails hm' hchecks' =>
      cases hm.unique hm'
      cases hchecks.unique hchecks'
    | skip hm' | args hm' | args_fail hm' | clash hm' => cases hm.unique hm'
  | inside hm _ ih =>
    cases hend with
    | args hm' hargs hend =>
      cases hm.unique hm'
      exact (ih hs hargs).trans (hend.grows ((hargs.grows hs).wellFormed hs))
    | args_fail hm' hargs =>
      cases hm.unique hm'
      exact ih hs hargs
    | skip hm' | bind hm' | bind_fails hm' | clash hm' => cases hm.unique hm'
  | after hm hargs _ ih =>
    cases hend with
    | args hm' hargs' hend =>
      cases hm.unique hm'
      obtain ⟨-, rfl⟩ := hargs.unique hargs'
      exact ih ((hargs.grows hs).wellFormed hs) hend
    | args_fail hm' hargs' =>
      cases hm.unique hm'
      cases (hargs.unique hargs').1
    | skip hm' | bind hm' | bind_fails hm' | clash hm' => cases hm.unique hm'

/-! ## No circles -/

/-- A variable is bound to a term in which another one occurs. -/
def LeadsTo (s : Substitution) (x y : String) : Prop :=
  ∃ t, s.get? x = some t ∧ y ∈ t.occurrences

/-- There is no endless way through the bindings, so looking through them needs no limit. -/
structure LoopFree (s : Substitution) : Prop where
  wellFounded : WellFounded fun y x => s.LeadsTo x y
  walks_iff : ∀ t u, s.Walks t u ↔ u = s.walk t
  resolves_iff : ∀ t u, s.Resolves [t] [u] ↔ u = s.resolve t
  checks_iff : ∀ x t b, s.Checks x [t] b ↔ b = s.occurs x t
  walk_unbound : ∀ t x, s.walk t = .var x → s.get? x = none
  resolve_unbound : ∀ t, ∀ x ∈ (s.resolve t).occurrences, s.get? x = none
  resolve_resolve : ∀ t, s.resolve (s.resolve t) = s.resolve t

theorem WellFormed.wellFounded_leadsTo (h : s.WellFormed) :
    WellFounded fun y x => s.LeadsTo x y := by
  obtain ⟨rank, hrank⟩ := h.acyclic
  refine Subrelation.wf (r := InvImage (· < ·) rank) ?_ (InvImage.wf rank Nat.lt_wfRel.wf)
  rintro y x ⟨t, hx, hy⟩
  exact hrank x t hx y hy

theorem WellFormed.loopFree (h : s.WellFormed) : s.LoopFree where
  wellFounded := h.wellFounded_leadsTo
  walks_iff t u := by
    refine ⟨fun hu => hu.unique (h.walks t), ?_⟩
    rintro rfl
    exact h.walks t
  resolves_iff t u := by
    refine ⟨fun hu => List.singleton_inj.mp (hu.unique (h.resolves t)), ?_⟩
    rintro rfl
    exact h.resolves t
  checks_iff x t b := by
    refine ⟨fun hb => hb.unique (h.checks x t), ?_⟩
    rintro rfl
    exact h.checks x t
  walk_unbound _ _ := h.walk_unbound
  resolve_unbound := h.resolve_unbound
  resolve_resolve := h.resolve_resolve

/-! ## Runs of unification -/

/-- What some runs of unification leave behind, one after another, failed ones included. -/
def unifyAll (s : Substitution) (pairs : List (Term × Term)) : Substitution :=
  pairs.foldl (fun s p => (s.unify p.1 p.2).2) s

theorem WellFormed.grows_unify (h : s.WellFormed) (l r : Term) : Grows s (s.unify l r).2 :=
  (h.unifies l r).grows h

theorem WellFormed.grows_unifyAll (h : s.WellFormed) (pairs : List (Term × Term)) :
    Grows s (s.unifyAll pairs) := by
  induction pairs generalizing s with
  | nil => exact .refl
  | cons p pairs ih =>
    have hfirst := h.grows_unify p.1 p.2
    exact hfirst.trans (ih (hfirst.wellFormed h))

/-- After any runs of unification, failed or not, the bindings have no circle, and looking through
them ends. They stay, and none is lost, when more runs follow. In the middle of a run it is the
same: what the run passes through has no circle, has kept all bindings from before, and all its
bindings are kept up to the end. -/
theorem unifyAll_loopFree (pairs more : List (Term × Term)) (l r : Term) :
    let s := unifyAll ∅ pairs
    s.LoopFree ∧ (s.unifyAll more).Extends s ∧ s.size ≤ (s.unifyAll more).size ∧
    ∀ m, s.Passes [l] [r] m → m.LoopFree ∧ m.Extends s ∧ s.size ≤ m.size ∧
      (s.unify l r).2.Extends m ∧ m.size ≤ (s.unify l r).2.size := by
  intro s
  have hs : s.WellFormed := (wellFormed_empty.grows_unifyAll pairs).wellFormed wellFormed_empty
  have hmore : Grows s (s.unifyAll more) := hs.grows_unifyAll more
  refine ⟨hs.loopFree, hmore.extends, hmore.size_le, fun m hm => ?_⟩
  have hgrows : Grows s m := hm.grows hs
  have hend : Grows m (s.unify l r).2 := hm.grows_end hs (hs.unifies l r)
  exact ⟨(hgrows.wellFormed hs).loopFree, hgrows.extends, hgrows.size_le, hend.extends,
    hend.size_le⟩

theorem walks_compound (f : String) (args : List Term) :
    s.Walks (.compound f args) (.compound f args) :=
  .ends (by simp)

theorem walks_of_unbound (h : s.get? x = none) : s.Walks (.var x) (.var x) :=
  .ends fun _ hx => Term.var.inj hx ▸ h

/-- A run that fails leaves a binding of `X` to `Y`, and the next one passes through a binding of
`Y` that it makes on the way from `X`. -/
theorem unifyAll_loopFree_after_failure :
    let left : Term := .compound "f" [.var "X", .atom "a"]
    let right : Term := .compound "f" [.var "Y", .atom "b"]
    let s := unifyAll ∅ [(left, right)]
    let l : Term := .compound "g" [.var "X", .var "Z"]
    let r : Term := .compound "g" [.compound "h" [.var "W"], .var "Y"]
    let m := s.insert "Y" (.compound "h" [.var "W"])
    ((∅ : Substitution).unify left right).1 = false ∧ s.get? "X" = some (.var "Y") ∧
    s.Passes [l] [r] m ∧ m.LoopFree ∧ m.Extends s ∧ s.size ≤ m.size ∧
    (s.unify l r).2.Extends m ∧ m.size ≤ (s.unify l r).2.size := by
  intro left right s l r m
  have hX : s.get? "X" = some (.var "Y") := by decide +kernel
  have hY : s.get? "Y" = none := by decide +kernel
  have hW : s.get? "W" = none := by decide +kernel
  have hargs : s.Meets l r (.args [.var "X", .var "Z"] [.compound "h" [.var "W"], .var "Y"]) :=
    ⟨l, r, walks_compound _ _, walks_compound _ _, by simp [l, r, move]⟩
  have hbind : s.Meets (.var "X") (.compound "h" [.var "W"])
      (.bind "Y" (.compound "h" [.var "W"])) :=
    ⟨_, _, .follows hX (walks_of_unbound hY), walks_compound _ _, rfl⟩
  have hchecks : s.Checks "Y" [.compound "h" [.var "W"]] false :=
    .next (walks_compound _ _) (by decide)
      (.next (walks_of_unbound hW) (by decide) .nil .nil) .nil
  have hpasses : s.Passes [l] [r] m := .inside hargs (.bind hbind hchecks .here)
  exact ⟨by decide +kernel, hX, hpasses,
    (unifyAll_loopFree [(left, right)] [] l r).2.2.2 m hpasses⟩

end OntoLogic.Substitution
