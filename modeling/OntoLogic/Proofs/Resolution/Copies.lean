-- SUMMARY: Copies of clauses have variables of their own, so values for a copy can be chosen freely.
import OntoLogic.Proofs.Resolution.Node
import OntoLogic.Proofs.Resolution.Soundness
import OntoLogic.Proofs.Syntax.Variables

/-!
# Fresh copies of clauses

Every copy of a clause has a number of its own, and the variables of the copy carry it. So at each
node the goals and the bindings only have variables of copies that have been made. An assignment
that satisfies the bindings can be given any values for the next copy.
-/

namespace OntoLogic.Search

/-- A variable of no copy with a number above `k`. -/
def Old (k : Nat) (x : String) : Prop :=
  ∀ y j, IsSource y → k < j → x ≠ Term.suffixed y j

/-- Two assignments that differ at most in copies with a number above `k`. -/
def AgreeTo (k : Nat) (σ τ : Assignment) : Prop :=
  ∀ x, Old k x → σ x = τ x

variable {theory : Theory} {maxInferences : Nat} {n m : Node} {σ τ θ : Assignment} {j k : Nat}
  {x : String} {l r t : Term} {g : Goal} {c : Clause} {s s' : Substitution} {st st' : State}
  {goals rest : List Goal}

/-! ## Variables of copies -/

theorem Old.mono (h : Old j x) (hjk : j ≤ k) : Old k x :=
  fun y i hy hi => h y i hy (hjk.trans_lt hi)

theorem old_of_isSource (h : IsSource x) : Old k x :=
  fun _ j hy _ => h.ne_suffixed hy j

theorem old_suffixed (x : String) (k : Nat) : Old k (Term.suffixed x k) := by
  rintro y j - hj h
  exact absurd (suffixed_inj h).2 hj.ne

theorem AgreeTo.mono (h : AgreeTo k σ τ) (hjk : j ≤ k) : AgreeTo j σ τ :=
  fun x hx => h x (hx.mono hjk)

theorem AgreeTo.trans {υ : Assignment} (h : AgreeTo k σ τ) (h' : AgreeTo k τ υ) : AgreeTo k σ υ :=
  fun x hx => (h x hx).trans (h' x hx)

theorem AgreeTo.term (h : AgreeTo k σ τ) (ht : ∀ x ∈ t.occurrences, Old k x) :
    t.subst σ = t.subst τ :=
  Term.subst_congr fun x hx => h x (ht x hx)

theorem AgreeTo.goal (h : AgreeTo k σ τ) (hg : ∀ x ∈ g.occurrences, Old k x) :
    g.subst σ = g.subst τ :=
  Goal.subst_congr fun x hx => h x (hg x hx)

/-- The variables of the next copy can be given any values. -/
theorem exists_agreeTo (σ θ : Assignment) (k : Nat) :
    ∃ τ, AgreeTo k σ τ ∧ ∀ y, IsSource y → τ (Term.suffixed y (k + 1)) = θ y := by
  classical
  let τ : Assignment := fun x =>
    if h : ∃ y, IsSource y ∧ x = Term.suffixed y (k + 1) then θ h.choose else σ x
  refine ⟨τ, ?_, ?_⟩
  · intro x hx
    have hnot : ¬∃ y, IsSource y ∧ x = Term.suffixed y (k + 1) := by
      rintro ⟨y, hy, rfl⟩
      exact hx y (k + 1) hy (Nat.lt_succ_self k) rfl
    simp only [τ, hnot, dite_false]
  · intro y hy
    have hcopy : ∃ z, IsSource z ∧ Term.suffixed y (k + 1) = Term.suffixed z (k + 1) := ⟨y, hy, rfl⟩
    simp only [τ, hcopy, dite_true]
    rw [← (suffixed_inj hcopy.choose_spec.2).1]

/-! ## Valid nodes -/

/-- Goals that can be called and whose variables are not those of later copies. -/
def Fits (k : Nat) (g : Goal) : Prop :=
  g.isCallable = true ∧ ∀ x ∈ g.occurrences, Old k x

theorem Fits.mono (h : Fits j g) (hjk : j ≤ k) : Fits k g :=
  h.imp_right fun hold x hx => (hold x hx).mono hjk

theorem fits_of_fromText (h : g.FromText) : Fits k g :=
  ⟨h.isCallable, fun x hx => old_of_isSource (h.isSource x hx)⟩

theorem fits_rename (k : Nat) (h : g.FromText) : Fits k (g.rename k) := by
  refine ⟨g.rename_eq_subst k ▸ Goal.isCallable_subst h.isCallable, ?_⟩
  intro x hx
  obtain ⟨y, -, rfl⟩ := Goal.mem_occurrences_rename.mp hx
  exact old_suffixed y k

/-- What holds at every node of a search: later copies do not matter to its goals and bindings. -/
structure Node.Valid (n : Node) : Prop where
  wellFormed : n.bindings.WellFormed
  goals : ∀ g ∈ n.goals, Fits n.state.copies g
  bindings : ∀ σ τ, AgreeTo n.state.copies σ τ → σ.Satisfies n.bindings → τ.Satisfies n.bindings

theorem Node.valid_start {bounds : Bounds} {query : Query} (h : ∀ g ∈ query.goals, g.FromText) :
    (Node.start bounds query).Valid where
  wellFormed := Substitution.wellFormed_empty
  goals g hg := fits_of_fromText (h g hg)
  bindings _ _ _ _ := Substitution.satisfies_empty

/-- A goal may be left out, and copies may be made. -/
theorem Node.Valid.tail (h : Node.Valid ⟨j, g :: rest, s, st⟩) (hst : st.copies ≤ st'.copies) :
    Node.Valid ⟨k, rest, s, st'⟩ where
  wellFormed := h.wellFormed
  goals g hg := (h.goals g (List.mem_cons_of_mem _ hg)).mono hst
  bindings σ τ hστ := h.bindings σ τ (hστ.mono hst)

/-- An equation of terms may be added. -/
theorem Node.Valid.equate (h : Node.Valid ⟨k, goals, s, st⟩) (hs' : s'.WellFormed)
    (hl : ∀ x ∈ l.occurrences, Old st.copies x) (hr : ∀ x ∈ r.occurrences, Old st.copies x)
    (heq : ∀ σ : Assignment, σ.Satisfies s' ↔ σ.Satisfies s ∧ l.subst σ = r.subst σ) :
    Node.Valid ⟨k, goals, s', st⟩ where
  wellFormed := hs'
  goals := h.goals
  bindings σ τ hστ hσ := by
    obtain ⟨hσ, hlr⟩ := (heq σ).mp hσ
    exact (heq τ).mpr ⟨h.bindings σ τ hστ hσ, by rw [← hστ.term hl, ← hστ.term hr, hlr]⟩

/-- Goals may be added in front. -/
theorem Node.Valid.append (h : Node.Valid ⟨k, rest, s, st⟩)
    (hgoals : ∀ g ∈ goals, Fits st.copies g) : Node.Valid ⟨k, goals ++ rest, s, st⟩ where
  wellFormed := h.wellFormed
  goals := List.forall_mem_append.mpr ⟨hgoals, h.goals⟩
  bindings := h.bindings

/-- The search of a negation starts at a valid node. -/
theorem Node.Valid.asking (h : Node.Valid ⟨j, .not g :: rest, s, st⟩)
    (hst : st.copies ≤ st'.copies) : (Node.asking k g s st').Valid where
  wellFormed := h.wellFormed
  goals := by
    have hnot : Fits st.copies (.not g) := h.goals _ List.mem_cons_self
    exact List.forall_mem_singleton.mpr (hnot.mono hst)
  bindings σ τ hστ := h.bindings σ τ (hστ.mono hst)

/-- The terms of an equation may be unified. -/
theorem Node.Valid.unify (h : Node.Valid ⟨k, .unify l r :: rest, s, st⟩)
    (hunify : s.unify l r = (true, s')) : Node.Valid ⟨j, rest, s', st⟩ := by
  obtain ⟨hs', -, heq⟩ := Substitution.unify_true h.wellFormed hunify
  have hold := (h.goals _ List.mem_cons_self).2
  obtain ⟨hl, hr⟩ := List.forall_mem_append.mp hold
  exact (h.tail (Nat.le_refl _)).equate hs' hl hr heq

/-- The body of the next copy of a clause may take the place of a call. -/
theorem Node.Valid.clause (h : Node.Valid ⟨k, .call t :: rest, s, st⟩) (hc : c.FromText)
    (hst : st.copies ≤ st'.copies)
    (hunify : s.unify (s.resolve t) (c.head.rename st'.copied.copies) = (true, s')) :
    Node.Valid ⟨j, c.body.map (Goal.rename st'.copied.copies) ++ rest, s', st'.copied⟩ := by
  have hs' := (Substitution.unify_true h.wellFormed hunify).1
  have ht := (h.goals _ List.mem_cons_self).2
  have hcopied : st.copies ≤ st'.copied.copies := hst.trans (Nat.le_succ _)
  refine ((h.tail hcopied).equate hs' (fun x hx => ?_) (fun x hx => ?_)
    (Substitution.unify_resolve_true h.wellFormed hunify)).append fun g hg => ?_
  · exact (ht x hx).mono hcopied
  · obtain ⟨y, -, rfl⟩ := Term.mem_occurrences_rename.mp hx
    exact old_suffixed y _
  · obtain ⟨g', hg', rfl⟩ := List.mem_map.mp hg
    exact fits_rename _ (hc.body g' hg')

theorem Next.valid (h : Next theory maxInferences n m)
    (hprogram : ∀ c ∈ theory.clauses.toList, c.FromText) (hn : n.Valid) : m.Valid := by
  have hst := h.copies_le
  cases h with
  | unify hunify => exact hn.unify hunify
  | notUnify | not | truth => exact hn.tail hst
  | clause _ _ _ htries hunify =>
    exact hn.clause (hprogram _ (mem_of_mem_candidates htries.mem)) htries.copies_le hunify

/-! ## Calls -/

/-- A call keeps its predicate under every assignment. -/
theorem Node.Valid.functor? (h : Node.Valid ⟨k, .call t :: rest, s, st⟩) (σ : Assignment) :
    (t.subst σ).functor? = (s.resolve t).functor? := by
  have hcallable : t.functor?.isSome := (h.goals _ List.mem_cons_self).1
  rw [Substitution.resolve_eq_subst, Term.isSome_functor?_subst hcallable,
    Term.isSome_functor?_subst hcallable]

/-- When the value of a call is an instance of the head of a clause, the next copy of the clause
unifies with the call and can be given the values of the instance. -/
theorem Node.Valid.enter (h : Node.Valid ⟨k, .call t :: rest, s, st⟩) (hc : c.FromText)
    (hst : st.copies ≤ st'.copies) (hσ : σ.Satisfies s) (heq : t.subst σ = c.head.subst θ) :
    ∃ s' τ, s.unify (s.resolve t) (c.head.rename st'.copied.copies) = (true, s') ∧
      τ.Satisfies s' ∧ AgreeTo st'.copies σ τ ∧
      (∀ g ∈ rest, g.subst τ = g.subst σ) ∧
      ∀ g ∈ c.body, (g.rename st'.copied.copies).subst τ = g.subst θ := by
  obtain ⟨τ, hστ, hτ⟩ := exists_agreeTo σ θ st'.copies
  have hτs : τ.Satisfies s := h.bindings σ τ (hστ.mono hst) hσ
  have hgoals : ∀ g ∈ Goal.call t :: rest, g.subst σ = g.subst τ := fun g hg =>
    hστ.goal fun x hx => ((h.goals g hg).2 x hx).mono hst
  have hcopy : ∀ {x}, IsSource x → τ (Term.suffixed x st'.copied.copies) = θ x := fun hx => hτ _ hx
  have hhead : t.subst τ = (c.head.rename st'.copied.copies).subst τ := by
    have ht : t.subst σ = t.subst τ := by
      simpa [Goal.subst] using hgoals _ List.mem_cons_self
    rw [← ht, heq, Term.rename_subst]
    exact Term.subst_congr fun x hx => (hcopy (hc.head x hx)).symm
  obtain ⟨s', hunify⟩ := Substitution.exists_unify h.wellFormed hτs
    ((Substitution.resolve_subst hτs t).trans hhead)
  refine ⟨s', τ, hunify, ?_, hστ, ?_, ?_⟩
  · exact (Substitution.unify_resolve_true h.wellFormed hunify τ).mpr ⟨hτs, hhead⟩
  · intro g hg
    exact (hgoals g (List.mem_cons_of_mem _ hg)).symm
  · intro g hg
    rw [Goal.rename_subst]
    exact Goal.subst_congr fun x hx => hcopy ((hc.body g hg).isSource x hx)

end OntoLogic.Search
