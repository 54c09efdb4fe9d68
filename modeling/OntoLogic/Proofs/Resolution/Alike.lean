-- SUMMARY: Nodes of two searches whose goals have the same instances, and what both searches find there.
import OntoLogic.Proofs.Resolution.Copies
import OntoLogic.Resolution.Solution

/-!
# Alike nodes

Two nodes, of two searches, are alike when each assignment that satisfies the bindings of one has a
counterpart for the other that gives the goals, and some variables, the same values. The copies of
clauses in the two searches may have different numbers.

At alike nodes the same terms unify and the same predicates are called. The two searches may also
enter different clauses there, as long as the clauses have the same instances.
-/

namespace OntoLogic

/-- Every instance of a clause is an instance of another one. -/
def Clause.Covers (c c' : Clause) : Prop :=
  ∀ θ : Assignment, ∃ θ' : Assignment, c.head.subst θ = c'.head.subst θ' ∧
    c.body.map (Goal.subst θ) = c'.body.map (Goal.subst θ')

theorem Clause.Covers.refl (c : Clause) : c.Covers c :=
  fun θ => ⟨θ, rfl, rfl⟩

/-! ## Forms of goals -/

namespace Goal

inductive SameForm : Goal → Goal → Prop
  | unify {l r : Term} (l' r' : Term) : SameForm (.unify l r) (.unify l' r')
  | notUnify {l r : Term} (l' r' : Term) : SameForm (.notUnify l r) (.notUnify l' r')
  | not {g : Goal} (g' : Goal) : SameForm (.not g) (.not g')
  | call {t : Term} (t' : Term) : SameForm (.call t) (.call t')

theorem sameForm_of_subst {g g' : Goal} {σ σ' : Assignment} (h : g.subst σ = g'.subst σ') :
    g.SameForm g' := by
  cases g <;> cases g' <;> simp [Goal.subst] at h <;> constructor

/-- The terms that a goal compares. -/
def compared? : Goal → Option (Term × Term)
  | .unify l r | .notUnify l r => some (l, r)
  | .not _ | .call _ => none

theorem compared?_subst (g : Goal) (σ : Assignment) :
    (g.subst σ).compared? = g.compared?.map fun terms => (terms.1.subst σ, terms.2.subst σ) := by
  cases g <;> rfl

end Goal

namespace Search

variable {j j' k k' : Nat} {names : List String} {n n' : Node} {σ : Assignment}
  {l l' r r' t t' : Term} {g g' : Goal} {c c' : Clause} {rest rest' : List Goal}
  {s s₁ s' s₁' a a' : Substitution} {st st' u u' : State}

/-! ## Alike nodes -/

/-- Every assignment that satisfies the bindings of a node has a counterpart at another node. -/
def Covers (names : List String) (n n' : Node) : Prop :=
  ∀ σ : Assignment, σ.Satisfies n.bindings → ∃ σ' : Assignment, σ'.Satisfies n'.bindings ∧
    n.goals.map (Goal.subst σ) = n'.goals.map (Goal.subst σ') ∧ ∀ x ∈ names, σ x = σ' x

/-- Two nodes whose goals, and some variables, have the same instances. -/
structure Alike (names : List String) (n n' : Node) : Prop where
  covers : Covers names n n'
  covered : Covers names n' n

theorem Alike.symm (h : Alike names n n') : Alike names n' n :=
  ⟨h.covered, h.covers⟩

theorem Alike.refl (hgoals : n.goals = n'.goals) (hbindings : n.bindings = n'.bindings) :
    Alike names n n' :=
  ⟨fun σ hσ => ⟨σ, hbindings ▸ hσ, by rw [hgoals], fun _ _ => rfl⟩,
    fun σ hσ => ⟨σ, hbindings ▸ hσ, by rw [hgoals], fun _ _ => rfl⟩⟩

/-- A node that is like one with goals has goals, the first of the same form. -/
theorem Covers.exists_head (h : Covers names ⟨k, g :: rest, s, st⟩ n') (hs : s.WellFormed) :
    ∃ g' rest', n'.goals = g' :: rest' ∧ g.SameForm g' := by
  obtain ⟨σ', -, hgoals, -⟩ := h s.value hs.value_satisfies
  cases hn' : n'.goals with
  | nil => simp [hn'] at hgoals
  | cons g' rest' =>
    rw [hn'] at hgoals
    exact ⟨g', rest', rfl, Goal.sameForm_of_subst (List.cons.inj hgoals).1⟩

theorem Covers.goals_eq_nil (h : Covers names n n') (hn : n.bindings.WellFormed)
    (hgoals : n.goals = []) : n'.goals = [] := by
  obtain ⟨σ', -, heq, -⟩ := h n.bindings.value hn.value_satisfies
  simpa [hgoals] using heq.symm

theorem Covers.tail (h : Covers names ⟨k, g :: rest, s, st⟩ ⟨k', g' :: rest', s', st'⟩) :
    Covers names ⟨j, rest, s, u⟩ ⟨j', rest', s', u'⟩ := by
  intro σ hσ
  obtain ⟨σ', hσ', hgoals, hnames⟩ := h σ hσ
  exact ⟨σ', hσ', (List.cons.inj hgoals).2, hnames⟩

theorem Alike.tail (h : Alike names ⟨k, g :: rest, s, st⟩ ⟨k', g' :: rest', s', st'⟩) :
    Alike names ⟨j, rest, s, u⟩ ⟨j', rest', s', u'⟩ :=
  ⟨h.covers.tail, h.covered.tail⟩

theorem Covers.asking
    (h : Covers names ⟨k, .not g :: rest, s, st⟩ ⟨k', .not g' :: rest', s', st'⟩) :
    Covers names (.asking j g s u) (.asking j' g' s' u') := by
  intro σ hσ
  obtain ⟨σ', hσ', hgoals, hnames⟩ := h σ hσ
  have hgoal : g.subst σ = g'.subst σ' := Goal.not.inj (List.cons.inj hgoals).1
  exact ⟨σ', hσ', by simp [Node.asking, hgoal], hnames⟩

/-- The searches of two like negations start at alike nodes. -/
theorem Alike.asking (h : Alike names ⟨k, .not g :: rest, s, st⟩ ⟨k', .not g' :: rest', s', st'⟩) :
    Alike names (.asking j g s u) (.asking j' g' s' u') :=
  ⟨h.covers.asking, h.covered.asking⟩

/-! ## Unification at alike nodes -/

theorem Covers.equate
    (h : Covers names ⟨k, .unify l r :: rest, s, st⟩ ⟨k', .unify l' r' :: rest', s', st'⟩)
    (hs₁ : ∀ σ : Assignment, σ.Satisfies s₁ ↔ σ.Satisfies s ∧ l.subst σ = r.subst σ)
    (hs₁' : ∀ σ : Assignment, σ.Satisfies s₁' ↔ σ.Satisfies s' ∧ l'.subst σ = r'.subst σ) :
    Covers names ⟨j, rest, s₁, u⟩ ⟨j', rest', s₁', u'⟩ := by
  intro σ hσ
  obtain ⟨hσ, heq⟩ := (hs₁ σ).mp hσ
  obtain ⟨σ', hσ', hgoals, hnames⟩ := h σ hσ
  obtain ⟨hgoal, hrest⟩ := List.cons.inj hgoals
  obtain ⟨hl, hr⟩ := Goal.unify.inj hgoal
  exact ⟨σ', (hs₁' σ').mpr ⟨hσ', by rw [← hl, ← hr, heq]⟩, hrest, hnames⟩

/-- Where like terms are unified, the bindings that result are alike. -/
theorem Alike.equate
    (h : Alike names ⟨k, .unify l r :: rest, s, st⟩ ⟨k', .unify l' r' :: rest', s', st'⟩)
    (hs : s.WellFormed) (hs' : s'.WellFormed) (hunify : s.unify l r = (true, s₁))
    (hunify' : s'.unify l' r' = (true, s₁')) :
    Alike names ⟨j, rest, s₁, u⟩ ⟨j', rest', s₁', u'⟩ := by
  have hiff := (Substitution.unify_true hs hunify).2.2
  have hiff' := (Substitution.unify_true hs' hunify').2.2
  exact ⟨h.covers.equate hiff hiff', h.covered.equate hiff' hiff⟩

/-- Terms that unify here unify wherever they have the same instances. -/
theorem exists_unify_of_instances (hs : s.WellFormed) (hs' : s'.WellFormed)
    (h : ∀ σ : Assignment, σ.Satisfies s → ∃ σ' : Assignment, σ'.Satisfies s' ∧
      l.subst σ = l'.subst σ' ∧ r.subst σ = r'.subst σ')
    (hunify : s.unify l r = (true, s₁)) : ∃ s₁', s'.unify l' r' = (true, s₁') := by
  obtain ⟨hs₁, -, hiff⟩ := Substitution.unify_true hs hunify
  obtain ⟨hσ, heq⟩ := (hiff s₁.value).mp hs₁.value_satisfies
  obtain ⟨σ', hσ', hl, hr⟩ := h s₁.value hσ
  exact Substitution.exists_unify hs' hσ' (by rw [← hl, ← hr, heq])

theorem Covers.exists_unify (h : Covers names ⟨k, g :: rest, s, st⟩ ⟨k', g' :: rest', s', st'⟩)
    (hg : g.compared? = some (l, r)) (hg' : g'.compared? = some (l', r')) (hs : s.WellFormed)
    (hs' : s'.WellFormed) (hunify : s.unify l r = (true, s₁)) :
    ∃ s₁', s'.unify l' r' = (true, s₁') := by
  refine exists_unify_of_instances hs hs' ?_ hunify
  intro σ hσ
  obtain ⟨σ', hσ', hgoals, -⟩ := h σ hσ
  have hterms := congrArg Goal.compared? (List.cons.inj hgoals).1
  rw [Goal.compared?_subst, Goal.compared?_subst, hg, hg'] at hterms
  exact ⟨σ', hσ', Prod.mk.inj (Option.some.inj hterms)⟩

theorem unify_fst_eq
    (h : ∀ s₁, s.unify l r = (true, s₁) → ∃ s₁', s'.unify l' r' = (true, s₁'))
    (h' : ∀ s₁', s'.unify l' r' = (true, s₁') → ∃ s₁, s.unify l r = (true, s₁)) :
    (s'.unify l' r').1 = (s.unify l r).1 := by
  rw [Bool.eq_iff_iff]
  constructor
  · intro htrue
    obtain ⟨s₁, hunify⟩ := h' _ (Prod.ext htrue rfl)
    rw [hunify]
  · intro htrue
    obtain ⟨s₁', hunify'⟩ := h _ (Prod.ext htrue rfl)
    rw [hunify']

/-- Terms that are compared at alike nodes unify at both or at neither. -/
theorem Alike.unify_fst (h : Alike names ⟨k, g :: rest, s, st⟩ ⟨k', g' :: rest', s', st'⟩)
    (hg : g.compared? = some (l, r)) (hg' : g'.compared? = some (l', r')) (hs : s.WellFormed)
    (hs' : s'.WellFormed) : (s'.unify l' r').1 = (s.unify l r).1 :=
  unify_fst_eq (fun _ => h.covers.exists_unify hg hg' hs hs')
    fun _ => h.covered.exists_unify hg' hg hs' hs

/-! ## Calls at alike nodes -/

/-- Calls that are alike belong to one predicate. -/
theorem Covers.functor?
    (h : Covers names ⟨k, .call t :: rest, s, st⟩ ⟨k', .call t' :: rest', s', st'⟩)
    (hvalid : Node.Valid ⟨k, .call t :: rest, s, st⟩)
    (hvalid' : Node.Valid ⟨k', .call t' :: rest', s', st'⟩) :
    (s'.resolve t').functor? = (s.resolve t).functor? := by
  obtain ⟨σ', -, hgoals, -⟩ := h s.value hvalid.wellFormed.value_satisfies
  rw [← hvalid'.functor? σ', ← Goal.call.inj (List.cons.inj hgoals).1, hvalid.functor? s.value]

/-- When the head of a clause unifies with a call, the head of a clause that has its instances
unifies with an alike call, whatever the numbers of the two copies. The goals after that have the
same values. -/
theorem Covers.enter (h : Covers names ⟨k, .call t :: rest, s, st⟩ ⟨k', .call t' :: rest', s', st'⟩)
    (hs : s.WellFormed) (hvalid' : Node.Valid ⟨k', .call t' :: rest', s', st'⟩)
    (hnames : ∀ x ∈ names, IsSource x) (hcovers : c.Covers c') (hc' : c'.FromText)
    (hcopies : st'.copies ≤ u'.copies)
    (hunify : s.unify (s.resolve t) (c.head.rename j) = (true, s₁)) (hσ : σ.Satisfies s₁) :
    ∃ (s₁' : Substitution) (τ : Assignment),
      s'.unify (s'.resolve t') (c'.head.rename u'.copied.copies) = (true, s₁') ∧ τ.Satisfies s₁' ∧
      (c.body.map (Goal.rename j) ++ rest).map (Goal.subst σ) =
        (c'.body.map (Goal.rename u'.copied.copies) ++ rest').map (Goal.subst τ) ∧
      ∀ x ∈ names, σ x = τ x := by
  obtain ⟨hσ, heq⟩ := (Substitution.unify_resolve_true hs hunify σ).mp hσ
  obtain ⟨σ', hσ', hgoals, hkept⟩ := h σ hσ
  obtain ⟨hgoal, hrest⟩ := List.cons.inj hgoals
  have ht : t.subst σ = t'.subst σ' := Goal.call.inj hgoal
  obtain ⟨θ', hhead, hbody⟩ := hcovers fun x => σ (Term.suffixed x j)
  rw [ht, Term.rename_subst, hhead] at heq
  obtain ⟨s₁', τ, hunify', hτ, hagree, hrest', hbody'⟩ := hvalid'.enter hc' hcopies hσ' heq
  refine ⟨s₁', τ, hunify', hτ, ?_, ?_⟩
  · rw [List.map_append, List.map_append, List.map_map, List.map_map]
    congr 1
    · calc c.body.map (Goal.subst σ ∘ Goal.rename j)
        _ = c.body.map (Goal.subst fun x => σ (Term.suffixed x j)) :=
          List.map_congr_left fun g _ => Goal.rename_subst j g
        _ = c'.body.map (Goal.subst θ') := hbody
        _ = c'.body.map (Goal.subst τ ∘ Goal.rename u'.copied.copies) :=
          List.map_congr_left fun g hg => (hbody' g hg).symm
    · rw [hrest]
      exact List.map_congr_left fun g hg => (hrest' g hg).symm
  · intro x hx
    exact (hkept x hx).trans (hagree x (old_of_isSource (hnames x hx)))

theorem Covers.enter_covers
    (h : Covers names ⟨k, .call t :: rest, s, st⟩ ⟨k', .call t' :: rest', s', st'⟩)
    (hs : s.WellFormed) (hvalid' : Node.Valid ⟨k', .call t' :: rest', s', st'⟩)
    (hnames : ∀ x ∈ names, IsSource x) (hcovers : c.Covers c') (hc' : c'.FromText)
    (hcopies : st'.copies ≤ u'.copies)
    (hunify : s.unify (s.resolve t) (c.head.rename u.copied.copies) = (true, s₁))
    (hunify' : s'.unify (s'.resolve t') (c'.head.rename u'.copied.copies) = (true, s₁')) :
    Covers names ⟨j, c.body.map (Goal.rename u.copied.copies) ++ rest, s₁, u.copied⟩
      ⟨j', c'.body.map (Goal.rename u'.copied.copies) ++ rest', s₁', u'.copied⟩ := by
  intro σ hσ
  obtain ⟨s₂', τ, hunify₂, hτ, hgoals, hkept⟩ :=
    h.enter hs hvalid' hnames hcovers hc' hcopies hunify hσ
  obtain ⟨-, rfl⟩ := Prod.mk.inj (hunify'.symm.trans hunify₂)
  exact ⟨τ, hτ, hgoals, hkept⟩

/-! ## Values -/

/-- Terms with the same instances under two substitutions have values that are written alike. -/
theorem anonymize_resolve_eq (ha : a.WellFormed) (ha' : a'.WellFormed)
    (h : ∀ σ : Assignment, σ.Satisfies a → ∃ σ' : Assignment, σ'.Satisfies a' ∧
      t.subst σ = t'.subst σ')
    (h' : ∀ σ : Assignment, σ.Satisfies a' → ∃ σ' : Assignment, σ'.Satisfies a ∧
      t'.subst σ = t.subst σ') :
    (a.resolve t).anonymize = (a'.resolve t').anonymize := by
  obtain ⟨σ', hσ', ht⟩ := h a.value ha.value_satisfies
  obtain ⟨σ, hσ, ht'⟩ := h' a'.value ha'.value_satisfies
  refine (Term.anonymize_eq (f := σ') (g := σ) ?_ ?_).symm
  · rw [Substitution.resolve_subst hσ', ← ht, Substitution.resolve_eq_subst]
  · rw [Substitution.resolve_subst hσ, ← ht', Substitution.resolve_eq_subst]

theorem Alike.ofAnswer_eq (h : Alike names n n') (hn : n.bindings.WellFormed)
    (hn' : n'.bindings.WellFormed) :
    Solution.ofAnswer names n.bindings = Solution.ofAnswer names n'.bindings := by
  have hvalues : ∀ {n n' : Node}, Covers names n n' → ∀ x ∈ names, ∀ σ : Assignment,
      σ.Satisfies n.bindings → ∃ σ' : Assignment, σ'.Satisfies n'.bindings ∧
        (Term.var x).subst σ = (Term.var x).subst σ' := by
    intro n n' hcovers x hx σ hσ
    obtain ⟨σ', hσ', -, hkept⟩ := hcovers σ hσ
    exact ⟨σ', hσ', hkept x hx⟩
  unfold Solution.ofAnswer
  congr 1
  apply List.map_congr_left
  intro x hx
  rw [anonymize_resolve_eq hn hn' (hvalues h.covers x hx) (hvalues h.covered x hx)]

end Search

end OntoLogic
