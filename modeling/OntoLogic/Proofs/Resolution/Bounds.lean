-- SUMMARY: What one search finds, a search that no bound cuts short finds too, unless an undecided negation was granted.
import OntoLogic.Proofs.Resolution.Alike
import OntoLogic.Proofs.Resolution.Index

/-!
# Searches under different bounds

Every step of one search can be made from an alike node of an uncut search under other bounds. The
one exception is a negation: it is granted when its search finds nothing, even if that search was
cut short. A negation is decided when its search has met no bound; a decided negation is granted in
the uncut search too, because a proof that is found there could be made in the search that found
none.
-/

namespace OntoLogic

namespace Search

variable {theory : Theory} {maxInferences maxInferences' k : Nat} {names : List String}
  {n n' m : Node} {g : Goal} {rest : List Goal} {s a : Substitution} {st : State}

/-! ## Steps from alike nodes -/

/-- A search makes the steps of another search from alike nodes. For a negation its own search has
to find nothing. -/
theorem Next.simulate (h : Next theory maxInferences n m) (halike : Alike names n n')
    (hprogram : ∀ c ∈ theory.clauses.toList, c.FromText) (hnames : ∀ x ∈ names, IsSource x)
    (hn : n.Valid) (hn' : n'.Valid) (huncut : n'.Uncut theory maxInferences')
    (hnot : ∀ k g rest s st k' g' rest' s' st', n = ⟨k + 1, .not g :: rest, s, st⟩ →
      n' = ⟨k' + 1, .not g' :: rest', s', st'⟩ →
      ((Node.asking k' g' s' st').run theory maxInferences').2.answers = []) :
    ∃ m', Next theory maxInferences' n' m' ∧ Alike names m m' := by
  obtain ⟨k', goals', s', st'⟩ := n'
  have hs := hn.wellFormed
  have hs' : s'.WellFormed := hn'.wellFormed
  cases h with
  | @unify k l r rest s s₁ st hunify =>
    obtain ⟨_, rest', rfl, ⟨l', r'⟩⟩ := halike.covers.exists_head hs
    obtain ⟨k', rfl⟩ := huncut.levels
    obtain ⟨s₁', hunify'⟩ := halike.covers.exists_unify rfl rfl hs hs' hunify
    exact ⟨_, .unify hunify', halike.equate hs hs' hunify hunify'⟩
  | @notUnify k l r rest s st hunify =>
    obtain ⟨_, rest', rfl, ⟨l', r'⟩⟩ := halike.covers.exists_head hs
    obtain ⟨k', rfl⟩ := huncut.levels
    exact ⟨_, .notUnify ((halike.unify_fst rfl rfl hs hs').trans hunify), halike.tail⟩
  | @not k g rest s st inner hinner hempty =>
    obtain ⟨_, rest', rfl, ⟨g'⟩⟩ := halike.covers.exists_head hs
    obtain ⟨k', rfl⟩ := huncut.levels
    exact ⟨_, .not rfl (hnot _ _ _ _ _ _ _ _ _ _ rfl rfl), halike.tail⟩
  | @truth k t key rest s st hkey htrue hst =>
    obtain ⟨_, rest', rfl, ⟨t'⟩⟩ := halike.covers.exists_head hs
    obtain ⟨k', rfl⟩ := huncut.levels
    have hkey' := (halike.covers.functor? hn hn').trans hkey
    exact ⟨_, .truth hkey' htrue (huncut.inferences hkey'), halike.tail⟩
  | @clause k t key rest s s₁ st st₁ c hkey hnone hst htries hunify =>
    obtain ⟨_, rest', rfl, ⟨t'⟩⟩ := halike.covers.exists_head hs
    obtain ⟨k', rfl⟩ := huncut.levels
    have hkey' := (halike.covers.functor? hn hn').trans hkey
    have hc := hprogram c (mem_of_mem_candidates htries.mem)
    obtain ⟨st₁', htries'⟩ := huncut.tries hkey' hnone htries.mem
    have hs₁ := (Substitution.unify_true hs hunify).1
    have hself := Clause.Covers.refl c
    obtain ⟨s₁', -, hunify', -⟩ := halike.covers.enter hs hn' hnames hself hc htries'.copies_le
      hunify hs₁.value_satisfies
    exact ⟨_, .clause hkey' hnone (huncut.inferences hkey') htries' hunify',
      halike.covers.enter_covers hs hn' hnames hself hc htries'.copies_le hunify hunify',
      halike.covered.enter_covers hs' hn hnames hself hc htries.copies_le hunify' hunify⟩

/-! ## Decided negations -/

/-- The state in which no bound has been met. -/
def State.unmarked (st : State) : State :=
  { st with truncated := false }

/-- A step that does not grant a negation whose search met a bound. Bounds that were met before that
search do not count. -/
structure Decided (theory : Theory) (maxInferences : Nat) (n m : Node) : Prop where
  next : Next theory maxInferences n m
  decided : ∀ k g rest s st, n = ⟨k + 1, .not g :: rest, s, st⟩ →
    ((Node.asking k g s st.unmarked).run theory maxInferences).2.truncated = false ∧
    ((Node.asking k g s st.unmarked).run theory maxInferences).2.answers = []

/-- A search that met no bound met none in the search of a negation. -/
theorem asking_truncated
    (h : (Node.run theory maxInferences ⟨k + 1, .not g :: rest, s, st⟩).2.truncated = false) :
    ((Node.asking k g s st).run theory maxInferences).2.truncated = false := by
  generalize hinner : ((Node.asking k g s st).run theory maxInferences).2 = inner
  simp only [Node.run, prove_not hinner] at h
  have hresume : (st.resume inner).truncated = false := by
    split at h
    · exact (prove_follows (k + 1) rest s _).truncated_eq_false h
    · exact h
  exact hresume

/-- In a search that met no bound all negations are decided. -/
theorem Next.decided (h : Next theory maxInferences n m)
    (htruncated : (n.run theory maxInferences).2.truncated = false) :
    Decided theory maxInferences n m := by
  refine ⟨h, ?_⟩
  rintro k g rest s st rfl
  have hst : st.unmarked = st := by
    have hfalse : st.truncated = false := (Node.explored _).follows.truncated_eq_false htruncated
    simp [State.unmarked, ← hfalse]
  rw [hst]
  refine ⟨asking_truncated htruncated, ?_⟩
  cases h with
  | not hinner hempty => exact hinner ▸ hempty

theorem Reaches.decided (h : Reaches (Next theory maxInferences) n a)
    (htruncated : (n.run theory maxInferences).2.truncated = false) :
    Reaches (Decided theory maxInferences) n a := by
  obtain ⟨m, hpath, hm⟩ := h
  refine ⟨m, ?_, hm⟩
  induction hpath using Relation.ReflTransGen.head_induction_on with
  | refl => exact .refl
  | head hstep _ ih =>
    exact .head (hstep.decided htruncated) (ih (hstep.follows.truncated_eq_false htruncated))

theorem Reaches.next (h : Reaches (Decided theory maxInferences) n a) :
    Reaches (Next theory maxInferences) n a := by
  obtain ⟨m, hpath, hm⟩ := h
  exact ⟨m, Relation.ReflTransGen.mono (fun _ _ => Decided.next) _ _ hpath, hm⟩

/-! ## Runs from alike nodes -/

theorem Next.levels_le (h : Next theory maxInferences n m) : m.levels ≤ n.levels := by
  cases h with
  | clause => exact Nat.le_succ _
  | unify | notUnify | not | truth => exact Nat.le_refl _

/-- An uncut search makes every run of another search from an alike node that grants decided
negations only. The induction is on the levels of both searches, since for a negation the searches
change their parts: a proof that is found in the one is a run that the other makes. -/
theorem simulate (hprogram : ∀ c ∈ theory.clauses.toList, c.FromText)
    (hnames : ∀ x ∈ names, IsSource x) (total : Nat) {maxInferences maxInferences' : Nat}
    {n n' m : Node} (htotal : n.levels + n'.levels ≤ total)
    (hpath : Relation.ReflTransGen (Decided theory maxInferences) n m) (halike : Alike names n n')
    (hn : n.Valid) (hn' : n'.Valid) (huncut : n'.Uncut theory maxInferences') :
    ∃ m', Relation.ReflTransGen (Next theory maxInferences') n' m' ∧ Alike names m m' ∧ m.Valid ∧
      m'.Valid := by
  induction total using Nat.strong_induction_on
    generalizing maxInferences maxInferences' n n' m with
  | _ total ih =>
    induction hpath using Relation.ReflTransGen.head_induction_on generalizing n' with
    | refl => exact ⟨n', .refl, halike, hn, hn'⟩
    | @head n n₁ hstep _ ihpath =>
      obtain ⟨n₁', hstep', halike'⟩ := hstep.next.simulate halike hprogram hnames hn hn' huncut (by
        rintro k g rest s st k' g' rest' s' st' rfl rfl
        obtain ⟨htruncated, hanswers⟩ := hstep.decided k g rest s st rfl
        apply List.eq_nil_iff_forall_not_mem.mpr
        intro a ha
        -- An answer there would be one here.
        obtain ⟨leaf, hleaf, hgoals, -⟩ :=
          ((mem_answers_iff rfl).mp ha).decided (asking_truncated huncut.truncated)
        have hinner : Alike names (.asking k' g' s' st') (.asking k g s st.unmarked) :=
          halike.symm.asking
        have hlevels : k' + k < total := by
          have : k + 1 + (k' + 1) ≤ total := htotal
          omega
        obtain ⟨leaf', hleaf', hlike, hvalid, -⟩ :=
          ih (k' + k) hlevels (Nat.le_refl _) hleaf hinner (hn'.asking (Nat.le_refl _))
            (hn.asking (Nat.le_refl _)) (Node.uncut_of_answers_eq_nil htruncated hanswers)
        have hfound :
            Reaches (Next theory maxInferences) (.asking k g s st.unmarked) leaf'.bindings :=
          ⟨leaf', hleaf', hlike.covers.goals_eq_nil hvalid.wellFormed hgoals, rfl⟩
        exact absurd (hanswers ▸ hfound.mem_answers) List.not_mem_nil)
      have htotal' : n₁.levels + n₁'.levels ≤ total :=
        (Nat.add_le_add hstep.next.levels_le hstep'.levels_le).trans htotal
      obtain ⟨m', hpath', hm'⟩ := ihpath htotal' halike' (hstep.next.valid hprogram hn)
        (hstep'.valid hprogram hn') (hstep'.uncut huncut)
      exact ⟨m', .head hstep' hpath', hm'⟩

end Search

/-! ## Solutions -/

namespace Theory

variable {texts : List String} {theory : Theory} {text : String} {query : Query}
  {bounds bounds' : Bounds} {x : Solution}

/-- A solution that a bounded search finds without granting a negation whose search met a bound. -/
def Decides (theory : Theory) (bounds : Bounds) (query : Query) (x : Solution) : Prop :=
  ∃ a, Search.Reaches (Search.Decided theory bounds.maxInferences) (.start bounds query) a ∧
    x = Solution.ofAnswer query.visibleVars a

theorem mem_solutions_iff : x ∈ (theory.solve bounds query).solutions ↔
    ∃ a, Search.Reaches (Search.Next theory bounds.maxInferences) (.start bounds query) a ∧
      x = Solution.ofAnswer query.visibleVars a := by
  show x ∈ (Search.run theory bounds query).2.answers.reverse.map _ ↔ _
  simp only [List.mem_map, List.mem_reverse]
  refine exists_congr fun a => and_congr ?_ eq_comm
  exact Search.mem_answers_iff (n := .start bounds query) rfl

theorem Decides.mem_solutions (h : theory.Decides bounds query x) :
    x ∈ (theory.solve bounds query).solutions := by
  obtain ⟨a, hreach, hx⟩ := h
  exact mem_solutions_iff.mpr ⟨a, hreach.next, hx⟩

/-- A search that no bound cuts short decides all its solutions. -/
theorem decides_of_mem_solutions (huncut : (theory.solve bounds query).truncated = false)
    (h : x ∈ (theory.solve bounds query).solutions) : theory.Decides bounds query x := by
  obtain ⟨a, hreach, hx⟩ := mem_solutions_iff.mp h
  exact ⟨a, hreach.decided (Search.Node.uncut_start huncut).truncated, hx⟩

/-- Without negations every solution is decided. -/
theorem decides_of_withoutNegation (hprogram : ∀ c ∈ theory.clauses.toList, WithoutNegation c.body)
    (hquery : WithoutNegation query.goals) (h : x ∈ (theory.solve bounds query).solutions) :
    theory.Decides bounds query x := by
  obtain ⟨a, ⟨m, hpath, hm⟩, hx⟩ := mem_solutions_iff.mp h
  refine ⟨a, ⟨m, ?_, hm⟩, hx⟩
  have hstart : WithoutNegation (Search.Node.start bounds query).goals := hquery
  generalize Search.Node.start bounds query = n at hpath hstart
  induction hpath using Relation.ReflTransGen.head_induction_on with
  | refl => exact .refl
  | head hstep _ ih =>
    refine .head ⟨hstep, ?_⟩ (ih (hstep.withoutNegation hprogram hstart))
    rintro k g rest s st rfl
    exact absurd (hstart _ List.mem_cons_self) (by simp [Goal.isNegation])

/-- A search that no bound cuts short finds the solutions that are decided under some bounds, and
only these. -/
theorem mem_solutions_iff_decides (hload : load texts = .ok theory)
    (hparse : Query.parse text = .ok query)
    (huncut : (theory.solve bounds' query).truncated = false) :
    x ∈ (theory.solve bounds' query).solutions ↔ ∃ bounds, theory.Decides bounds query x := by
  refine ⟨fun h => ⟨bounds', decides_of_mem_solutions huncut h⟩, ?_⟩
  rintro ⟨bounds, a, ⟨m, hpath, hgoals, rfl⟩, rfl⟩
  have hfrom := Query.parse_fromText text query hparse
  have hnames : ∀ x ∈ query.visibleVars, IsSource x := fun x hx => by
    obtain ⟨-, g, hg, hxg⟩ := Query.mem_visibleVars.mp hx
    exact (hfrom g hg).isSource x hxg
  have hstart : Search.Alike query.visibleVars (.start bounds query) (.start bounds' query) :=
    .refl rfl rfl
  obtain ⟨m', hpath', halike, hm, hm'⟩ :=
    Search.simulate (load_cases hload).1 hnames _ (Nat.le_refl _) hpath hstart
      (Search.Node.valid_start hfrom) (Search.Node.valid_start hfrom)
      (Search.Node.uncut_start huncut)
  refine mem_solutions_iff.mpr ⟨m'.bindings, ⟨m', hpath', ?_, rfl⟩, ?_⟩
  · exact halike.covers.goals_eq_nil hm.wellFormed hgoals
  · exact halike.ofAnswer_eq hm.wellFormed hm'.wellFormed

end Theory

end OntoLogic
