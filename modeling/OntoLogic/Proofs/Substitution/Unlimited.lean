-- SUMMARY: Walking, the occurs check and unification by rules, without limits.
import OntoLogic.Proofs.Substitution.Unify

/-!
# Unification without limits

The functions on substitutions take limits with them that only make them end: how many bindings are
followed, how many levels of nesting are entered. The rules below are the same algorithms without
limits. A rule applies only where everything before it has ended, so that there is a derivation
exactly when the algorithm ends, and there is at most one outcome.
-/

namespace OntoLogic.Substitution

variable {s s' s₁ s₂ : Substitution} {l r t u v : Term} {ls rs ts : List Term} {x : String}
  {n : Nat} {b b' : Bool}

/-! ## Walking -/

/-- Following bindings from a term ends at another one. -/
inductive Walks (s : Substitution) : Term → Term → Prop
  | ends {t : Term} : (∀ x, t = .var x → s.get? x = none) → Walks s t t
  | follows {x : String} {t u : Term} : s.get? x = some t → Walks s t u → Walks s (.var x) u

theorem Walks.unique (h : s.Walks t u) (h' : s.Walks t v) : u = v := by
  induction h with
  | ends hunbound =>
    cases h' with
    | ends => rfl
    | follows hx => simp [hunbound _ rfl] at hx
  | follows hx _ ih =>
    cases h' with
    | ends hunbound => simp [hunbound _ rfl] at hx
    | follows hx' h' =>
      obtain rfl := Option.some.inj (hx.symm.trans hx')
      exact ih h'

theorem walks_walkUpTo (h : ∀ y, s.walkUpTo n t = .var y → s.get? y = none) :
    s.Walks t (s.walkUpTo n t) := by
  induction n generalizing t with
  | zero => exact .ends h
  | succ n ih =>
    rcases walkUpTo_succ s n t with ⟨hend, hunbound⟩ | ⟨x, u, rfl, hu, hnext⟩
    · rw [hend]
      exact .ends hunbound
    · rw [hnext] at h ⊢
      exact .follows hu (ih h)

/-- Walking through bindings without cycles ends. -/
theorem WellFormed.walks (h : s.WellFormed) (t : Term) : s.Walks t (s.walk t) :=
  walks_walkUpTo fun _ => h.walk_unbound

/-- What is done with a term may be done with the arguments of what it stands for first. These have
smaller values. -/
theorem WellFormed.walk_induct {motive : Term → Prop} (h : s.WellFormed)
    (walk : ∀ t, (∀ f args, s.walk t = .compound f args → ∀ a ∈ args, motive a) → motive t)
    (t : Term) : motive t := by
  induction hsize : (t.subst s.value).size using Nat.strong_induction_on generalizing t with
  | _ n ih =>
    refine walk t fun f args hwalk a ha => ih _ ?_ a rfl
    rw [← hsize, ← walk_subst h.value_satisfies t, hwalk, Term.subst_compound]
    exact Term.size_lt_of_mem_args (List.mem_map_of_mem ha)

/-! ## The occurs check -/

/-- Looking for a variable in a list of terms ends, and tells whether the variable is found. The
terms are gone through from left to right until it is. -/
inductive Checks (s : Substitution) (x : String) : List Term → Bool → Prop
  | nil : Checks s x [] false
  | found {t : Term} {ts : List Term} : s.Walks t (.var x) → Checks s x (t :: ts) true
  | inside {t u : Term} {ts : List Term} : s.Walks t u → Checks s x u.args true →
    Checks s x (t :: ts) true
  | next {t u : Term} {ts : List Term} {b : Bool} : s.Walks t u → u ≠ .var x →
    Checks s x u.args false → Checks s x ts b → Checks s x (t :: ts) b

theorem Checks.unique (h : s.Checks x ts b) (h' : s.Checks x ts b') : b = b' := by
  induction h generalizing b' with
  | nil =>
    cases h'
    rfl
  | found ht =>
    cases h' with
    | found => rfl
    | inside => rfl
    | next ht' hne => exact absurd (ht'.unique ht) hne
  | inside ht _ ih =>
    cases h' with
    | found => rfl
    | inside => rfl
    | next ht' _ hargs =>
      obtain rfl := ht.unique ht'
      exact absurd (ih hargs) (by simp)
  | next ht hne _ _ ih ihnext =>
    cases h' with
    | found ht' => exact absurd (ht.unique ht') hne
    | inside ht' hargs =>
      obtain rfl := ht.unique ht'
      exact absurd (ih hargs) (by simp)
    | next _ _ _ h' => exact ihnext h'

theorem Checks.cons (h : s.Checks x [t] b) (h' : s.Checks x ts b') :
    s.Checks x (t :: ts) (b || b') := by
  cases h with
  | found ht => exact .found ht
  | inside ht hargs => exact .inside ht hargs
  | next ht hne hargs hnil =>
    cases hnil
    exact .next ht hne hargs h'

theorem checks_any {f : Term → Bool} (h : ∀ t ∈ ts, s.Checks x [t] (f t)) :
    s.Checks x ts (ts.any f) := by
  induction ts with
  | nil => exact .nil
  | cons t ts ih =>
    rw [List.any_cons]
    exact (h t List.mem_cons_self).cons (ih fun u hu => h u (List.mem_cons_of_mem t hu))

/-- Whether the variable is found depends on the value of the term. -/
theorem WellFormed.checks_value (h : s.WellFormed) (x : String) (t : Term) :
    s.Checks x [t] ((t.subst s.value).occurrences.contains x) := by
  induction t using h.walk_induct with
  | walk t ih =>
    have hwalks := h.walks t
    rw [← walk_subst h.value_satisfies t]
    cases hwalk : s.walk t with
    | var y =>
      rw [hwalk] at hwalks
      rw [Term.subst_var, value_unbound (h.walk_unbound hwalk)]
      by_cases hxy : x = y
      · subst hxy
        simpa using Checks.found hwalks
      · simpa [hxy] using Checks.next hwalks (by simpa using Ne.symm hxy) .nil .nil
    | compound f args =>
      rw [hwalk] at hwalks
      have hargs : s.Checks x args
          (args.any fun a => (a.subst s.value).occurrences.contains x) :=
        checks_any (ih f args hwalk)
      have hany : ((Term.compound f args).subst s.value).occurrences.contains x =
          args.any fun a => (a.subst s.value).occurrences.contains x := by
        rw [Bool.eq_iff_iff]
        simp
      rw [hany]
      cases hfound : args.any fun a => (a.subst s.value).occurrences.contains x with
      | true => exact .inside hwalks (hfound ▸ hargs)
      | false => exact .next hwalks (by simp) (hfound ▸ hargs) .nil
    | atom | number | string =>
      rw [hwalk] at hwalks
      simpa using Checks.next (x := x) hwalks (by simp) .nil .nil

/-- The occurs check ends. -/
theorem WellFormed.checks (h : s.WellFormed) (x : String) (t : Term) :
    s.Checks x [t] (s.occurs x t) := by
  have hocc : s.occurs x t = (s.resolve t).occurrences.contains x := occursUpTo_eq s x s.size t
  rw [hocc, resolve_eq_subst]
  exact h.checks_value x t

/-! ## Unification -/

/-- What unification does with two terms that have been walked. -/
inductive Move where
  | skip
  | bind (x : String) (t : Term)
  | args (ls rs : List Term)
  | clash

/-- A variable on the left is bound before one on the right. -/
def move : Term → Term → Move
  | .var x, .var y => if x = y then .skip else .bind x (.var y)
  | .var x, r => .bind x r
  | l, .var y => .bind y l
  | .compound f ls, .compound g rs => if f = g ∧ ls.length = rs.length then .args ls rs else .clash
  | l, r => if l = r then .skip else .clash

/-- The walks from two terms end, and one move is made with what they lead to. -/
def Meets (s : Substitution) (l r : Term) (m : Move) : Prop :=
  ∃ l' r', s.Walks l l' ∧ s.Walks r r' ∧ move l' r' = m

theorem Meets.unique {m m' : Move} (h : s.Meets l r m) (h' : s.Meets l r m') : m = m' := by
  obtain ⟨l₁, r₁, hl₁, hr₁, rfl⟩ := h
  obtain ⟨l₂, r₂, hl₂, hr₂, rfl⟩ := h'
  rw [hl₁.unique hl₂, hr₁.unique hr₂]

theorem WellFormed.meets (h : s.WellFormed) (l r : Term) :
    s.Meets l r (move (s.walk l) (s.walk r)) :=
  ⟨_, _, h.walks l, h.walks r, rfl⟩

/-- Unifying two lists of terms from left to right ends, with success or not. After a failure the
bindings that have been made stay. -/
inductive Unifies : Substitution → List Term → List Term → Bool → Substitution → Prop
  | nil {s : Substitution} : Unifies s [] [] true s
  | skip {s s' : Substitution} {l r : Term} {ls rs : List Term} {b : Bool} :
    s.Meets l r .skip → Unifies s ls rs b s' → Unifies s (l :: ls) (r :: rs) b s'
  | bind {s s' : Substitution} {l r t : Term} {x : String} {ls rs : List Term} {b : Bool} :
    s.Meets l r (.bind x t) → s.Checks x [t] false → Unifies (s.insert x t) ls rs b s' →
    Unifies s (l :: ls) (r :: rs) b s'
  | bind_fails {s : Substitution} {l r t : Term} {x : String} {ls rs : List Term} :
    s.Meets l r (.bind x t) → s.Checks x [t] true → Unifies s (l :: ls) (r :: rs) false s
  | args {s s₁ s' : Substitution} {l r : Term} {ls' rs' ls rs : List Term} {b : Bool} :
    s.Meets l r (.args ls' rs') → Unifies s ls' rs' true s₁ → Unifies s₁ ls rs b s' →
    Unifies s (l :: ls) (r :: rs) b s'
  | args_fail {s s' : Substitution} {l r : Term} {ls' rs' ls rs : List Term} :
    s.Meets l r (.args ls' rs') → Unifies s ls' rs' false s' →
    Unifies s (l :: ls) (r :: rs) false s'
  | clash {s : Substitution} {l r : Term} {ls rs : List Term} :
    s.Meets l r .clash → Unifies s (l :: ls) (r :: rs) false s

/-- Unification without limits ends in one way. -/
theorem Unifies.unique (h : Unifies s ls rs b s₁) (h' : Unifies s ls rs b' s₂) :
    b = b' ∧ s₁ = s₂ := by
  induction h generalizing b' s₂ with
  | nil =>
    cases h'
    exact ⟨rfl, rfl⟩
  | skip hm _ ih =>
    cases h' with
    | skip _ h' => exact ih h'
    | bind hm' | bind_fails hm' | args hm' | args_fail hm' | clash hm' => cases hm.unique hm'
  | bind hm hocc _ ih =>
    cases h' with
    | bind hm' _ h' =>
      cases hm.unique hm'
      exact ih h'
    | bind_fails hm' hocc' =>
      cases hm.unique hm'
      cases hocc.unique hocc'
    | skip hm' | args hm' | args_fail hm' | clash hm' => cases hm.unique hm'
  | bind_fails hm hocc =>
    cases h' with
    | bind hm' hocc' =>
      cases hm.unique hm'
      cases hocc.unique hocc'
    | bind_fails => exact ⟨rfl, rfl⟩
    | skip hm' | args hm' | args_fail hm' | clash hm' => cases hm.unique hm'
  | args hm _ _ ih ihnext =>
    cases h' with
    | args hm' hargs h' =>
      cases hm.unique hm'
      obtain ⟨-, rfl⟩ := ih hargs
      exact ihnext h'
    | args_fail hm' hargs =>
      cases hm.unique hm'
      cases (ih hargs).1
    | skip hm' | bind hm' | bind_fails hm' | clash hm' => cases hm.unique hm'
  | args_fail hm _ ih =>
    cases h' with
    | args hm' hargs =>
      cases hm.unique hm'
      cases (ih hargs).1
    | args_fail hm' hargs =>
      cases hm.unique hm'
      exact ih hargs
    | skip hm' | bind hm' | bind_fails hm' | clash hm' => cases hm.unique hm'
  | clash hm =>
    cases h' with
    | clash => exact ⟨rfl, rfl⟩
    | skip hm' | bind hm' | bind_fails hm' | args hm' | args_fail hm' => cases hm.unique hm'

theorem Unifies.cons (h : Unifies s [l] [r] true s₁) (h' : Unifies s₁ ls rs b s₂) :
    Unifies s (l :: ls) (r :: rs) b s₂ := by
  cases h with
  | skip hm hnil =>
    cases hnil
    exact .skip hm h'
  | bind hm hocc hnil =>
    cases hnil
    exact .bind hm hocc h'
  | args hm hargs hnil =>
    cases hnil
    exact .args hm hargs h'

theorem Unifies.cons_false (h : Unifies s [l] [r] false s₁) :
    Unifies s (l :: ls) (r :: rs) false s₁ := by
  cases h with
  | skip _ hnil | bind _ _ hnil | args _ _ hnil => cases hnil
  | bind_fails hm hocc => exact .bind_fails hm hocc
  | args_fail hm hargs => exact .args_fail hm hargs
  | clash hm => exact .clash hm

end OntoLogic.Substitution
