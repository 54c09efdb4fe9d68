-- SUMMARY: Laws of terms and goals: induction, substitution, variables, size, subterms, copies.
import Mathlib.Algebra.GroupWithZero.Nat
import Mathlib.Algebra.Order.BigOperators.Group.List
import Mathlib.Algebra.Order.Group.Nat
import Mathlib.Tactic.Common
import OntoLogic.Clause

/-!
# Laws of terms

The functions on lists of terms are the ones on terms, applied to each; proofs go by an induction
that has one case for a compound and all its arguments.
-/

namespace OntoLogic

namespace Term

/-! ## Induction -/

/-- Induction on a term with one hypothesis for all arguments of a compound. -/
@[elab_as_elim, induction_eliminator]
theorem induct {motive : Term → Prop} (atom : ∀ name, motive (.atom name))
    (var : ∀ name, motive (.var name)) (number : ∀ spelling, motive (.number spelling))
    (string : ∀ text, motive (.string text))
    (compound : ∀ name args, (∀ a ∈ args, motive a) → motive (.compound name args))
    (t : Term) : motive t := by
  refine @Term.rec motive (fun args => ∀ a ∈ args, motive a) atom var number string compound
    (fun a h => nomatch h) (fun t ts ht hts a h => ?_) t
  cases h with
  | head => exact ht
  | tail _ h => exact hts a h

/-! ## Functions on compounds -/

variable {f g : String → Term} {t : Term} {x : String}

theorem occurrencesList_eq (ts : List Term) : occurrencesList ts = ts.flatMap occurrences := by
  induction ts with
  | nil => rfl
  | cons t ts ih => simp [occurrencesList, ih]

theorem sizeList_eq (ts : List Term) : sizeList ts = (ts.map size).sum := by
  induction ts with
  | nil => rfl
  | cons t ts ih => simp [sizeList, ih]

theorem substList_eq (f : String → Term) (ts : List Term) : substList f ts = ts.map (subst f) := by
  induction ts with
  | nil => rfl
  | cons t ts ih => simp [substList, ih]

@[simp] theorem occurrences_atom (name : String) : (atom name).occurrences = [] := rfl
@[simp] theorem occurrences_var (name : String) : (var name).occurrences = [name] := rfl
@[simp] theorem occurrences_number (n : String) : (number n).occurrences = [] := rfl
@[simp] theorem occurrences_string (s : String) : (string s).occurrences = [] := rfl

@[simp] theorem occurrences_compound (name : String) (args : List Term) :
    (compound name args).occurrences = args.flatMap occurrences :=
  occurrencesList_eq args

theorem occurrences_list (items : List Term) (tail : Term) :
    (list items tail).occurrences = items.flatMap occurrences ++ tail.occurrences := by
  induction items with
  | nil => rfl
  | cons item items ih => simpa [list] using ih

@[simp] theorem size_compound (name : String) (args : List Term) :
    (compound name args).size = (args.map size).sum + 1 := by
  simp [size, sizeList_eq]

@[simp] theorem subst_atom (name : String) : (atom name).subst f = .atom name := rfl
@[simp] theorem subst_var (name : String) : (var name).subst f = f name := rfl
@[simp] theorem subst_number (n : String) : (number n).subst f = .number n := rfl
@[simp] theorem subst_string (s : String) : (string s).subst f = .string s := rfl

@[simp] theorem subst_compound (name : String) (args : List Term) :
    (compound name args).subst f = .compound name (args.map (subst f)) := by
  simp [subst, substList_eq]

/-! ## Substitution -/

/-- Only the variables of a term matter for a substitution. -/
theorem subst_congr (h : ∀ x ∈ t.occurrences, f x = g x) : t.subst f = t.subst g := by
  induction t with
  | compound name args ih =>
    simp only [subst_compound]
    congr 1
    refine List.map_congr_left fun a ha => ih a ha fun x hx => h x ?_
    simpa using ⟨a, ha, hx⟩
  | var name => exact h name (by simp)
  | _ => rfl

theorem subst_subst (t : Term) : (t.subst f).subst g = t.subst fun x => (f x).subst g := by
  induction t with
  | compound name args ih =>
    simp only [subst_compound, List.map_map]
    congr 1
    exact List.map_congr_left ih
  | _ => rfl

@[simp] theorem subst_var_self (t : Term) : t.subst .var = t := by
  induction t with
  | compound name args ih =>
    rw [subst_compound, List.map_congr_left ih, List.map_id']
  | _ => rfl

theorem occurrences_subst (t : Term) :
    (t.subst f).occurrences = t.occurrences.flatMap fun x => (f x).occurrences := by
  induction t with
  | compound name args ih =>
    simp only [subst_compound, occurrences_compound, List.flatMap_map, List.flatMap_assoc]
    exact List.flatMap_congr ih
  | var name => simp
  | _ => rfl

theorem mem_occurrences_subst {y : String} :
    y ∈ (t.subst f).occurrences ↔ ∃ x ∈ t.occurrences, y ∈ (f x).occurrences := by
  simp [occurrences_subst]

theorem functor?_subst {key : String × Nat} (h : t.functor? = some key) :
    (t.subst f).functor? = some key := by
  cases t <;> simp_all [functor?]

theorem isSome_functor?_subst (h : t.functor?.isSome) : (t.subst f).functor? = t.functor? := by
  obtain ⟨key, hkey⟩ := Option.isSome_iff_exists.mp h
  rw [hkey, functor?_subst hkey]

/-! ## Size -/

theorem size_lt_of_mem_args {name : String} {args : List Term} {a : Term} (h : a ∈ args) :
    a.size < (compound name args).size := by
  have := List.single_le_sum (fun _ _ => Nat.zero_le _) a.size (List.mem_map_of_mem h)
  simp only [size_compound]
  omega

/-- The value of a variable is part of the value of a term in which it occurs. -/
theorem size_le_size_subst (h : x ∈ t.occurrences) : (f x).size ≤ (t.subst f).size := by
  induction t with
  | compound name args ih =>
    obtain ⟨a, ha, hx⟩ := List.mem_flatMap.mp (occurrences_compound name args ▸ h)
    have hlt : (a.subst f).size < ((compound name args).subst f).size := by
      rw [subst_compound]
      exact size_lt_of_mem_args (List.mem_map_of_mem ha)
    exact (ih a ha hx).trans hlt.le
  | var name => simp_all
  | _ => simp at h

/-- It is a proper part unless the term is the variable. -/
theorem size_lt_size_subst (h : x ∈ t.occurrences) (hne : t ≠ .var x) :
    (f x).size < (t.subst f).size := by
  cases t with
  | compound name args =>
    obtain ⟨a, ha, hx⟩ := List.mem_flatMap.mp (occurrences_compound name args ▸ h)
    refine (size_le_size_subst hx).trans_lt ?_
    rw [subst_compound]
    exact size_lt_of_mem_args (List.mem_map_of_mem ha)
  | var name => simp_all
  | _ => simp at h

/-! ## Subterms -/

mutual

/-- The subterms of a term, the term itself first. -/
def subterms : Term → List Term
  | .compound name args => .compound name args :: subtermsList args
  | .atom name => [.atom name]
  | .var name => [.var name]
  | .number spelling => [.number spelling]
  | .string text => [.string text]

def subtermsList : List Term → List Term
  | [] => []
  | t :: ts => subterms t ++ subtermsList ts

end

theorem subtermsList_eq (ts : List Term) : subtermsList ts = ts.flatMap subterms := by
  induction ts with
  | nil => rfl
  | cons t ts ih => simp [subtermsList, ih]

theorem self_mem_subterms (t : Term) : t ∈ t.subterms := by
  cases t <;> simp [subterms]

theorem subterms_subset_of_mem_args {name : String} {args : List Term} {a : Term} (h : a ∈ args) :
    a.subterms ⊆ (compound name args).subterms := by
  intro u hu
  simp only [subterms, subtermsList_eq, List.mem_cons, List.mem_flatMap]
  exact .inr ⟨a, h, hu⟩

/-- A term has as many subterms as constructors. -/
theorem length_subterms (t : Term) : t.subterms.length = t.size := by
  induction t with
  | compound name args ih =>
    simp only [subterms, subtermsList_eq, size_compound, List.length_cons, List.length_flatMap]
    rw [List.map_congr_left ih]
  | _ => rfl

/-! ## Variants -/

/-- A substitution that leaves a term as it is leaves its variables as they are. -/
theorem subst_eq_self (h : t.subst f = t) : ∀ x ∈ t.occurrences, f x = .var x := by
  induction t with
  | compound name args ih =>
    simp only [subst_compound, compound.injEq, true_and] at h
    have hargs : ∀ a ∈ args, a.subst f = a :=
      List.map_inj_left.mp (h.trans (List.map_id args).symm)
    intro x hx
    obtain ⟨a, ha, hxa⟩ := List.mem_flatMap.mp (occurrences_compound name args ▸ hx)
    exact ih a ha (hargs a ha) x hxa
  | var name => simpa using h
  | _ => simp

/-- Two terms that are instances of each other differ in the names of variables only. -/
theorem anonymize_eq {u : Term} (h : t.subst f = u) (h' : u.subst g = t) :
    t.anonymize = u.anonymize := by
  subst h
  have hself : t.subst (fun x => (f x).subst g) = t := (subst_subst t).symm.trans h'
  unfold anonymize
  rw [subst_subst]
  apply subst_congr
  intro x hx
  have hvar : (f x).subst g = .var x := subst_eq_self hself x hx
  cases hfx : f x with
  | var y => rfl
  | _ => simp [hfx] at hvar

/-! ## Copies -/

/-- The value of a copy is a value of the term itself. -/
theorem rename_subst (k : Nat) (t : Term) :
    (t.rename k).subst f = t.subst fun x => f (suffixed x k) :=
  subst_subst t

theorem mem_occurrences_rename {k : Nat} {y : String} :
    y ∈ (t.rename k).occurrences ↔ ∃ x ∈ t.occurrences, y = suffixed x k := by
  simp [rename, mem_occurrences_subst]

end Term

/-! ## Goals -/

namespace Goal

variable {f f' : String → Term} {g : Goal}

theorem subst_congr (h : ∀ x ∈ g.occurrences, f x = f' x) : g.subst f = g.subst f' := by
  induction g with
  | call t => simp only [subst, Term.subst_congr h]
  | not g ih => simp only [subst, ih h]
  | unify l r | notUnify l r =>
    simp only [occurrences, List.mem_append] at h
    simp only [subst, Term.subst_congr fun x hx => h x (.inl hx),
      Term.subst_congr fun x hx => h x (.inr hx)]

theorem subst_subst (g : Goal) : (g.subst f).subst f' = g.subst fun x => (f x).subst f' := by
  induction g with
  | not g ih => simp only [subst, ih]
  | _ => simp only [subst, Term.subst_subst]

@[simp] theorem subst_var_self (g : Goal) : g.subst .var = g := by
  induction g with
  | not g ih => simp only [subst, ih]
  | _ => simp only [subst, Term.subst_var_self]

theorem occurrences_subst (g : Goal) :
    (g.subst f).occurrences = g.occurrences.flatMap fun x => (f x).occurrences := by
  induction g with
  | not g ih => exact ih
  | call t => exact t.occurrences_subst
  | unify l r | notUnify l r =>
    simp only [subst, occurrences, Term.occurrences_subst, List.flatMap_append]

theorem rename_eq_subst (k : Nat) (g : Goal) :
    g.rename k = g.subst fun x => .var (Term.suffixed x k) := by
  induction g with
  | not g ih => simp only [rename, subst, ih]
  | _ => rfl

theorem rename_subst (k : Nat) (g : Goal) :
    (g.rename k).subst f = g.subst fun x => f (Term.suffixed x k) := by
  rw [rename_eq_subst, subst_subst]
  rfl

theorem mem_occurrences_rename {k : Nat} {y : String} :
    y ∈ (g.rename k).occurrences ↔ ∃ x ∈ g.occurrences, y = Term.suffixed x k := by
  simp [rename_eq_subst, occurrences_subst]

end Goal

end OntoLogic
