-- SUMMARY: Trying every clause of a program for every call finds what the search with the index finds.
import OntoLogic.Proofs.Resolution.Renaming

/-!
# Searches without the index

The index spares the search the clauses whose head does not unify with a call because it belongs to
another predicate. A search that tries them all the same makes more copies, so its copies have other
numbers, but it finds the same values in the same order and meets the same bounds.
-/

namespace OntoLogic

variable {key : Indicator} {cs : List Clause}

/-- All clauses may be offered in the place of those of a predicate. -/
theorem Clause.offered_filter (h : ∀ c ∈ cs, c.FromText) :
    Clause.Offered key (cs.filter fun c => c.head.functor? = some key) cs := by
  induction cs with
  | nil => exact .nil
  | cons c cs ih =>
    obtain ⟨hc, hcs⟩ := List.forall_mem_cons.mp h
    by_cases hkey : c.head.functor? = some key
    · rw [List.filter_cons_of_pos (by simpa using hkey)]
      exact .variant hc.variants_self (ih hcs)
    · rw [List.filter_cons_of_neg (by simpa using hkey)]
      exact .other hc hkey (ih hcs)

namespace Theory

variable {texts : List String} {theory : Theory} {query : Query} {bounds : Bounds}

/-- The solutions of a query within bounds when all clauses are tried for each call, in program
order. -/
def scan (theory : Theory) (bounds : Bounds) (query : Query) : Solutions :=
  Search.solutions query.visibleVars
    ((Search.Node.start bounds query).runOver (fun _ => theory.clauses.toList) bounds.maxInferences)

/-- The search with the index and the one without go in lockstep. -/
theorem agree_scan (hload : load texts = .ok theory) (hquery : ∀ g ∈ query.goals, g.FromText) :
    Search.Agree [.ofVars query.visibleVars] [.ofVars query.visibleVars]
      (Search.run theory bounds query)
      ((Search.Node.start bounds query).runOver (fun _ => theory.clauses.toList)
        bounds.maxInferences) := by
  have hoffer (key : Indicator) :
      Clause.Offered key (theory.candidates key) theory.clauses.toList := by
    rw [candidates_eq_filter hload]
    exact Clause.offered_filter (load_cases hload).1
  have hstart : Search.Lockstep [.ofVars query.visibleVars]
      [.ofVars (query.mapVars id).visibleVars] (Search.Node.start bounds query)
      (Search.Node.start bounds (query.mapVars id)) :=
    Search.lockstep_start hquery (Query.renames_id hquery) fun _ _ => rfl
  rw [Query.mapVars_id] at hstart
  exact Search.prove_lockstep_over hoffer _ _ _ _ _ _ _ hstart

/-- The index of a program that has been read has an entry for each predicate with clauses, the
ascending positions of these, and every clause stands in it once. It makes no difference: a query
has the same solutions, in the same order and cut short at the same place, when all clauses are
tried for every call. -/
theorem solve_eq_scan (hload : load texts = .ok theory) :
    (∀ key positions, theory.index[key]? = some positions ↔
      positions ≠ [] ∧ theory.Locates key positions) ∧
    (theory.index.toList.flatMap Prod.snd).Perm (List.range theory.size) ∧
    ∀ text query, Query.parse text = .ok query → ∀ bounds,
      theory.solve bounds query = theory.scan bounds query := by
  obtain ⟨hprogram, hindex⟩ := load_cases hload
  refine ⟨fun key positions => index_entry_iff hindex,
    index_perm hindex fun c hc => (hprogram c hc).callable, ?_⟩
  intro text query hparse bounds
  have hagree : Search.Agree [.ofVars query.visibleVars] [.ofVars query.visibleVars]
      (Search.run theory bounds query) _ :=
    agree_scan hload (Query.parse_fromText text query hparse)
  have hsolutions := Search.Agree.solutions_eq (f := id) (by rwa [List.map_id])
  rw [List.map_id, Solutions.mapNames_id] at hsolutions
  exact hsolutions.symm

/-- Predicates of one name that differ in their arguments, one of them quoted, and a recursive rule
whose calls are matched with clauses of all of them. -/
theorem solve_eq_scan_part :
    let texts := ["part(wheel).", "part(wheel, car).", "'part'(spoke, wheel).", "part.",
      "within(X, Y) :- part(X, Y).", "within(X, Z) :- part(X, Y), within(Y, Z), \\+ part(X)."]
    let theory := (load texts).toOption.getD .empty
    let query := (Query.parse "within(X, car), part").toOption.getD ⟨[]⟩
    load texts = .ok theory ∧ Query.parse "within(X, car), part" = .ok query ∧
    theory.index[("part", 2)]? = some [1, 2] ∧ theory.Locates ("part", 2) [1, 2] ∧
    (theory.index.toList.flatMap Prod.snd).Perm (List.range theory.size) ∧
    (theory.scan {} query).solutions.map Solution.text = ["X = wheel", "X = spoke"] ∧
    theory.solve {} query = theory.scan {} query := by
  intro texts theory query
  have hload : load texts = .ok theory := eq_ok_getD (by decide +kernel) _
  have hparse : Query.parse "within(X, car), part" = .ok query := eq_ok_getD (by decide +kernel) _
  obtain ⟨hentry, hperm, hsolve⟩ := solve_eq_scan hload
  have hpart : theory.index[("part", 2)]? = some [1, 2] := by decide +kernel
  exact ⟨hload, hparse, hpart, ((hentry _ _).mp hpart).2, hperm, by decide +kernel,
    hsolve _ query hparse {}⟩

end Theory

end OntoLogic
