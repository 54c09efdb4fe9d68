-- SUMMARY: The index of a loaded program finds the clauses of a predicate, all of them and in order.
import Mathlib.Data.List.Nodup
import Mathlib.Data.List.Sort
import OntoLogic.Proofs.Syntax.Variables
import OntoLogic.Resolution.Theory

/-!
# The index of a theory

The index holds the positions of the clauses of each predicate, so looking up a predicate gives the
clauses whose head belongs to it, in program order. Every clause that has been read has a head with
a predicate, so it stands in the index, and only once.
-/

namespace OntoLogic

namespace Indicator

instance : Std.TransCmp Indicator.compare :=
  inferInstanceAs (Std.TransCmp (compareLex (compareOn Prod.fst) (compareOn Prod.snd)))

theorem compare_eq_iff {a b : Indicator} : Indicator.compare a b = .eq ↔ a = b := by
  simp [Indicator.compare, compareLex_eq_eq, compareOn, Prod.ext_iff]

instance : Std.LawfulEqCmp Indicator.compare where
  compare_self := compare_eq_iff.mpr rfl
  eq_of_compare := compare_eq_iff.mp

end Indicator

namespace Theory

variable {texts : List String} {text : String} {theory : Theory} {clauses : List Clause}
  {c : Clause} {key : Indicator}

/-! ## Loaded programs -/

theorem readClauses_cons : readClauses (text :: texts) = .ok clauses ↔
    ∃ c rest, Clause.parse text = .ok c ∧ readClauses texts = .ok rest ∧ c :: rest = clauses := by
  cases hparse : Clause.parse text with
  | error e => simp [readClauses, hparse]
  | ok c => simp [readClauses, hparse, map_eq_ok]

theorem load_iff : load texts = .ok theory ↔ ∃ clauses, readClauses texts = .ok clauses ∧
    ⟨texts.map Text.trim, clauses.toArray, indexOf clauses.zipIdx⟩ = theory :=
  map_eq_ok

theorem readClauses_fromText (h : readClauses texts = .ok clauses) :
    ∀ c ∈ clauses, c.FromText := by
  induction texts generalizing clauses with
  | nil =>
    cases h
    exact List.forall_mem_nil _
  | cons text texts ih =>
    obtain ⟨c, rest, hc, hrest, rfl⟩ := readClauses_cons.mp h
    exact List.forall_mem_cons.mpr ⟨Clause.parse_fromText text c hc, ih hrest⟩

/-- Every text that has been read has left its clause. -/
theorem mem_of_readClauses (h : readClauses texts = .ok clauses) (htext : text ∈ texts)
    (hparse : Clause.parse text = .ok c) : c ∈ clauses := by
  induction texts generalizing clauses with
  | nil => exact absurd htext List.not_mem_nil
  | cons head texts ih =>
    obtain ⟨d, rest, hd, hrest, rfl⟩ := readClauses_cons.mp h
    cases htext with
    | head => exact Except.ok.inj (hparse.symm.trans hd) ▸ List.mem_cons_self
    | tail _ htext => exact List.mem_cons_of_mem d (ih hrest htext)

/-- A theory that has been loaded consists of clauses that have been read, and of their index. -/
theorem load_cases (h : load texts = .ok theory) :
    (∀ c ∈ theory.clauses.toList, c.FromText) ∧
      theory.index = indexOf theory.clauses.toList.zipIdx := by
  obtain ⟨clauses, hclauses, rfl⟩ := load_iff.mp h
  exact ⟨readClauses_fromText hclauses, rfl⟩

theorem mem_clauses_of_load (h : load texts = .ok theory) (htext : text ∈ texts)
    (hparse : Clause.parse text = .ok c) : c ∈ theory.clauses.toList := by
  obtain ⟨clauses, hclauses, rfl⟩ := load_iff.mp h
  exact mem_of_readClauses hclauses htext hparse

/-! ## Looking up a predicate -/

theorem getD_indexOf (key : Indicator) (numbered : List (Clause × Nat)) :
    (indexOf numbered).getD key [] =
      (numbered.filter fun p => p.1.head.functor? = some key).map Prod.snd := by
  induction numbered with
  | nil => rfl
  | cons p rest ih =>
    obtain ⟨c, position⟩ := p
    simp only [indexOf]
    cases hkey : c.head.functor? with
    | none => simp [hkey, ih]
    | some k =>
      simp only [Std.TreeMap.getD_insert, Indicator.compare_eq_iff, List.filter_cons, hkey,
        Option.some.injEq, decide_eq_true_eq]
      split
      · next heq =>
        subst heq
        simp [ih]
      · exact ih

/-- In an index of its clauses a theory finds those of a predicate, in program order. -/
theorem candidates_of_index (h : theory.index = indexOf theory.clauses.toList.zipIdx)
    (key : Indicator) :
    theory.candidates key = theory.clauses.toList.filter fun c => c.head.functor? = some key := by
  have hfst : ∀ p ∈ theory.clauses.toList.zipIdx, theory.clauses[p.2]? = some p.1 := fun p hp => by
    simpa using List.mem_zipIdx_iff_getElem?.mp hp
  let belongs (c : Clause) : Bool := c.head.functor? = some key
  let numbered := theory.clauses.toList.zipIdx
  calc theory.candidates key
    _ = (numbered.filter fun p => belongs p.1).filterMap fun p => theory.clauses[p.2]? := by
      rw [candidates, h, getD_indexOf, List.filterMap_map]
      rfl
    _ = (numbered.filter fun p => belongs p.1).filterMap (some ∘ Prod.fst) :=
      List.filterMap_congr fun p hp => hfst p (List.mem_filter.mp hp).1
    _ = (numbered.map Prod.fst).filter belongs := by
      rw [List.filterMap_eq_map, List.filter_map]
      rfl
    _ = theory.clauses.toList.filter belongs := by rw [List.zipIdx_map_fst]

/-- Looking up a predicate of a program that has been read gives its clauses. -/
theorem candidates_eq_filter (h : load texts = .ok theory) (key : Indicator) :
    theory.candidates key = theory.clauses.toList.filter fun c => c.head.functor? = some key :=
  candidates_of_index (load_cases h).2 key

/-! ## The entries of the index -/

/-- Some positions are those of the clauses of a predicate, in ascending order. -/
structure Locates (theory : Theory) (key : Indicator) (positions : List Nat) : Prop where
  ascending : positions.Pairwise (· < ·)
  mem_iff : ∀ i, i ∈ positions ↔ ∃ c, theory.clauses[i]? = some c ∧ c.head.functor? = some key

theorem Locates.unique {positions positions' : List Nat} (h : theory.Locates key positions)
    (h' : theory.Locates key positions') : positions = positions' :=
  h.ascending.eq_of_mem_iff h'.ascending fun i => (h.mem_iff i).trans (h'.mem_iff i).symm

theorem locates_getD (h : theory.index = indexOf theory.clauses.toList.zipIdx) (key : Indicator) :
    theory.Locates key (theory.index.getD key []) := by
  rw [h, getD_indexOf]
  constructor
  · have hall : (theory.clauses.toList.zipIdx.map Prod.snd).Pairwise (· < ·) := by
      rw [List.zipIdx_map_snd]
      exact List.pairwise_lt_range' _
    exact hall.sublist (List.filter_sublist.map Prod.snd)
  · intro i
    simp only [List.mem_map, List.mem_filter, decide_eq_true_eq, Prod.exists, exists_eq_right,
      List.mk_mem_zipIdx_iff_getElem?, Array.getElem?_toList]

/-- No entry of an index is empty. -/
theorem ne_nil_of_indexOf {numbered : List (Clause × Nat)} {positions : List Nat}
    (h : (indexOf numbered)[key]? = some positions) : positions ≠ [] := by
  induction numbered with
  | nil => exact absurd h (by simp [indexOf])
  | cons p rest ih =>
    obtain ⟨c, position⟩ := p
    simp only [indexOf] at h
    split at h
    · exact ih h
    · rw [Std.TreeMap.getElem?_insert] at h
      split at h
      · cases h
        exact List.cons_ne_nil _ _
      · exact ih h

/-- The index has an entry for each predicate that has clauses, which are the positions of these. -/
theorem index_entry_iff (h : theory.index = indexOf theory.clauses.toList.zipIdx)
    {positions : List Nat} : theory.index[key]? = some positions ↔
      positions ≠ [] ∧ theory.Locates key positions := by
  have hlocates := locates_getD h key
  have hgetD : theory.index.getD key [] = theory.index[key]?.getD [] :=
    Std.TreeMap.getD_eq_getD_getElem?
  constructor
  · intro hentry
    rw [hgetD, hentry, Option.getD_some] at hlocates
    exact ⟨ne_nil_of_indexOf (h ▸ hentry), hlocates⟩
  · rintro ⟨hne, hpositions⟩
    obtain rfl := hpositions.unique hlocates
    cases hentry : theory.index[key]? with
    | none => exact absurd (by rw [hgetD, hentry, Option.getD_none]) hne
    | some positions => rw [hgetD, hentry, Option.getD_some]

/-- Every position stands in the index once when all heads have a predicate. -/
theorem index_perm (h : theory.index = indexOf theory.clauses.toList.zipIdx)
    (hcallable : ∀ c ∈ theory.clauses.toList, c.head.functor?.isSome) :
    (theory.index.toList.flatMap Prod.snd).Perm (List.range theory.size) := by
  have hentry : ∀ p ∈ theory.index.toList, theory.Locates p.1 p.2 := fun p hp =>
    ((index_entry_iff h).mp (Std.TreeMap.mem_toList_iff_getElem?_eq_some.mp hp)).2
  have hnodup : (theory.index.toList.flatMap Prod.snd).Nodup := by
    refine List.nodup_flatMap.mpr ⟨fun p hp => (hentry p hp).ascending.imp Nat.ne_of_lt, ?_⟩
    refine Std.TreeMap.distinct_keys_toList.imp_of_mem fun {p q} hp hq hne i hi hi' => ?_
    obtain ⟨c, hc, hkey⟩ := ((hentry p hp).mem_iff i).mp hi
    obtain ⟨c', hc', hkey'⟩ := ((hentry q hq).mem_iff i).mp hi'
    obtain rfl := Option.some.inj (hc.symm.trans hc')
    exact hne (Indicator.compare_eq_iff.mpr (Option.some.inj (hkey.symm.trans hkey')))
  refine (List.perm_ext_iff_of_nodup hnodup List.nodup_range).mpr fun i => ?_
  rw [List.mem_range, List.mem_flatMap]
  constructor
  · rintro ⟨p, hp, hi⟩
    obtain ⟨c, hc, -⟩ := ((hentry p hp).mem_iff i).mp hi
    exact (Array.getElem?_eq_some_iff.mp hc).1
  · intro hi
    have hc : theory.clauses[i]? = some theory.clauses[i] := Array.getElem?_eq_getElem hi
    obtain ⟨key, hkey⟩ := Option.isSome_iff_exists.mp
      (hcallable _ (Array.mem_toList_iff.mpr (Array.getElem_mem hi)))
    have hmem := ((locates_getD h key).mem_iff i).mpr ⟨_, hc, hkey⟩
    have hentry := (index_entry_iff h).mpr ⟨List.ne_nil_of_mem hmem, locates_getD h key⟩
    exact ⟨(key, theory.index.getD key []),
      Std.TreeMap.mem_toList_iff_getElem?_eq_some.mpr hentry, hmem⟩

end Theory

end OntoLogic
