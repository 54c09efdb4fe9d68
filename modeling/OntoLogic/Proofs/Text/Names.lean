-- SUMMARY: Sets and maps of names are made again from their sorted lists; what an insertion changes.
import OntoLogic.Ontology.Basic

/-!
# Sets and maps from their own lists

The names of a set stand in ascending order, so each of them belongs at the end of those before it.
A set or a map is therefore made again from what it lists, and an ontology from its description.
For the same reason an insertion leaves a set or a map as it is when there is nothing to insert.
-/

namespace OntoLogic

/-! ## Sets -/

namespace NameSet

theorem eq_of_names {s t : NameSet} (h : s.names = t.names) : s = t := by
  cases s
  cases t
  cases h
  rfl

theorem insertInto_of_forall_lt {x : String} {ys : List String} (h : ∀ y ∈ ys, y < x) :
    insertInto x ys = ys ++ [x] := by
  induction ys with
  | nil => rfl
  | cons y ys ih =>
    obtain ⟨hy, hys⟩ := List.forall_mem_cons.mp h
    have hne : x ≠ y := fun heq => String.lt_irrefl x (heq ▸ hy)
    rw [insertInto, if_neg (String.lt_asymm hy), if_neg hne, ih hys, List.cons_append]

theorem names_foldl_insert {xs : List String} {s : NameSet}
    (h : (s.names ++ xs).Pairwise (· < ·)) : (xs.foldl insert s).names = s.names ++ xs := by
  induction xs generalizing s with
  | nil => simp
  | cons x xs ih =>
    have hlt : ∀ y ∈ s.names, y < x := fun y hy =>
      (List.pairwise_append.mp h).2.2 y hy x List.mem_cons_self
    have hlast : (s.insert x).names = s.names ++ [x] := insertInto_of_forall_lt hlt
    have hsorted : ((s.insert x).names ++ xs).Pairwise (· < ·) := by simpa [hlast] using h
    simpa [hlast] using ih hsorted

theorem ofList_toList (s : NameSet) : ofList s.toList = s :=
  eq_of_names (names_foldl_insert s.sorted)

theorem contains_insert {s : NameSet} {x y : String} :
    (s.insert x).contains y = true ↔ y = x ∨ s.contains y = true := by
  simp only [contains, insert, List.contains_iff_mem, mem_insertInto]

theorem contains_insert_of_ne {s : NameSet} {x y : String} (h : y ≠ x) :
    (s.insert x).contains y = s.contains y := by
  rw [Bool.eq_iff_iff, contains_insert, or_iff_right h]

theorem insertInto_of_mem {x : String} {ys : List String} (hsorted : ys.Pairwise (· < ·))
    (h : x ∈ ys) : insertInto x ys = ys := by
  induction ys with
  | nil => cases h
  | cons y ys ih =>
    obtain ⟨hlt, hys⟩ := List.pairwise_cons.mp hsorted
    cases h with
    | head => rw [insertInto, if_neg (String.lt_irrefl x), if_pos rfl]
    | tail _ hmem =>
      have hy : y < x := hlt x hmem
      have hne : x ≠ y := fun heq => String.lt_irrefl x (heq ▸ hy)
      rw [insertInto, if_neg (String.lt_asymm hy), if_neg hne, ih hys hmem]

theorem insert_eq_self_iff {s : NameSet} {x : String} : s.insert x = s ↔ s.contains x = true := by
  constructor
  · intro h
    rw [← h]
    exact contains_insert.mpr (.inl rfl)
  · intro h
    exact eq_of_names (insertInto_of_mem s.sorted (List.contains_iff_mem.mp h))

end NameSet

/-! ## Maps -/

namespace NameMap

variable {α : Type}

theorem eq_of_entries {m n : NameMap α} (h : m.entries = n.entries) : m = n := by
  cases m
  cases n
  cases h
  rfl

theorem insertInto_of_forall_lt {x : String} {a : α} {entries : List (String × α)}
    (h : ∀ e ∈ entries, e.1 < x) : insertInto x a entries = entries ++ [(x, a)] := by
  induction entries with
  | nil => rfl
  | cons e entries ih =>
    obtain ⟨he, hes⟩ := List.forall_mem_cons.mp h
    have hne : x ≠ e.1 := fun heq => String.lt_irrefl x (heq ▸ he)
    rw [insertInto, if_neg (String.lt_asymm he), if_neg hne, ih hes, List.cons_append]

theorem entries_foldl_insert {es : List (String × α)} {m : NameMap α}
    (h : ((m.entries ++ es).map Prod.fst).Pairwise (· < ·)) :
    (es.foldl (fun m e => m.insert e.1 e.2) m).entries = m.entries ++ es := by
  induction es generalizing m with
  | nil => simp
  | cons e es ih =>
    have hlt : ∀ e' ∈ m.entries, e'.1 < e.1 := by
      rw [List.map_append, List.pairwise_append] at h
      exact fun e' he' => h.2.2 e'.1 (List.mem_map_of_mem he') e.1 List.mem_cons_self
    have hlast : (m.insert e.1 e.2).entries = m.entries ++ [e] := insertInto_of_forall_lt hlt
    have hsorted : (((m.insert e.1 e.2).entries ++ es).map Prod.fst).Pairwise (· < ·) := by
      simpa [hlast] using h
    simpa [hlast] using ih hsorted

theorem ofList_toList (m : NameMap α) : ofList m.toList = m :=
  eq_of_entries (entries_foldl_insert m.sorted)

theorem lookup_insertInto_of_ne {x y : String} {a : α} (h : y ≠ x) (entries : List (String × α)) :
    (insertInto x a entries).lookup y = entries.lookup y := by
  have hne : (y == x) = false := beq_eq_false_iff_ne.mpr h
  induction entries with
  | nil => simp only [insertInto, List.lookup_cons, hne]
  | cons e entries ih =>
    obtain ⟨z, b⟩ := e
    simp only [insertInto]
    split
    · simp only [List.lookup_cons, hne]
    split
    · next heq => simp only [List.lookup_cons, hne, ← heq]
    · simp only [List.lookup_cons, ih]

theorem lookup_insertInto_self (x : String) (a : α) (entries : List (String × α)) :
    (insertInto x a entries).lookup x = some a := by
  induction entries with
  | nil => exact List.lookup_cons_self
  | cons e entries ih =>
    obtain ⟨z, b⟩ := e
    simp only [insertInto]
    split
    · exact List.lookup_cons_self
    split
    · exact List.lookup_cons_self
    next hne => simpa only [List.lookup_cons, beq_eq_false_iff_ne.mpr hne] using ih

theorem get?_insert_of_ne {m : NameMap α} {x y : String} {a : α} (h : y ≠ x) :
    (m.insert x a).get? y = m.get? y :=
  lookup_insertInto_of_ne h m.entries

theorem get?_insert_self {m : NameMap α} {x : String} {a : α} : (m.insert x a).get? x = some a :=
  lookup_insertInto_self x a m.entries

theorem insertInto_of_mem {x : String} {a : α} {entries : List (String × α)}
    (hsorted : (entries.map Prod.fst).Pairwise (· < ·)) (h : (x, a) ∈ entries) :
    insertInto x a entries = entries := by
  induction entries with
  | nil => cases h
  | cons e entries ih =>
    obtain ⟨hlt, hentries⟩ := List.pairwise_cons.mp hsorted
    cases h with
    | head => rw [insertInto, if_neg (String.lt_irrefl x), if_pos rfl]
    | tail _ hmem =>
      have he : e.1 < x := hlt x (List.mem_map_of_mem hmem)
      have hne : x ≠ e.1 := fun heq => String.lt_irrefl x (heq ▸ he)
      rw [insertInto, if_neg (String.lt_asymm he), if_neg hne, ih hentries hmem]

theorem insert_eq_self_iff {m : NameMap α} {x : String} {a : α} :
    m.insert x a = m ↔ m.get? x = some a := by
  constructor
  · intro h
    rw [← h]
    exact get?_insert_self
  · intro h
    obtain ⟨before, after, hentries, -⟩ := List.lookup_eq_some_iff.mp h
    have hmem : (x, a) ∈ m.entries := hentries ▸ List.mem_append_right before List.mem_cons_self
    exact eq_of_entries (insertInto_of_mem m.sorted hmem)

end NameMap

/-! ## Ontologies -/

theorem Ontology.ofConfig_config (o : Ontology) : ofConfig o.config = o := by
  simp only [ofConfig, config, NameSet.ofList_toList]

end OntoLogic
