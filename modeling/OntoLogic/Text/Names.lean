-- SUMMARY: Sorted sets of names and sorted maps from names.

/-!
# Sets of names and maps from names

Both are lists sorted by name without repetition, so two of them are equal exactly when they have
the same members or entries. Names are compared code point by code point.
-/

namespace OntoLogic

/-- Of two different names, one comes first. -/
theorem lt_of_not_lt_of_ne {x y : String} (h : ¬ x < y) (hne : x ≠ y) : y < x :=
  Decidable.byContradiction fun h' =>
    hne (String.le_antisymm (String.not_lt.mp h') (String.not_lt.mp h))

/-! ## Sets -/

structure NameSet where
  names : List String
  sorted : names.Pairwise (· < ·)
  deriving DecidableEq

namespace NameSet

def empty : NameSet := ⟨[], .nil⟩

instance : EmptyCollection NameSet := ⟨empty⟩

instance : Inhabited NameSet := ⟨empty⟩

/-- Puts a name in its place in a sorted list, unless it is there. -/
def insertInto (x : String) : List String → List String
  | [] => [x]
  | y :: ys => if x < y then x :: y :: ys else if x = y then y :: ys else y :: insertInto x ys

theorem mem_insertInto {x y : String} {ys : List String} :
    y ∈ insertInto x ys ↔ y = x ∨ y ∈ ys := by
  induction ys with
  | nil => simp [insertInto]
  | cons z zs ih =>
    simp only [insertInto]
    split
    · simp
    · split
      · next h => simp [h]
      · simp [ih, or_left_comm]

theorem pairwise_insertInto {x : String} {ys : List String} (h : ys.Pairwise (· < ·)) :
    (insertInto x ys).Pairwise (· < ·) := by
  induction ys with
  | nil => simp [insertInto]
  | cons z zs ih =>
    have hz := List.pairwise_cons.mp h
    simp only [insertInto]
    split
    · next hlt =>
      refine List.pairwise_cons.mpr ⟨fun w hw => ?_, h⟩
      cases List.mem_cons.mp hw with
      | inl he => exact he ▸ hlt
      | inr hm => exact String.lt_trans hlt (hz.1 w hm)
    · next hnot =>
      split
      · exact h
      · next hne =>
        refine List.pairwise_cons.mpr ⟨fun w hw => ?_, ih hz.2⟩
        cases mem_insertInto.mp hw with
        | inl he => exact he ▸ lt_of_not_lt_of_ne hnot hne
        | inr hm => exact hz.1 w hm

/-- The set with one more name. -/
def insert (s : NameSet) (x : String) : NameSet :=
  ⟨insertInto x s.names, pairwise_insertInto s.sorted⟩

def ofList (xs : List String) : NameSet :=
  xs.foldl insert ∅

/-- The names in ascending order. -/
def toList (s : NameSet) : List String :=
  s.names

def contains (s : NameSet) (x : String) : Bool :=
  s.names.contains x

def size (s : NameSet) : Nat :=
  s.names.length

end NameSet

/-! ## Maps -/

structure NameMap (α : Type) where
  entries : List (String × α)
  sorted : (entries.map Prod.fst).Pairwise (· < ·)
  deriving DecidableEq

namespace NameMap

variable {α : Type}

def empty : NameMap α := ⟨[], .nil⟩

instance : EmptyCollection (NameMap α) := ⟨empty⟩

instance : Inhabited (NameMap α) := ⟨empty⟩

/-- Puts an entry in its place in a sorted list and replaces the one with the same name. -/
def insertInto (x : String) (a : α) : List (String × α) → List (String × α)
  | [] => [(x, a)]
  | (y, b) :: rest =>
    if x < y then (x, a) :: (y, b) :: rest
    else if x = y then (x, a) :: rest
    else (y, b) :: insertInto x a rest

theorem map_fst_insertInto (x : String) (a : α) (entries : List (String × α)) :
    (insertInto x a entries).map Prod.fst = NameSet.insertInto x (entries.map Prod.fst) := by
  induction entries with
  | nil => rfl
  | cons e rest ih =>
    simp only [insertInto, NameSet.insertInto, List.map_cons]
    split
    · rfl
    · split
      · next h => simp [h]
      · simp [ih]

/-- The map with one more entry, or with another value for a name. -/
def insert (m : NameMap α) (x : String) (a : α) : NameMap α :=
  ⟨insertInto x a m.entries, by
    rw [map_fst_insertInto]
    exact NameSet.pairwise_insertInto m.sorted⟩

/-- The map of the entries of a list; of several entries for one name the last counts. -/
def ofList (entries : List (String × α)) : NameMap α :=
  entries.foldl (fun m e => m.insert e.1 e.2) ∅

/-- The entries in ascending order of their names. -/
def toList (m : NameMap α) : List (String × α) :=
  m.entries

def get? (m : NameMap α) (x : String) : Option α :=
  m.entries.lookup x

/-- The names in ascending order. -/
def keys (m : NameMap α) : List String :=
  m.entries.map Prod.fst

def size (m : NameMap α) : Nat :=
  m.entries.length

end NameMap

end OntoLogic
