-- SUMMARY: Which of all derivations of a term, goal, clause or query is written.
import OntoLogic.Proofs.Syntax.Grammar
import OntoLogic.Proofs.Syntax.Scanning

/-!
# Written forms

Of all derivations of a term, goal, clause or query, one is written: it has no parentheses but those
of arguments, every list cell stands in brackets, and a query has no period. It nests no deeper than
the derivation that was read.
-/

namespace OntoLogic.Grammar

/-- What holds of all tokens of a sequence holds of those of its items. -/
theorem forall_item_tokens {α : Type} {tokens : α → List Token} {first : α} {rest : List α}
    {P : Token → Prop} (h : ∀ token ∈ commas tokens first rest, P token) :
    ∀ x ∈ first :: rest, ∀ token ∈ tokens x, P token := by
  intro x hx token htoken
  refine h token ?_
  rcases List.mem_cons.mp hx with rfl | hx
  · exact List.mem_append_left _ htoken
  · exact List.mem_append_right _ (List.mem_flatMap.mpr ⟨x, hx, List.mem_cons_of_mem _ htoken⟩)

/-! ## The derivation that is written -/

namespace TermTree

/-- The derivation of a list with one more item in front; what is no list becomes the tail. -/
def cons (head : TermTree) : TermTree → TermTree
  | .nil => .list head []
  | .list first rest => .list head (first :: rest)
  | .listTail first rest tail => .listTail head (first :: rest) tail
  | tail => .listTail head [] tail

/-- The derivation of a compound; a list cell is derived as a list. -/
def ofCompound (name : String) (first : TermTree) (rest : List TermTree) : TermTree :=
  match rest with
  | [tail] => if name = Term.consName then first.cons tail else .compound name first [tail]
  | rest => .compound name first rest

mutual

/-- The derivation of the same term that is written. -/
def written : TermTree → TermTree
  | .atom name => if name = Term.nilName then .nil else .atom name
  | .compound name first rest => ofCompound name (written first) (writtenList rest)
  | .var name => .var name
  | .number spelling => .number spelling
  | .string text => .string text
  | .nil => .nil
  | .list first rest => (written first).cons ((writtenList rest).foldr cons .nil)
  | .listTail first rest tail => (written first).cons ((writtenList rest).foldr cons (written tail))
  | .paren inner => written inner

def writtenList : List TermTree → List TermTree
  | [] => []
  | t :: ts => written t :: writtenList ts

end

/-- The tokens between the first item of a list and its closing bracket, where a derivation stands
for the rest of the list. -/
def afterFirst : TermTree → List Token
  | .nil => []
  | .list first rest => .comma :: commas tokens first rest
  | .listTail first rest tail => .comma :: (commas tokens first rest ++ .bar :: tail.tokens)
  | t => .bar :: t.tokens

/-- The levels below the brackets of a list, where a derivation stands for the rest of the list. -/
def restLevels : TermTree → Nat
  | .nil => 0
  | .list first rest => highest levels (first :: rest)
  | .listTail first rest tail => max (highest levels (first :: rest)) tail.levels
  | t => t.levels

theorem writtenList_eq (ts : List TermTree) : writtenList ts = ts.map written := by
  induction ts with
  | nil => rfl
  | cons t ts ih => simp [writtenList, ih]

variable {name : String} {head tail first : TermTree} {rest : List TermTree} {n : Nat}

@[simp] theorem written_compound : (compound name first rest).written =
    ofCompound name first.written (rest.map written) := by
  simp [written, writtenList_eq]

@[simp] theorem written_list : (list first rest).written =
    first.written.cons ((rest.map written).foldr cons .nil) := by
  simp [written, writtenList_eq]

@[simp] theorem written_listTail : (listTail first rest tail).written =
    first.written.cons ((rest.map written).foldr cons tail.written) := by
  simp [written, writtenList_eq]

@[simp] theorem value_cons :
    (cons head tail).value = .compound Term.consName [head.value, tail.value] := by
  cases tail <;> simp [cons, Term.list, value, valueList_eq, Term.nil]

@[simp] theorem tokens_cons : (cons head tail).tokens =
    .leftBracket :: (head.tokens ++ tail.afterFirst ++ [.rightBracket]) := by
  cases tail <;> simp [cons, afterFirst, commas_cons, commas_nil]

@[simp] theorem afterFirst_cons :
    (cons head tail).afterFirst = .comma :: (head.tokens ++ tail.afterFirst) := by
  cases tail <;> simp [cons, afterFirst, commas_cons, commas_nil]

theorem levels_cons_le :
    (cons head tail).levels ≤ n + 1 ↔ head.levels ≤ n ∧ tail.restLevels ≤ n := by
  cases tail <;> simp [cons, restLevels, highest_le, and_assoc]

theorem restLevels_cons_le :
    (cons head tail).restLevels ≤ n ↔ head.levels ≤ n ∧ tail.restLevels ≤ n := by
  cases tail <;> simp [cons, restLevels, highest_le, and_assoc]

theorem restLevels_le_levels (t : TermTree) : t.restLevels ≤ t.levels := by
  cases t with
  | list first rest => simp [restLevels, levels, levelsList_eq, highest]
  | listTail first rest tail => simp [restLevels, levels, levelsList_eq, highest]
  | _ => simp [restLevels]

theorem value_ofCompound :
    (ofCompound name first rest).value = .compound name (first.value :: rest.map value) := by
  unfold ofCompound
  split
  · split
    · next hname => simp [hname]
    · simp
  · simp

theorem levels_ofCompound_le (h : ∀ t ∈ first :: rest, t.levels ≤ n) :
    (ofCompound name first rest).levels ≤ n + 1 := by
  unfold ofCompound
  split
  · next tail =>
    split
    · refine levels_cons_le.mpr ⟨h first List.mem_cons_self, ?_⟩
      exact (restLevels_le_levels tail).trans (h tail (by simp))
    · exact levels_compound_le.mpr h
  · exact levels_compound_le.mpr h

/-- A written derivation derives the same term. -/
@[simp] theorem value_written (t : TermTree) : t.written.value = t.value := by
  have hitems : ∀ {rest : List TermTree} (tail : TermTree) {v : Term},
      (∀ t ∈ rest, t.written.value = t.value) → tail.value = v →
      ((rest.map written).foldr cons tail).value = .list (rest.map value) v := by
    intro rest tail v hrest htail
    induction rest with
    | nil => exact htail
    | cons t rest ih =>
      obtain ⟨ht, hrest⟩ := List.forall_mem_cons.mp hrest
      simp only [List.map_cons, List.foldr_cons, value_cons, ht, ih hrest, Term.list]
  induction t with
  | atom name =>
    unfold written
    split
    · next hname => simp [value, Term.nil, hname]
    · rfl
  | compound name first rest ihf ihr =>
    have hrest : (rest.map written).map value = rest.map value := by
      rw [List.map_map]
      exact List.map_congr_left ihr
    rw [written_compound, value_ofCompound, ihf, hrest, value_compound, List.map_cons]
  | list first rest ihf ihr =>
    rw [written_list, value_cons, ihf, hitems .nil ihr rfl, value_list]
    rfl
  | listTail first rest tail ihf ihr iht =>
    rw [written_listTail, value_cons, ihf, hitems _ ihr iht, value_listTail]
    rfl
  | paren inner ih => exact ih
  | _ => rfl

/-- A written derivation is no higher than another one of the same term. -/
theorem levels_written_le (t : TermTree) : t.written.levels ≤ t.levels := by
  have hitems : ∀ {rest : List TermTree} {tail : TermTree} {n : Nat},
      (∀ t ∈ rest, t.written.levels ≤ n) → tail.restLevels ≤ n →
      ((rest.map written).foldr cons tail).restLevels ≤ n := by
    intro rest tail n hrest htail
    induction rest with
    | nil => exact htail
    | cons t rest ih =>
      obtain ⟨ht, hrest⟩ := List.forall_mem_cons.mp hrest
      exact restLevels_cons_le.mpr ⟨ht, ih hrest⟩
  induction t with
  | atom name =>
    unfold written
    split <;> simp [levels]
  | compound name first rest ihf ihr =>
    obtain ⟨n, hn⟩ := Nat.exists_eq_add_one_of_ne_zero (levels_pos (compound name first rest)).ne'
    obtain ⟨hfirst, hrest⟩ := List.forall_mem_cons.mp (levels_compound_le.mp hn.le)
    rw [written_compound, hn]
    refine levels_ofCompound_le (List.forall_mem_cons.mpr ⟨ihf.trans hfirst, ?_⟩)
    exact List.forall_mem_map.mpr fun t ht => (ihr t ht).trans (hrest t ht)
  | list first rest ihf ihr =>
    obtain ⟨n, hn⟩ := Nat.exists_eq_add_one_of_ne_zero (levels_pos (list first rest)).ne'
    obtain ⟨hfirst, hrest⟩ := List.forall_mem_cons.mp (levels_list_le.mp hn.le)
    rw [written_list, hn]
    refine levels_cons_le.mpr ⟨ihf.trans hfirst, hitems ?_ (Nat.zero_le n)⟩
    exact fun t ht => (ihr t ht).trans (hrest t ht)
  | listTail first rest tail ihf ihr iht =>
    obtain ⟨n, hn⟩ := Nat.exists_eq_add_one_of_ne_zero (levels_pos (listTail first rest tail)).ne'
    obtain ⟨hitemLevels, htail⟩ := levels_listTail_le.mp hn.le
    obtain ⟨hfirst, hrest⟩ := List.forall_mem_cons.mp hitemLevels
    rw [written_listTail, hn]
    refine levels_cons_le.mpr ⟨ihf.trans hfirst, hitems ?_ ?_⟩
    · exact fun t ht => (ihr t ht).trans (hrest t ht)
    · exact (restLevels_le_levels _).trans (iht.trans htail)
  | paren inner ih => exact ih.trans (Nat.le_succ _)
  | _ => exact le_rfl

/-- A derivation that is written. -/
inductive IsWritten : TermTree → Prop
  | atom {name : String} (h : name ≠ Term.nilName) : IsWritten (.atom name)
  | var {name : String} (h : IsVariable (varText name).toList) : IsWritten (.var name)
  | number {spelling : String} (h : IsNumber spelling.toList) :
    IsWritten (.number spelling)
  | string (text : String) : IsWritten (.string text)
  | nil : IsWritten .nil
  | cons {head tail : TermTree} (hhead : IsWritten head) (htail : IsWritten tail) :
    IsWritten (head.cons tail)
  | compound {name : String} {first : TermTree} {rest : List TermTree}
    (hcell : name = Term.consName → rest.length ≠ 1) (hfirst : IsWritten first)
    (hrest : ∀ t ∈ rest, IsWritten t) : IsWritten (.compound name first rest)

theorem IsWritten.foldr {items : List TermTree} (h : ∀ t ∈ items, IsWritten t)
    (htail : IsWritten tail) : IsWritten (items.foldr TermTree.cons tail) := by
  induction items with
  | nil => exact htail
  | cons t items ih =>
    obtain ⟨ht, hitems⟩ := List.forall_mem_cons.mp h
    exact .cons ht (ih hitems)

theorem IsWritten.ofCompound (hfirst : IsWritten first) (hrest : ∀ t ∈ rest, IsWritten t) :
    IsWritten (ofCompound name first rest) := by
  unfold TermTree.ofCompound
  split
  · next tail =>
    split
    · exact .cons hfirst (hrest tail (by simp))
    · next hname => exact .compound (fun h => absurd h hname) hfirst hrest
  · next hlength =>
    have hcell : rest.length ≠ 1 := mt List.length_eq_one_iff.mp (by simpa using hlength)
    exact .compound (fun _ => hcell) hfirst hrest

/-- When the variables and numbers of a derivation can be written, so can the derivation. -/
theorem isWritten_written (t : TermTree) (h : ∀ token ∈ t.tokens, token.WellSpelled) :
    IsWritten t.written := by
  induction t with
  | atom name =>
    unfold written
    split
    · exact .nil
    · next hname => exact .atom hname
  | compound name first rest ihf ihr =>
    have hitems : ∀ u ∈ first :: rest, ∀ token ∈ u.tokens, token.WellSpelled :=
      forall_item_tokens fun token htoken => h token (by simp [htoken])
    obtain ⟨hfirst, hrest⟩ := List.forall_mem_cons.mp hitems
    rw [written_compound]
    exact .ofCompound (ihf hfirst) (List.forall_mem_map.mpr fun t ht => ihr t ht (hrest t ht))
  | var name => exact .var (h _ (List.mem_singleton.mpr rfl))
  | number spelling => exact .number (h _ (List.mem_singleton.mpr rfl))
  | string text => exact .string text
  | nil => exact .nil
  | list first rest ihf ihr =>
    have hitems : ∀ u ∈ first :: rest, ∀ token ∈ u.tokens, token.WellSpelled :=
      forall_item_tokens fun token htoken => h token (by simp [htoken])
    obtain ⟨hfirst, hrest⟩ := List.forall_mem_cons.mp hitems
    rw [written_list]
    exact .cons (ihf hfirst)
      (.foldr (List.forall_mem_map.mpr fun t ht => ihr t ht (hrest t ht)) .nil)
  | listTail first rest tail ihf ihr iht =>
    have hitems : ∀ u ∈ first :: rest, ∀ token ∈ u.tokens, token.WellSpelled :=
      forall_item_tokens fun token htoken => h token (by simp [htoken])
    have htail : ∀ token ∈ tail.tokens, token.WellSpelled :=
      fun token htoken => h token (by simp [htoken])
    obtain ⟨hfirst, hrest⟩ := List.forall_mem_cons.mp hitems
    rw [written_listTail]
    exact .cons (ihf hfirst)
      (.foldr (List.forall_mem_map.mpr fun t ht => ihr t ht (hrest t ht)) (iht htail))
  | paren inner ih => exact ih fun token htoken => h token (by simp [htoken])

end TermTree

/-! ## Written goals, clauses and queries -/

namespace GoalTree

def written : GoalTree → GoalTree
  | .not g => .not g.written
  | .call t => .call t.written
  | .unify l r => .unify l.written r.written
  | .notUnify l r => .notUnify l.written r.written

@[simp] theorem goal_written (g : GoalTree) : g.written.goal = g.goal := by
  induction g with
  | not g ih => simp [written, goal, ih]
  | _ => simp [written, goal]

theorem levels_written_le (g : GoalTree) : g.written.levels ≤ g.levels := by
  induction g with
  | not g ih => exact Nat.succ_le_succ ih
  | call t => exact t.levels_written_le
  | unify l r | notUnify l r => exact max_le_max l.levels_written_le r.levels_written_le

theorem highest_written_le (first : GoalTree) (rest : List GoalTree) :
    highest levels (first.written :: rest.map written) ≤ highest levels (first :: rest) := by
  rw [← List.map_cons]
  refine highest_le.mpr (List.forall_mem_map.mpr fun g hg => ?_)
  exact g.levels_written_le.trans (highest_le.mp le_rfl g hg)

end GoalTree

namespace ClauseTree

def written : ClauseTree → ClauseTree
  | .fact head => .fact head.written
  | .rule head first rest => .rule head.written first.written (rest.map GoalTree.written)

@[simp] theorem clause_written (t : ClauseTree) : t.written.clause = t.clause := by
  cases t <;> simp [written, clause]

theorem levels_written_le (t : ClauseTree) : t.written.levels ≤ t.levels := by
  cases t with
  | fact head => exact head.levels_written_le
  | rule head first rest =>
    exact max_le_max head.levels_written_le (GoalTree.highest_written_le first rest)

end ClauseTree

namespace QueryTree

/-- The derivation of the same query that is written. It has no period. -/
def written (t : QueryTree) : QueryTree where
  first := t.first.written
  rest := t.rest.map GoalTree.written
  period := false

@[simp] theorem query_written (t : QueryTree) : t.written.query = t.query := by
  simp [written, query]

theorem levels_written_le (t : QueryTree) : t.written.levels ≤ t.levels :=
  GoalTree.highest_written_le t.first t.rest

end QueryTree

end OntoLogic.Grammar
