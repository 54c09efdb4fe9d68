-- SUMMARY: How high the terms of a text are when the cells of a list count as one constructor, and when each counts.
import OntoLogic.Proofs.Syntax.Composition

/-!
# Heights of terms

The limit on nesting is counted while a text is read, and a list opens one level for all its items.
In the term that is read each item has a cell of its own, and a function that walks the term enters
a cell from the cell before it. So the limit bounds the nesting of a term, where a step from a cell
to the next one is not counted. Where these steps are counted too, a term can be higher, by as many
of them as a branch has; a long list needs no nesting.
-/

namespace OntoLogic

open Grammar

namespace Term

/-! ## Height and nesting -/

mutual

/-- The number of constructors on the longest branch of a term. -/
def height : Term → Nat
  | .compound _ args => heightList args + 1
  | _ => 1

/-- The height of the highest of some terms. -/
def heightList : List Term → Nat
  | [] => 0
  | t :: ts => max (height t) (heightList ts)

end

def isCell : Term → Bool
  | .compound name [_, _] => name == consName
  | _ => false

mutual

/-- The height of a term where a step from a list cell to the next one is not counted. -/
def nesting : Term → Nat
  | .compound name [item, rest] =>
    if name == consName && rest.isCell then max (nesting item + 1) (nesting rest)
    else max (nesting item) (nesting rest) + 1
  | .compound _ args => nestingList args + 1
  | _ => 1

/-- The nesting of the term that is nested most. -/
def nestingList : List Term → Nat
  | [] => 0
  | t :: ts => max (nesting t) (nestingList ts)

end

mutual

/-- The most steps from a list cell to the next one on a branch of a term. -/
def links : Term → Nat
  | .compound name [item, rest] =>
    if name == consName && rest.isCell then max (links item) (links rest + 1)
    else max (links item) (links rest)
  | .compound _ args => linksList args
  | _ => 0

/-- The most such steps on a branch of some terms. -/
def linksList : List Term → Nat
  | [] => 0
  | t :: ts => max (links t) (linksList ts)

end

variable {name : String} {args items : List Term} {t tail : Term} {n : Nat}

theorem heightList_le : heightList args ≤ n ↔ ∀ a ∈ args, a.height ≤ n := by
  induction args with
  | nil => simp [heightList]
  | cons a args ih => simp [heightList, ih]

theorem nestingList_le : nestingList args ≤ n ↔ ∀ a ∈ args, a.nesting ≤ n := by
  induction args with
  | nil => simp [nestingList]
  | cons a args ih => simp [nestingList, ih]

theorem linksList_le : linksList args ≤ n ↔ ∀ a ∈ args, a.links ≤ n := by
  induction args with
  | nil => simp [linksList]
  | cons a args ih => simp [linksList, ih]

/-- A compound is a cell with a cell after it, or the steps to all its arguments are counted. -/
theorem nesting_compound_cases (name : String) (args : List Term) :
    (∃ item rest, name = consName ∧ args = [item, rest] ∧ rest.isCell = true ∧
      (compound name args).nesting = max (item.nesting + 1) rest.nesting ∧
      (compound name args).links = max item.links (rest.links + 1)) ∨
    (compound name args).nesting = nestingList args + 1 ∧
      (compound name args).links = linksList args := by
  match args with
  | [item, rest] =>
    by_cases hlink : name = consName ∧ rest.isCell = true
    · obtain ⟨rfl, hrest⟩ := hlink
      exact .inl ⟨item, rest, rfl, rfl, hrest, by simp [nesting, hrest], by simp [links, hrest]⟩
    · exact .inr (by simp [nesting, links, nestingList, linksList, hlink])
  | [] | [_] | _ :: _ :: _ :: _ => exact .inr ⟨rfl, rfl⟩

theorem nesting_compound_le (h : ∀ a ∈ args, a.nesting ≤ n) :
    (compound name args).nesting ≤ n + 1 := by
  obtain ⟨item, rest, -, rfl, -, hnesting, -⟩ | ⟨hnesting, -⟩ := nesting_compound_cases name args
  · obtain ⟨hitem, hrest⟩ : item.nesting ≤ n ∧ rest.nesting ≤ n := by simpa using h
    omega
  · rw [hnesting]
    exact Nat.succ_le_succ (nestingList_le.mpr h)

theorem nesting_le_compound (h : t ∈ args) : t.nesting ≤ (compound name args).nesting := by
  obtain ⟨item, rest, -, rfl, -, hnesting, -⟩ | ⟨hnesting, -⟩ := nesting_compound_cases name args
  · obtain rfl | rfl : t = item ∨ t = rest := by simpa using h
    all_goals omega
  · have := nestingList_le.mp (Nat.le_refl _) t h
    omega

/-- The items of a list are one level below it, and so is what it ends in. -/
theorem nesting_list_le (hitems : ∀ t ∈ items, t.nesting ≤ n) (htail : tail.nesting ≤ n) :
    (list items tail).nesting ≤ n + 1 := by
  induction items with
  | nil => exact Nat.le_succ_of_le htail
  | cons item items ih =>
    obtain ⟨hitem, hitems⟩ := List.forall_mem_cons.mp hitems
    cases items with
    | nil => exact nesting_compound_le (by simpa using ⟨hitem, htail⟩)
    | cons item' items =>
      -- the rest of the list is a cell
      have hlink : (list (item :: item' :: items) tail).nesting =
          max (item.nesting + 1) (list (item' :: items) tail).nesting := by
        simp [list, nesting, isCell]
      have := ih hitems
      omega

theorem nesting_le_of_mem_subterms {s : Term} (h : s ∈ t.subterms) : s.nesting ≤ t.nesting := by
  induction t with
  | compound name args ih =>
    obtain rfl | hargs := List.mem_cons.mp h
    · exact Nat.le_refl _
    · rw [subtermsList_eq] at hargs
      obtain ⟨a, ha, hs⟩ := List.mem_flatMap.mp hargs
      exact (ih a ha hs).trans (nesting_le_compound ha)
  | _ =>
    obtain rfl : s = _ := List.mem_singleton.mp h
    exact Nat.le_refl _

/-- A branch is longer than the nesting by the steps along lists that it takes, at most. -/
theorem height_le (t : Term) : t.height ≤ t.nesting + t.links := by
  induction t with
  | compound name args ih =>
    obtain ⟨item, rest, -, rfl, -, hnesting, hlinks⟩ | ⟨hnesting, hlinks⟩ :=
      nesting_compound_cases name args
    · obtain ⟨hitem, hrest⟩ : item.height ≤ item.nesting + item.links ∧
        rest.height ≤ rest.nesting + rest.links := by simpa using ih
      have hheight : (compound name [item, rest]).height = max item.height rest.height + 1 := by
        simp [height, heightList]
      omega
    · have hargs : heightList args ≤ nestingList args + linksList args := by
        refine heightList_le.mpr fun a ha => (ih a ha).trans (Nat.add_le_add ?_ ?_)
        · exact nestingList_le.mp (Nat.le_refl _) a ha
        · exact linksList_le.mp (Nat.le_refl _) a ha
      rw [height]
      omega
  | _ => exact Nat.le_add_right _ _

/-- A list is higher than it is long. -/
theorem length_lt_height_list (items : List Term) (tail : Term) :
    items.length < (list items tail).height := by
  induction items with
  | nil => cases tail <;> simp [list, height]
  | cons item items ih =>
    have hheight : (list (item :: items) tail).height =
        max item.height (list items tail).height + 1 := by
      simp [list, height, heightList]
    rw [List.length_cons]
    omega

end Term

/-! ## Derivations -/

namespace Grammar

/-- Every cell of a list is at the level of the list. -/
theorem TermTree.nesting_value_le {t : TermTree} {n : Nat} (h : t.levels ≤ n) :
    t.value.nesting ≤ n := by
  have hitems {first : TermTree} {rest : List TermTree} {n : Nat}
      (hfirst : ∀ {n}, first.levels ≤ n → first.value.nesting ≤ n)
      (hrest : ∀ t ∈ rest, ∀ {n}, t.levels ≤ n → t.value.nesting ≤ n)
      (hlevels : ∀ t ∈ first :: rest, t.levels ≤ n) :
      ∀ t ∈ (first :: rest).map value, t.nesting ≤ n := by
    obtain ⟨hfirstLevels, hrestLevels⟩ := List.forall_mem_cons.mp hlevels
    refine List.forall_mem_map.mpr (List.forall_mem_cons.mpr ⟨hfirst hfirstLevels, ?_⟩)
    exact fun t ht => hrest t ht (hrestLevels t ht)
  induction t generalizing n with
  | atom | var | number | string | nil => exact h
  | compound name first rest ihf ihr =>
    obtain ⟨n, rfl⟩ := exists_of_levels_le h
    rw [value_compound]
    exact Term.nesting_compound_le (hitems ihf ihr (levels_compound_le.mp h))
  | list first rest ihf ihr =>
    obtain ⟨n, rfl⟩ := exists_of_levels_le h
    have hlevels := levels_list_le.mp h
    have hpos : 1 ≤ n := first.levels_pos.trans_le (hlevels first List.mem_cons_self)
    rw [value_list]
    exact Term.nesting_list_le (hitems ihf ihr hlevels) hpos
  | listTail first rest tail ihf ihr iht =>
    obtain ⟨n, rfl⟩ := exists_of_levels_le h
    obtain ⟨hlevels, htail⟩ := levels_listTail_le.mp h
    rw [value_listTail]
    exact Term.nesting_list_le (hitems ihf ihr hlevels) (iht htail)
  | paren inner ih => exact ih ((Nat.le_succ _).trans h)

theorem GoalTree.nesting_le {g : GoalTree} {n : Nat} (h : g.levels ≤ n) :
    ∀ t ∈ g.goal.subterms, t.nesting ≤ n := by
  have hterm {t : TermTree} (ht : t.levels ≤ n) : ∀ s ∈ t.value.subterms, s.nesting ≤ n :=
    fun s hs => (Term.nesting_le_of_mem_subterms hs).trans (TermTree.nesting_value_le ht)
  induction g with
  | not g ih => exact ih ((Nat.le_succ _).trans h)
  | call t => exact hterm h
  | unify l r | notUnify l r =>
    obtain ⟨hl, hr⟩ := max_le_iff.mp h
    exact List.forall_mem_append.mpr ⟨hterm hl, hterm hr⟩

theorem nesting_goals_le {gs : List GoalTree} {n : Nat} (h : highest GoalTree.levels gs ≤ n) :
    ∀ t ∈ (gs.map GoalTree.goal).flatMap Goal.subterms, t.nesting ≤ n := by
  rw [List.flatMap_map]
  intro t ht
  obtain ⟨g, hg, ht⟩ := List.mem_flatMap.mp ht
  exact GoalTree.nesting_le (highest_le.mp h g hg) t ht

end Grammar

theorem Clause.Derived.nesting_le {tokens : List Token} {c : Clause} (h : c.Derived tokens) :
    ∀ t ∈ c.subterms, t.nesting ≤ maxNesting := by
  obtain ⟨tree, -, rfl, -, -, hlevels⟩ := h
  have hhead {head : TermTree} (h : head.levels ≤ maxNesting) :
      ∀ t ∈ head.value.subterms, t.nesting ≤ maxNesting :=
    GoalTree.nesting_le (g := .call head) h
  cases tree with
  | fact head => exact List.forall_mem_append.mpr ⟨hhead hlevels, nofun⟩
  | rule head first rest =>
    obtain ⟨hlevels, hgoals⟩ := max_le_iff.mp hlevels
    exact List.forall_mem_append.mpr ⟨hhead hlevels, nesting_goals_le hgoals⟩

theorem Query.Derived.nesting_le {tokens : List Token} {q : Query} (h : q.Derived tokens) :
    ∀ t ∈ q.subterms, t.nesting ≤ maxNesting := by
  obtain ⟨tree, -, rfl, -, hlevels⟩ := h
  exact nesting_goals_le hlevels

/-! ## Texts -/

/-- A term at any depth of a clause or a query that has been read is nested no more than is allowed,
and its branches have no more constructors than that apart from the steps along lists. -/
theorem nesting_le_of_parse (text : String) :
    (∀ c, Clause.parse text = .ok c → ∀ t ∈ c.subterms,
      t.nesting ≤ maxNesting ∧ t.height ≤ maxNesting + t.links) ∧
    (∀ q, Query.parse text = .ok q → ∀ t ∈ q.subterms,
      t.nesting ≤ maxNesting ∧ t.height ≤ maxNesting + t.links) := by
  have hheight {t : Term} (h : t.nesting ≤ maxNesting) :
      t.nesting ≤ maxNesting ∧ t.height ≤ maxNesting + t.links :=
    ⟨h, t.height_le.trans (Nat.add_le_add_right h _)⟩
  constructor
  · intro c hparse t ht
    obtain ⟨tokens, -, hderived⟩ := Clause.parse_iff_scans.mp hparse
    exact hheight (hderived.nesting_le t ht)
  · intro q hparse t ht
    obtain ⟨tokens, -, hderived⟩ := Query.parse_iff_scans.mp hparse
    exact hheight (hderived.nesting_le t ht)

/-- A list with another one among its three items: two steps lead from cell to cell, and a branch
that takes them is longer than the nesting says. -/
theorem nesting_le_of_parse_likes :
    let text := "likes(X, [a, [b], f(Y)]) :- \\+ hates(X, [c | Y])."
    let c := (Clause.parse text).toOption.getD ⟨.nil, []⟩
    Clause.parse text = .ok c ∧ c.head.nesting = 4 ∧ c.head.height = 6 ∧ c.head.links = 2 ∧
    (∀ t ∈ c.subterms, t.nesting ≤ maxNesting ∧ t.height ≤ maxNesting + t.links) ∧
    Query.parse "\\+ X = [a, b]" =
      .ok ⟨[.not (.unify (.var "X") (.list [.atom "a", .atom "b"] .nil))]⟩ ∧
    ∀ t ∈ [Term.var "X", .list [.atom "a", .atom "b"] .nil],
      t.nesting ≤ maxNesting ∧ t.height ≤ maxNesting + t.links := by
  intro text c
  have hparse : Clause.parse text = .ok c := eq_ok_getD (by decide +kernel) _
  have hquery : Query.parse "\\+ X = [a, b]" =
      .ok ⟨[.not (.unify (.var "X") (.list [.atom "a", .atom "b"] .nil))]⟩ := by decide +kernel
  refine ⟨hparse, by decide +kernel, by decide +kernel, by decide +kernel,
    (nesting_le_of_parse text).1 c hparse, hquery, fun t ht => ?_⟩
  refine (nesting_le_of_parse _).2 _ hquery t ?_
  obtain rfl | rfl : t = .var "X" ∨ t = .list [.atom "a", .atom "b"] .nil := by simpa using ht
  all_goals decide

/-! ## Long lists -/

section LongLists

variable {levels : Nat}

def TermText.list (first : TermText levels) (rest : List (TermText levels)) :
    TermText (levels + 1) where
  text := "[" ++ ", ".intercalate ((first :: rest).map TermText.text) ++ "]"
  tokens := .leftBracket :: (commas TermText.tokens first rest ++ [.rightBracket])
  term := .list ((first :: rest).map TermText.term) .nil
  embeds := by
    intro after ts hafter hscans
    have hitems : Embeds (", ".intercalate ((first :: rest).map TermText.text))
        (commas TermText.tokens first rest) := .commas first.embeds fun p _ => p.embeds
    have hlist := (hitems (']' :: after) _ (.cons (by decide)) hscans.rightBracket).leftBracket
    simpa using hlist
  derived := .list fun p _ => p.derived

/-- A list of atoms is read, however long it is. -/
theorem Clause.parse_replicate (n : Nat) :
    Clause.parse ("p([" ++ ", ".intercalate (.replicate (n + 1) "a") ++ "]).") =
      .ok ⟨.compound "p" [.list (.replicate (n + 1) (.atom "a")) .nil], []⟩ := by
  let item : TermText (253 + 1) := .applied "a" (by decide) []
  let p : TermText maxNesting := .applied "p" (by decide) [.list item (.replicate n item)]
  have hparse : Clause.parse (p.text ++ ".") = .ok (.ofTerms p.term []) :=
    p.parse_fact TermText.isCall_applied.callable
  have htext : p.text ++ "." = "p([" ++ ", ".intercalate (.replicate (n + 1) "a") ++ "])." := by
    have hopen (s : String) : "p(" ++ ("[" ++ s) = "p([" ++ s := (String.append_assoc ..).symm
    simp [p, item, hopen, TermText.applied, TermText.list, List.replicate_succ, String.append_assoc]
  have hitems : (item :: List.replicate n item).map TermText.term =
      .replicate (n + 1) (.atom "a") := by
    simp [item, TermText.applied, List.replicate_succ]
  have hrenumber (k : Nat) : Term.renumberList k (.replicate (n + 1) (.atom "a")) =
      .replicate (n + 1) (.atom "a") := by
    refine Term.renumberList_eq_self (fun t ht k => ?_) k
    rw [List.eq_of_mem_replicate ht]
    rfl
  have hterm : Clause.ofTerms p.term [] =
      ⟨.compound "p" [.list (.replicate (n + 1) (.atom "a")) .nil], []⟩ := by
    simp [p, TermText.applied, TermText.list, hitems, hrenumber, Clause.ofTerms, Term.renumberFrom,
      Term.renumberList, Term.renumberFrom_list, Term.nil]
  rw [← htext, hparse, hterm]

theorem Term.lt_height_compound_list (name : String) (items : List Term) (tail : Term) :
    items.length + 1 < (compound name [list items tail]).height := by
  have hlist := length_lt_height_list items tail
  have hheight : (compound name [list items tail]).height = (list items tail).height + 1 := by
    simp [height, heightList]
  omega

/-- A list with as many items as there may be levels is a higher term than that. -/
theorem height_parse_replicate :
    let c : Clause := ⟨.compound "p" [.list (.replicate 256 (.atom "a")) .nil], []⟩
    Clause.parse ("p([" ++ ", ".intercalate (.replicate 256 "a") ++ "]).") = .ok c ∧
    c.head ∈ c.subterms ∧ maxNesting < c.head.height := by
  intro c
  refine ⟨Clause.parse_replicate 255, List.mem_append_left _ (Term.self_mem_subterms _), ?_⟩
  have hheight : (List.replicate 256 (Term.atom "a")).length + 1 < c.head.height :=
    Term.lt_height_compound_list "p" _ .nil
  rw [List.length_replicate] at hheight
  exact Nat.lt_of_succ_lt hheight

end LongLists

end OntoLogic
