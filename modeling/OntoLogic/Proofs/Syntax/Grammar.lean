-- SUMMARY: The grammar of clauses and queries as trees; a tree is determined by its tokens.
import OntoLogic.Proofs.Syntax.Variables

/-!
# The grammar

A derivation in the grammar of clauses and queries is a tree with one constructor for each
alternative. Its tokens, read from left to right, are what is derived. Its value is the term, goal,
clause or query that it stands for; parentheses leave no trace there. Its levels are those of its
highest branch, where every term and every negation counts.

The grammar is unambiguous: no token sequence has two derivations. A term alone may be the beginning
of another one, but not where what follows does not begin with a parenthesis, and so on.
-/

namespace OntoLogic.Grammar

/-! ## Sequences -/

section Sequences

variable {α : Type}

/-- The tokens of one item or more, separated by commas. -/
def commas (tokens : α → List Token) (first : α) (rest : List α) : List Token :=
  tokens first ++ rest.flatMap fun x => .comma :: tokens x

theorem commas_nil (tokens : α → List Token) (first : α) :
    commas tokens first [] = tokens first := by
  simp [commas]

theorem commas_cons (tokens : α → List Token) (first x : α) (xs : List α) :
    commas tokens first (x :: xs) = tokens first ++ .comma :: commas tokens x xs := by
  simp [commas]

theorem length_le_length_commas (tokens : α → List Token) (first : α) (xs : List α) :
    xs.length ≤ (commas tokens first xs).length := by
  induction xs generalizing first with
  | nil => exact Nat.zero_le _
  | cons x xs ih =>
    have := ih x
    simp only [commas_cons, List.length_append, List.length_cons]
    omega

/-- The levels of the highest item. -/
def highest (levels : α → Nat) (xs : List α) : Nat :=
  xs.foldr (fun x n => max (levels x) n) 0

theorem highest_le {levels : α → Nat} {xs : List α} {n : Nat} :
    highest levels xs ≤ n ↔ ∀ x ∈ xs, levels x ≤ n := by
  induction xs with
  | nil => simp [highest]
  | cons x xs ih => simpa [highest] using fun _ => ih

end Sequences

/-! ## Trees -/

/-- A derivation of a term. -/
inductive TermTree where
  | atom (name : String)
  | compound (name : String) (first : TermTree) (rest : List TermTree)
  | var (name : String)
  | number (spelling : String)
  | string (text : String)
  | nil
  | list (first : TermTree) (rest : List TermTree)
  | listTail (first : TermTree) (rest : List TermTree) (tail : TermTree)
  | paren (inner : TermTree)

inductive GoalTree where
  | not (g : GoalTree)
  | call (t : TermTree)
  | unify (l r : TermTree)
  | notUnify (l r : TermTree)

inductive ClauseTree where
  | fact (head : TermTree)
  | rule (head : TermTree) (first : GoalTree) (rest : List GoalTree)

/-- A derivation of a query, with a period at its end or without. -/
structure QueryTree where
  first : GoalTree
  rest : List GoalTree
  period : Bool

/-! ## Tokens, values and levels -/

namespace TermTree

mutual

def tokens : TermTree → List Token
  | .atom name => [.atom name]
  | .compound name first rest =>
    .atom name :: .leftParen :: (tokens first ++ tokensList rest ++ [.rightParen])
  | .var name => [.var name]
  | .number spelling => [.number spelling]
  | .string text => [.string text]
  | .nil => [.leftBracket, .rightBracket]
  | .list first rest => .leftBracket :: (tokens first ++ tokensList rest ++ [.rightBracket])
  | .listTail first rest tail =>
    .leftBracket :: (tokens first ++ tokensList rest ++ .bar :: (tokens tail ++ [.rightBracket]))
  | .paren inner => .leftParen :: (tokens inner ++ [.rightParen])

def tokensList : List TermTree → List Token
  | [] => []
  | t :: ts => .comma :: (tokens t ++ tokensList ts)

end

mutual

def value : TermTree → Term
  | .atom name => .atom name
  | .compound name first rest => .compound name (value first :: valueList rest)
  | .var name => .var name
  | .number spelling => .number spelling
  | .string text => .string text
  | .nil => .nil
  | .list first rest => .list (value first :: valueList rest) .nil
  | .listTail first rest tail => .list (value first :: valueList rest) (value tail)
  | .paren inner => value inner

def valueList : List TermTree → List Term
  | [] => []
  | t :: ts => value t :: valueList ts

end

mutual

/-- How many terms are nested. -/
def levels : TermTree → Nat
  | .atom _ | .var _ | .number _ | .string _ | .nil => 1
  | .compound _ first rest | .list first rest => max (levels first) (levelsList rest) + 1
  | .listTail first rest tail => max (max (levels first) (levelsList rest)) (levels tail) + 1
  | .paren inner => levels inner + 1

/-- How many terms are nested in one of several. -/
def levelsList : List TermTree → Nat
  | [] => 0
  | t :: ts => max (levels t) (levelsList ts)

end

/-- Induction on a derivation with one hypothesis for all further arguments or items. -/
@[elab_as_elim, induction_eliminator]
theorem induct {motive : TermTree → Prop} (atom : ∀ name, motive (.atom name))
    (compound : ∀ name first rest, motive first → (∀ t ∈ rest, motive t) →
      motive (.compound name first rest))
    (var : ∀ name, motive (.var name)) (number : ∀ spelling, motive (.number spelling))
    (string : ∀ text, motive (.string text)) (nil : motive .nil)
    (list : ∀ first rest, motive first → (∀ t ∈ rest, motive t) → motive (.list first rest))
    (listTail : ∀ first rest tail, motive first → (∀ t ∈ rest, motive t) → motive tail →
      motive (.listTail first rest tail))
    (paren : ∀ inner, motive inner → motive (.paren inner)) (t : TermTree) : motive t := by
  refine @TermTree.rec motive (fun ts => ∀ t ∈ ts, motive t) atom compound var number string nil
    list (fun first rest tail hf hr ht => listTail first rest tail hf hr ht) paren
    (fun a h => nomatch h) (fun t ts ht hts a h => ?_) t
  cases h with
  | head => exact ht
  | tail _ h => exact hts a h

theorem tokensList_eq (ts : List TermTree) :
    tokensList ts = ts.flatMap fun t => .comma :: t.tokens := by
  induction ts with
  | nil => rfl
  | cons t ts ih =>
    rw [List.flatMap_cons, ← ih]
    rfl

theorem valueList_eq (ts : List TermTree) : valueList ts = ts.map value := by
  induction ts with
  | nil => rfl
  | cons t ts ih =>
    rw [List.map_cons, ← ih]
    rfl

theorem levelsList_eq (ts : List TermTree) : levelsList ts = highest levels ts := by
  induction ts with
  | nil => rfl
  | cons t ts ih => exact congrArg (max t.levels) ih

variable {name : String} {first tail inner : TermTree} {rest : List TermTree} {n : Nat}

@[simp] theorem tokens_atom : (atom name).tokens = [.atom name] := rfl
@[simp] theorem tokens_var : (var name).tokens = [.var name] := rfl
@[simp] theorem tokens_number : (number name).tokens = [.number name] := rfl
@[simp] theorem tokens_string : (string name).tokens = [.string name] := rfl
@[simp] theorem tokens_nil : nil.tokens = [.leftBracket, .rightBracket] := rfl

@[simp] theorem tokens_paren :
    (paren inner).tokens = .leftParen :: (inner.tokens ++ [.rightParen]) := rfl

theorem tokens_items : first.tokens ++ tokensList rest = commas tokens first rest := by
  rw [tokensList_eq, commas]

@[simp] theorem tokens_compound : (compound name first rest).tokens =
    .atom name :: .leftParen :: (commas tokens first rest ++ [.rightParen]) := by
  rw [← tokens_items]
  rfl

@[simp] theorem tokens_list : (list first rest).tokens =
    .leftBracket :: (commas tokens first rest ++ [.rightBracket]) := by
  rw [← tokens_items]
  rfl

@[simp] theorem tokens_listTail : (listTail first rest tail).tokens =
    .leftBracket :: (commas tokens first rest ++ .bar :: (tail.tokens ++ [.rightBracket])) := by
  rw [← tokens_items]
  rfl

theorem value_items : first.value :: valueList rest = (first :: rest).map value := by
  rw [valueList_eq, List.map_cons]

@[simp] theorem value_compound :
    (compound name first rest).value = .compound name ((first :: rest).map value) := by
  rw [← value_items]
  rfl

@[simp] theorem value_list : (list first rest).value = .list ((first :: rest).map value) .nil := by
  rw [← value_items]
  rfl

@[simp] theorem value_listTail :
    (listTail first rest tail).value = .list ((first :: rest).map value) tail.value := by
  rw [← value_items]
  rfl

theorem levels_items_le :
    max first.levels (levelsList rest) ≤ n ↔ ∀ t ∈ first :: rest, t.levels ≤ n := by
  rw [Nat.max_le, levelsList_eq, highest_le, List.forall_mem_cons]

@[simp] theorem levels_compound_le :
    (compound name first rest).levels ≤ n + 1 ↔ ∀ t ∈ first :: rest, t.levels ≤ n :=
  Nat.add_le_add_iff_right.trans levels_items_le

@[simp] theorem levels_list_le :
    (list first rest).levels ≤ n + 1 ↔ ∀ t ∈ first :: rest, t.levels ≤ n :=
  Nat.add_le_add_iff_right.trans levels_items_le

@[simp] theorem levels_listTail_le : (listTail first rest tail).levels ≤ n + 1 ↔
    (∀ t ∈ first :: rest, t.levels ≤ n) ∧ tail.levels ≤ n :=
  Nat.add_le_add_iff_right.trans (Nat.max_le.trans (and_congr_left' levels_items_le))

theorem levels_pos (t : TermTree) : 0 < t.levels := by
  cases t <;> exact Nat.succ_pos _

end TermTree

namespace GoalTree

def tokens : GoalTree → List Token
  | .not g => .not :: g.tokens
  | .call t => t.tokens
  | .unify l r => l.tokens ++ .eq :: r.tokens
  | .notUnify l r => l.tokens ++ .notEq :: r.tokens

def goal : GoalTree → Goal
  | .not g => .not g.goal
  | .call t => .call t.value
  | .unify l r => .unify l.value r.value
  | .notUnify l r => .notUnify l.value r.value

/-- How many terms and negations are nested. -/
def levels : GoalTree → Nat
  | .not g => g.levels + 1
  | .call t => t.levels
  | .unify l r | .notUnify l r => max l.levels r.levels

@[simp] theorem tokens_not (g : GoalTree) : (not g).tokens = .not :: g.tokens := rfl
@[simp] theorem tokens_call (t : TermTree) : (call t).tokens = t.tokens := rfl
@[simp] theorem tokens_unify (l r : TermTree) :
    (unify l r).tokens = l.tokens ++ .eq :: r.tokens := rfl
@[simp] theorem tokens_notUnify (l r : TermTree) :
    (notUnify l r).tokens = l.tokens ++ .notEq :: r.tokens := rfl

end GoalTree

namespace ClauseTree

def tokens : ClauseTree → List Token
  | .fact head => head.tokens ++ [.period]
  | .rule head first rest =>
    head.tokens ++ .neck :: (commas GoalTree.tokens first rest ++ [.period])

def clause : ClauseTree → Clause
  | .fact head => ⟨head.value, []⟩
  | .rule head first rest => ⟨head.value, (first :: rest).map GoalTree.goal⟩

def levels : ClauseTree → Nat
  | .fact head => head.levels
  | .rule head first rest => max head.levels (highest GoalTree.levels (first :: rest))

end ClauseTree

namespace QueryTree

def tokens (t : QueryTree) : List Token :=
  commas GoalTree.tokens t.first t.rest ++ if t.period then [.period] else []

def query (t : QueryTree) : Query where
  goals := (t.first :: t.rest).map GoalTree.goal

def levels (t : QueryTree) : Nat :=
  highest GoalTree.levels (t.first :: t.rest)

end QueryTree

/-! ## What follows -/

/-- A token sequence does not go on with one of some tokens. -/
def Stops (tokens rest : List Token) : Prop :=
  ∀ token ∈ tokens, ∀ ts, rest ≠ token :: ts

@[simp] theorem stops_nil {tokens : List Token} : Stops tokens [] :=
  fun _ _ _ => nofun

@[simp] theorem stops_cons {tokens rest : List Token} {token : Token} :
    Stops tokens (token :: rest) ↔ token ∉ tokens := by
  refine ⟨fun h hmem => h token hmem rest rfl, fun h t ht ts heq => ?_⟩
  cases heq
  exact h ht

theorem Stops.mono {tokens tokens' rest : List Token} (h : Stops tokens' rest)
    (hsub : tokens ⊆ tokens') : Stops tokens rest :=
  fun token ht => h token (hsub ht)

/-! ## Unambiguity -/

/-- The tokens that make more of a term when they follow it. -/
def afterTerm : List Token := [.leftParen]

/-- The tokens that make more of a goal when they follow it. -/
def afterGoal : List Token := [.leftParen, .eq, .notEq]

/-- Something is determined by its tokens and by where they stop. -/
def Determined {α : Type} (tokens : α → List Token) (after : List Token) (x : α) : Prop :=
  ∀ x' rest rest', tokens x ++ rest = tokens x' ++ rest' → Stops after rest → Stops after rest' →
    x = x' ∧ rest = rest'

section Determined

variable {α : Type} {tokens : α → List Token} {after : List Token} {x x' : α} {a a' : Token}
  {rest rest' : List Token}

/-- The token after something is determined too when it does not make more of it. -/
theorem Determined.cons (hx : Determined tokens after x) (ha : a ∉ after) (ha' : a' ∉ after)
    (h : tokens x ++ a :: rest = tokens x' ++ a' :: rest') : x = x' ∧ a = a' ∧ rest = rest' := by
  obtain ⟨rfl, hrest⟩ := hx _ _ _ h (stops_cons.mpr ha) (stops_cons.mpr ha')
  exact ⟨rfl, List.cons.inj hrest⟩

theorem Determined.commas {first first' : α} {xs xs' : List α} (hcomma : .comma ∉ after)
    (hfirst : Determined tokens after first) (hxs : ∀ x ∈ xs, Determined tokens after x)
    (h : commas tokens first xs ++ rest = commas tokens first' xs' ++ rest')
    (hrest : Stops (.comma :: after) rest) (hrest' : Stops (.comma :: after) rest') :
    first = first' ∧ xs = xs' ∧ rest = rest' := by
  have hsub : after ⊆ .comma :: after := List.subset_cons_self _ _
  induction xs generalizing first first' xs' with
  | nil =>
    cases xs' with
    | nil =>
      rw [commas_nil, commas_nil] at h
      obtain ⟨rfl, rfl⟩ := hfirst _ _ _ h (hrest.mono hsub) (hrest'.mono hsub)
      exact ⟨rfl, rfl, rfl⟩
    | cons x' xs' =>
      rw [commas_nil, commas_cons, List.append_assoc, List.cons_append] at h
      obtain ⟨-, rfl⟩ := hfirst _ _ _ h (hrest.mono hsub) (stops_cons.mpr hcomma)
      simp at hrest
  | cons x xs ih =>
    obtain ⟨hx, hxs⟩ := List.forall_mem_cons.mp hxs
    cases xs' with
    | nil =>
      rw [commas_nil, commas_cons, List.append_assoc, List.cons_append] at h
      obtain ⟨-, rfl⟩ := hfirst _ _ _ h (stops_cons.mpr hcomma) (hrest'.mono hsub)
      simp at hrest'
    | cons x' xs' =>
      rw [commas_cons, commas_cons, List.append_assoc, List.append_assoc] at h
      obtain ⟨rfl, -, htail⟩ := hfirst.cons hcomma hcomma h
      obtain ⟨rfl, rfl, rfl⟩ := ih hx hxs htail
      exact ⟨rfl, rfl, rfl⟩

theorem Determined.commas_cons {first first' : α} {xs xs' : List α} (hcomma : .comma ∉ after)
    (hfirst : Determined tokens after first) (hxs : ∀ x ∈ xs, Determined tokens after x)
    (ha : a ∉ .comma :: after) (ha' : a' ∉ .comma :: after)
    (h : Grammar.commas tokens first xs ++ a :: rest =
      Grammar.commas tokens first' xs' ++ a' :: rest') :
    first = first' ∧ xs = xs' ∧ a = a' ∧ rest = rest' := by
  obtain ⟨rfl, rfl, hrest⟩ :=
    hfirst.commas hcomma hxs h (stops_cons.mpr ha) (stops_cons.mpr ha')
  exact ⟨rfl, rfl, List.cons.inj hrest⟩

end Determined

/-- Whether a term may begin with a token. -/
def opensTerm : Token → Bool
  | .atom _ | .var _ | .number _ | .string _ | .leftBracket | .leftParen => true
  | _ => false

theorem TermTree.exists_tokens (t : TermTree) :
    ∃ token ts, t.tokens = token :: ts ∧ opensTerm token = true := by
  cases t <;> exact ⟨_, _, rfl, rfl⟩

theorem TermTree.tokens_ne {t : TermTree} {token : Token} {rest rest' : List Token}
    (h : opensTerm token = false) : t.tokens ++ rest ≠ token :: rest' := by
  obtain ⟨token', ts, htokens, hopens⟩ := t.exists_tokens
  rw [htokens, List.cons_append]
  intro heq
  rw [(List.cons.inj heq).1, h] at hopens
  cases hopens

/-- A list that is not empty does not look like the empty list. -/
theorem commas_ne_rightBracket {first : TermTree} {xs : List TermTree} {rest rest' : List Token} :
    commas TermTree.tokens first xs ++ rest ≠ .rightBracket :: rest' := by
  rw [commas, List.append_assoc]
  exact TermTree.tokens_ne rfl

theorem GoalTree.tokens_ne {g : GoalTree} {token : Token} {rest rest' : List Token}
    (h : opensTerm token = false) (hnot : ∀ g', g = .not g' → token ≠ .not) :
    g.tokens ++ rest ≠ token :: rest' := by
  cases g with
  | not g =>
    intro heq
    exact hnot g rfl (List.cons.inj heq).1.symm
  | call t => exact TermTree.tokens_ne h
  | unify l r | notUnify l r =>
    rw [tokens, List.append_assoc]
    exact TermTree.tokens_ne h

theorem GoalTree.tokens_ne_nil (g : GoalTree) : g.tokens ≠ [] := by
  cases g with
  | call t =>
    obtain ⟨token, ts, htokens, -⟩ := t.exists_tokens
    simp [htokens]
  | _ => simp

theorem TermTree.determined (t : TermTree) : Determined tokens afterTerm t := by
  have hcomma : Token.comma ∉ afterTerm := by decide
  induction t with
  | atom name =>
    intro t' rest rest' h hrest hrest'
    cases t' with
    | atom name' => simpa using h
    | compound name' first args =>
      obtain ⟨-, rfl⟩ : name = name' ∧ rest = .leftParen :: _ := by simpa using h
      exact absurd hrest (by simp [afterTerm])
    | _ => simp at h
  | compound name first args ihf iha =>
    intro t' rest rest' h hrest hrest'
    cases t' with
    | atom name' =>
      obtain ⟨-, rfl⟩ : name = name' ∧ .leftParen :: _ = rest' := by simpa using h
      exact absurd hrest' (by simp [afterTerm])
    | compound name' first' args' =>
      obtain ⟨rfl, hargs⟩ : name = name' ∧ commas tokens first args ++ .rightParen :: rest =
        commas tokens first' args' ++ .rightParen :: rest' := by simpa using h
      obtain ⟨rfl, rfl, -, rfl⟩ := ihf.commas_cons hcomma iha (by decide) (by decide) hargs
      exact ⟨rfl, rfl⟩
    | _ => simp at h
  | var name | number spelling | string text =>
    intro t' rest rest' h hrest hrest'
    cases t' <;> simp_all
  | nil =>
    intro t' rest rest' h hrest hrest'
    cases t' with
    | nil => simpa using h
    | list | listTail =>
      simp only [tokens_nil, tokens_list, tokens_listTail, List.cons_append, List.append_assoc,
        List.cons.injEq, true_and] at h
      exact absurd h.symm commas_ne_rightBracket
    | _ => simp at h
  | list first args ihf iha =>
    intro t' rest rest' h hrest hrest'
    cases t' with
    | nil =>
      simp only [tokens_nil, tokens_list, List.cons_append, List.append_assoc, List.cons.injEq,
        true_and] at h
      exact absurd h commas_ne_rightBracket
    | list first' args' =>
      have hitems : commas tokens first args ++ .rightBracket :: rest =
        commas tokens first' args' ++ .rightBracket :: rest' := by simpa using h
      obtain ⟨rfl, rfl, -, rfl⟩ := ihf.commas_cons hcomma iha (by decide) (by decide) hitems
      exact ⟨rfl, rfl⟩
    | listTail first' args' tail' =>
      have hitems : commas tokens first args ++ .rightBracket :: rest =
        commas tokens first' args' ++ .bar :: (tail'.tokens ++ .rightBracket :: rest') := by
        simpa using h
      obtain ⟨-, -, hclose, -⟩ := ihf.commas_cons hcomma iha (by decide) (by decide) hitems
      cases hclose
    | _ => simp at h
  | listTail first args tail ihf iha iht =>
    intro t' rest rest' h hrest hrest'
    cases t' with
    | nil =>
      simp only [tokens_nil, tokens_listTail, List.cons_append, List.append_assoc, List.cons.injEq,
        true_and] at h
      exact absurd h commas_ne_rightBracket
    | list first' args' =>
      have hitems : commas tokens first args ++ .bar :: (tail.tokens ++ .rightBracket :: rest) =
        commas tokens first' args' ++ .rightBracket :: rest' := by simpa using h
      obtain ⟨-, -, hclose, -⟩ := ihf.commas_cons hcomma iha (by decide) (by decide) hitems
      cases hclose
    | listTail first' args' tail' =>
      have hitems : commas tokens first args ++ .bar :: (tail.tokens ++ .rightBracket :: rest) =
        commas tokens first' args' ++ .bar :: (tail'.tokens ++ .rightBracket :: rest') := by
        simpa using h
      obtain ⟨rfl, rfl, -, htail⟩ := ihf.commas_cons hcomma iha (by decide) (by decide) hitems
      obtain ⟨rfl, -, rfl⟩ := iht.cons (by decide) (by decide) htail
      exact ⟨rfl, rfl⟩
    | _ => simp at h
  | paren inner ih =>
    intro t' rest rest' h hrest hrest'
    cases t' with
    | paren inner' =>
      have hinner : inner.tokens ++ .rightParen :: rest =
        inner'.tokens ++ .rightParen :: rest' := by simpa using h
      obtain ⟨rfl, -, rfl⟩ := ih.cons (by decide) (by decide) hinner
      exact ⟨rfl, rfl⟩
    | _ => simp at h

/-- The two terms of an equation are determined, and so is whether it is negated. -/
theorem TermTree.determined_infix {l r l' r' : TermTree} {op op' : Token} {rest rest' : List Token}
    (hop : op ∉ afterTerm) (hop' : op' ∉ afterTerm) (hrest : Stops afterTerm rest)
    (hrest' : Stops afterTerm rest')
    (h : l.tokens ++ op :: r.tokens ++ rest = l'.tokens ++ op' :: r'.tokens ++ rest') :
    l = l' ∧ op = op' ∧ r = r' ∧ rest = rest' := by
  simp only [List.append_assoc, List.cons_append] at h
  obtain ⟨rfl, rfl, hright⟩ := l.determined.cons hop hop' h
  obtain ⟨rfl, rfl⟩ := r.determined _ _ _ hright hrest hrest'
  exact ⟨rfl, rfl, rfl, rfl⟩

/-- A term is not the left side of an equation when nothing follows it that makes more of a goal. -/
theorem TermTree.tokens_ne_infix {t l r : TermTree} {op : Token} {rest rest' : List Token}
    (hop : op ∉ afterTerm) (hgoal : op ∈ afterGoal) (hrest : Stops afterGoal rest) :
    t.tokens ++ rest ≠ l.tokens ++ op :: r.tokens ++ rest' := by
  intro h
  rw [List.append_assoc, List.cons_append] at h
  have hsub : afterTerm ⊆ afterGoal := by decide
  obtain ⟨-, rfl⟩ := t.determined _ _ _ h (hrest.mono hsub) (stops_cons.mpr hop)
  exact stops_cons.mp hrest hgoal

theorem GoalTree.determined (g : GoalTree) : Determined tokens afterGoal g := by
  have hsub : afterTerm ⊆ afterGoal := by decide
  induction g with
  | not g ih =>
    intro g' rest rest' h hrest hrest'
    cases g' with
    | not g' =>
      obtain ⟨rfl, rfl⟩ := ih g' rest rest' (by simpa using h) hrest hrest'
      exact ⟨rfl, rfl⟩
    | call | unify | notUnify =>
      simp only [tokens_not, tokens_call, tokens_unify, tokens_notUnify, List.append_assoc,
        List.cons_append] at h
      exact absurd h.symm (TermTree.tokens_ne rfl)
  | call t =>
    intro g' rest rest' h hrest hrest'
    cases g' with
    | not g' => exact absurd h (TermTree.tokens_ne rfl)
    | call t' =>
      obtain ⟨rfl, rfl⟩ := t.determined _ _ _ h (hrest.mono hsub) (hrest'.mono hsub)
      exact ⟨rfl, rfl⟩
    | unify l' r' | notUnify l' r' =>
      exact absurd h (TermTree.tokens_ne_infix (by decide) (by decide) hrest)
  | unify l r | notUnify l r =>
    intro g' rest rest' h hrest hrest'
    cases g' with
    | not g' =>
      simp only [tokens_unify, tokens_notUnify, List.append_assoc] at h
      exact absurd h (TermTree.tokens_ne rfl)
    | call t' => exact absurd h.symm (TermTree.tokens_ne_infix (by decide) (by decide) hrest')
    | unify l' r' | notUnify l' r' =>
      obtain ⟨rfl, hop, rfl, rfl⟩ := TermTree.determined_infix (by decide) (by decide)
        (hrest.mono hsub) (hrest'.mono hsub) h
      cases hop <;> exact ⟨rfl, rfl⟩

/-- A clause has one derivation. -/
theorem ClauseTree.unique {t t' : ClauseTree} (h : t.tokens = t'.tokens) : t = t' := by
  have hneck : Token.neck ∉ afterTerm := by decide
  have hperiod : Token.period ∉ afterTerm := by decide
  cases t with
  | fact head =>
    cases t' with
    | fact head' =>
      obtain ⟨rfl, -⟩ := head.determined.cons hperiod hperiod h
      rfl
    | rule head' first' rest' =>
      obtain ⟨-, hend, -⟩ := head.determined.cons hperiod hneck h
      cases hend
  | rule head first rest =>
    cases t' with
    | fact head' =>
      obtain ⟨-, hend, -⟩ := head.determined.cons hneck hperiod h
      cases hend
    | rule head' first' rest' =>
      obtain ⟨rfl, -, hbody⟩ := head.determined.cons hneck hneck h
      obtain ⟨rfl, rfl, -⟩ := first.determined.commas_cons (by decide) (fun g _ => g.determined)
        (by decide) (by decide) hbody
      rfl

/-- A query has one derivation. -/
theorem QueryTree.unique {t t' : QueryTree} (h : t.tokens = t'.tokens) : t = t' := by
  have hstops (b : Bool) : Stops (.comma :: afterGoal) (if b then [.period] else []) := by
    cases b <;> simp [afterGoal]
  obtain ⟨first, rest, period⟩ := t
  obtain ⟨first', rest', period'⟩ := t'
  obtain ⟨rfl, rfl, hperiod⟩ := Determined.commas (by decide) first.determined
    (fun g _ => g.determined) h (hstops period) (hstops period')
  cases period <;> cases period' <;> simp_all

/-! ## Variables -/

def varNames (tokens : List Token) : List String :=
  tokens.filterMap fun
    | .var name => some name
    | _ => none

@[simp] theorem varNames_append (ts us : List Token) :
    varNames (ts ++ us) = varNames ts ++ varNames us :=
  List.filterMap_append

theorem varNames_commas {α : Type} (tokens : α → List Token) (first : α) (xs : List α) :
    varNames (commas tokens first xs) = (first :: xs).flatMap fun x => varNames (tokens x) := by
  simp [varNames, commas, List.filterMap_flatMap]

/-- The variables of a term are those of its tokens, in their order. -/
theorem TermTree.occurrences_value (t : TermTree) : t.value.occurrences = varNames t.tokens := by
  have hcommas : ∀ {first : TermTree} {rest : List TermTree},
      first.value.occurrences = varNames first.tokens →
      (∀ t ∈ rest, t.value.occurrences = varNames t.tokens) →
      ((first :: rest).map value).flatMap Term.occurrences =
        varNames (commas tokens first rest) := by
    intro first rest hfirst hrest
    rw [varNames_commas, List.flatMap_map]
    exact List.flatMap_congr (List.forall_mem_cons.mpr ⟨hfirst, hrest⟩)
  induction t with
  | compound name first rest ihf ihr =>
    rw [value_compound, Term.occurrences_compound, hcommas ihf ihr]
    simp [varNames]
  | list first rest ihf ihr =>
    rw [value_list, Term.occurrences_list, hcommas ihf ihr]
    simp [varNames, Term.nil]
  | listTail first rest tail ihf ihr iht =>
    rw [value_listTail, Term.occurrences_list, hcommas ihf ihr, iht]
    simp [varNames]
  | paren inner ih =>
    simp only [value, ih]
    simp [varNames]
  | _ => rfl

theorem GoalTree.occurrences_goal (g : GoalTree) : g.goal.occurrences = varNames g.tokens := by
  induction g with
  | not g ih => exact ih
  | call t => exact t.occurrences_value
  | unify l r | notUnify l r =>
    simp only [goal, Goal.occurrences, TermTree.occurrences_value]
    simp [varNames]

theorem occurrences_goals (first : GoalTree) (rest : List GoalTree) :
    ((first :: rest).map GoalTree.goal).flatMap Goal.occurrences =
      varNames (commas GoalTree.tokens first rest) := by
  rw [varNames_commas, List.flatMap_map]
  exact List.flatMap_congr fun g _ => g.occurrences_goal

theorem ClauseTree.occurrences_clause (t : ClauseTree) :
    t.clause.head.occurrences ++ t.clause.body.flatMap Goal.occurrences = varNames t.tokens := by
  cases t with
  | fact head => simp [clause, tokens, TermTree.occurrences_value, varNames]
  | rule head first rest =>
    simp only [clause, tokens, TermTree.occurrences_value, occurrences_goals]
    simp [varNames]

theorem QueryTree.occurrences_query (t : QueryTree) :
    t.query.goals.flatMap Goal.occurrences = varNames t.tokens := by
  have hperiod : varNames (if t.period then [.period] else []) = [] := by
    cases t.period <;> rfl
  rw [tokens, varNames_append, hperiod, List.append_nil]
  exact occurrences_goals t.first t.rest

end OntoLogic.Grammar
