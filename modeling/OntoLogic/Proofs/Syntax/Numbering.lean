-- SUMMARY: The anonymous variables of a term get other numbers where the term stands after others.
import OntoLogic.Proofs.Syntax.Derivation
import OntoLogic.Proofs.Syntax.Scanning

/-!
# Numbers of anonymous variables

Each `_` of a text has as its number how many there are up to it. Where the tokens of a term stand
after others, its anonymous variables therefore have higher numbers than where they stand alone, and
nothing else of the term is different. So terms can be derived one by one and put side by side: they
are numbered anew, from left to right.
-/

namespace OntoLogic

open Grammar

/-- Whether a variable is written `_`. -/
def isAnonymous (name : String) : Bool :=
  varText name == "_"

/-! ## Terms -/

namespace Term

def anonymousCount (t : Term) : Nat :=
  t.occurrences.countP isAnonymous

mutual

/-- Numbers the anonymous variables of a term from left to right; so many have been numbered
before. -/
def renumberFrom : Nat → Term → Term
  | n, .var name => if isAnonymous name then .var (Cursor.anonymousName (n + 1)) else .var name
  | n, .compound name args => .compound name (renumberList n args)
  | _, .atom name => .atom name
  | _, .number spelling => .number spelling
  | _, .string text => .string text

def renumberList : Nat → List Term → List Term
  | _, [] => []
  | n, t :: ts => renumberFrom n t :: renumberList (n + t.anonymousCount) ts

end

def anonymousCounts (ts : List Term) : Nat :=
  (ts.map anonymousCount).sum

variable {name : String} {args items : List Term} {t tail : Term}

theorem anonymousCounts_cons :
    anonymousCounts (t :: items) = t.anonymousCount + anonymousCounts items :=
  List.sum_cons

theorem anonymousCount_compound : (compound name args).anonymousCount = anonymousCounts args := by
  rw [anonymousCount, occurrences_compound, List.countP_flatMap]
  rfl

theorem anonymousCount_list :
    (list items tail).anonymousCount = anonymousCounts items + tail.anonymousCount := by
  rw [anonymousCount, occurrences_list, List.countP_append, List.countP_flatMap]
  rfl

theorem renumberFrom_list (n : Nat) : (list items tail).renumberFrom n =
    list (renumberList n items) (tail.renumberFrom (n + anonymousCounts items)) := by
  induction items generalizing n with
  | nil => rfl
  | cons item items ih =>
    have hrest : (list items tail).renumberFrom (n + item.anonymousCount) = list
        (renumberList (n + item.anonymousCount) items)
        (tail.renumberFrom (n + item.anonymousCount + anonymousCounts items)) := ih _
    rw [anonymousCounts_cons, ← Nat.add_assoc]
    simp only [list, List.foldr_cons, renumberFrom, renumberList] at hrest ⊢
    rw [hrest]

theorem renumberList_eq_self (h : ∀ t ∈ items, ∀ n, t.renumberFrom n = t) (n : Nat) :
    renumberList n items = items := by
  induction items generalizing n with
  | nil => rfl
  | cons item items ih =>
    obtain ⟨hitem, hitems⟩ := List.forall_mem_cons.mp h
    rw [renumberList, hitem, ih hitems]

end Term

/-! ## Tokens -/

namespace Token

theorem numberFrom_append (n : Nat) (ts us : List Token) :
    numberFrom n (ts ++ us) = numberFrom n ts ++ numberFrom (n + ts.count (.var "_")) us := by
  induction ts generalizing n with
  | nil => rfl
  | cons token ts ih =>
    by_cases htoken : token = .var "_"
    · subst htoken
      simp only [List.cons_append, numberFrom, if_true, ih, List.count_cons_self, Nat.add_assoc,
        Nat.add_comm 1]
    · rw [List.cons_append, numberFrom_cons htoken, numberFrom_cons htoken, ih,
        List.count_cons_of_ne htoken, List.cons_append]

/-- The token without the number of an anonymous variable. -/
def unnumbered : Token → Token
  | .var name => .var (varText name)
  | token => token

theorem map_unnumbered_numberFrom {tokens : List Token} (h : ∀ token ∈ tokens, token.Plain)
    (n : Nat) : (numberFrom n tokens).map unnumbered = tokens := by
  induction tokens generalizing n with
  | nil => rfl
  | cons token tokens ih =>
    obtain ⟨htoken, htokens⟩ := List.forall_mem_cons.mp h
    cases token with
    | var name =>
      by_cases hname : name = "_"
      · simp [numberFrom, hname, unnumbered, ih htokens]
      · simp [numberFrom, hname, unnumbered, varText_eq_self (htoken name rfl), ih htokens]
    | _ => simp [numberFrom, unnumbered, ih htokens]

theorem map_unnumbered_commas {α : Type} (tokens : α → List Token) (first : α) (rest : List α) :
    (commas tokens first rest).map unnumbered =
      commas (fun x => (tokens x).map unnumbered) first rest := by
  simp [commas, List.map_flatMap, unnumbered]

end Token

/-! ## Derivations -/

namespace Term

/-- A term is derived from some tokens wherever they stand: before them so many anonymous variables
may have been numbered. -/
structure DerivedFrom (levels : Nat) (tokens : List Token) (t : Term) : Prop where
  exists_tree : ∀ n, ∃ tree : TermTree, tree.tokens = Token.numberFrom n tokens ∧
    tree.value = t.renumberFrom n ∧ tree.levels ≤ levels
  count_eq : tokens.count (.var "_") = t.anonymousCount

namespace DerivedFrom

variable {α : Type} {tokens : α → List Token} {value : α → Term} {first : α} {rest : List α}
  {levels : Nat} {ts : List Token} {t : Term}

/-! ### Sequences -/

theorem count_commas (h : ∀ x ∈ first :: rest, (value x).DerivedFrom levels (tokens x)) :
    (commas tokens first rest).count (.var "_") = anonymousCounts ((first :: rest).map value) := by
  have hcount : ∀ x ∈ first :: rest, (tokens x).count (.var "_") = (value x).anonymousCount :=
    fun x hx => (h x hx).count_eq
  obtain ⟨hfirst, hrest⟩ := List.forall_mem_cons.mp hcount
  rw [List.map_cons, anonymousCounts_cons, commas, List.count_append, hfirst, List.count_flatMap,
    anonymousCounts, List.map_map]
  congr 2
  refine List.map_congr_left fun x hx => ?_
  simpa using hrest x hx

/-- Terms between commas are derived one after the other. -/
theorem exists_trees (h : ∀ x ∈ first :: rest, (value x).DerivedFrom levels (tokens x)) (n : Nat) :
    ∃ tree trees,
      commas TermTree.tokens tree trees = Token.numberFrom n (commas tokens first rest) ∧
      (tree :: trees).map TermTree.value = renumberList n ((first :: rest).map value) ∧
      ∀ t ∈ tree :: trees, t.levels ≤ levels := by
  induction rest generalizing first n with
  | nil =>
    obtain ⟨tree, htokens, hvalue, hlevels⟩ := (h first List.mem_cons_self).exists_tree n
    exact ⟨tree, [], by simp [commas_nil, htokens], by simp [renumberList, hvalue],
      by simpa using hlevels⟩
  | cons x rest ih =>
    obtain ⟨hfirst, hrest⟩ := List.forall_mem_cons.mp h
    obtain ⟨tree, htokens, hvalue, hlevels⟩ := hfirst.exists_tree n
    obtain ⟨tree', trees, htokens', hvalues, hall⟩ := ih hrest (n + (value first).anonymousCount)
    refine ⟨tree, tree' :: trees, ?_, ?_, List.forall_mem_cons.mpr ⟨hlevels, hall⟩⟩
    · rw [commas_cons, commas_cons, Token.numberFrom_append, hfirst.count_eq, htokens, htokens']
      rfl
    · rw [List.map_cons, hvalue, hvalues]
      rfl

/-! ### Terms -/

theorem atom (name : String) : (Term.atom name).DerivedFrom (levels + 1) [.atom name] where
  exists_tree _ := ⟨.atom name, rfl, rfl, by simp [TermTree.levels]⟩
  count_eq := by simp [anonymousCount]

theorem var (name : String) : (Term.var name).DerivedFrom (levels + 1) [.var (varText name)] where
  exists_tree n := by
    by_cases hname : varText name = "_"
    · exact ⟨.var (Cursor.anonymousName (n + 1)), by simp [Token.numberFrom, hname],
        by simp [TermTree.value, renumberFrom, isAnonymous, hname], by simp [TermTree.levels]⟩
    · have hself : varText name = name := by
        unfold varText at hname ⊢
        split
        · next heq => simp [heq] at hname
        · rfl
      rw [hself] at hname ⊢
      exact ⟨.var name, by simp [Token.numberFrom, hname],
        by simp [TermTree.value, renumberFrom, isAnonymous, hself, hname],
        by simp [TermTree.levels]⟩
  count_eq := by
    by_cases hname : varText name = "_" <;> simp [anonymousCount, isAnonymous, hname]

theorem number (spelling : String) :
    (Term.number spelling).DerivedFrom (levels + 1) [.number spelling] where
  exists_tree _ := ⟨.number spelling, rfl, rfl, by simp [TermTree.levels]⟩
  count_eq := by simp [anonymousCount]

theorem string (text : String) : (Term.string text).DerivedFrom (levels + 1) [.string text] where
  exists_tree _ := ⟨.string text, rfl, rfl, by simp [TermTree.levels]⟩
  count_eq := by simp [anonymousCount]

theorem nil : Term.nil.DerivedFrom (levels + 1) [.leftBracket, .rightBracket] where
  exists_tree _ := ⟨.nil, rfl, rfl, by simp [TermTree.levels]⟩
  count_eq := by simp [anonymousCount, Term.nil]

theorem compound (name : String)
    (h : ∀ x ∈ first :: rest, (value x).DerivedFrom levels (tokens x)) :
    (Term.compound name ((first :: rest).map value)).DerivedFrom (levels + 1)
      (.atom name :: .leftParen :: (commas tokens first rest ++ [.rightParen])) where
  exists_tree n := by
    obtain ⟨tree, trees, htokens, hvalues, hlevels⟩ := exists_trees h n
    refine ⟨.compound name tree trees, ?_, ?_, TermTree.levels_compound_le.mpr hlevels⟩
    · simp [htokens, Token.numberFrom, Token.numberFrom_append]
    · rw [TermTree.value_compound, hvalues, renumberFrom]
  count_eq := by simp [count_commas h, anonymousCount_compound]

theorem list (h : ∀ x ∈ first :: rest, (value x).DerivedFrom levels (tokens x)) :
    (Term.list ((first :: rest).map value) .nil).DerivedFrom (levels + 1)
      (.leftBracket :: (commas tokens first rest ++ [.rightBracket])) where
  exists_tree n := by
    obtain ⟨tree, trees, htokens, hvalues, hlevels⟩ := exists_trees h n
    refine ⟨.list tree trees, ?_, ?_, TermTree.levels_list_le.mpr hlevels⟩
    · simp [htokens, Token.numberFrom, Token.numberFrom_append]
    · rw [TermTree.value_list, hvalues, renumberFrom_list]
      rfl
  count_eq := by
    have hnil : Term.nil.anonymousCount = 0 := rfl
    simp [count_commas h, anonymousCount_list, hnil]

theorem listTail (h : ∀ x ∈ first :: rest, (value x).DerivedFrom levels (tokens x))
    (htail : t.DerivedFrom levels ts) :
    (Term.list ((first :: rest).map value) t).DerivedFrom (levels + 1)
      (.leftBracket :: (commas tokens first rest ++ .bar :: (ts ++ [.rightBracket]))) where
  exists_tree n := by
    obtain ⟨tree, trees, htokens, hvalues, hlevels⟩ := exists_trees h n
    obtain ⟨tail, htail, hvalue, htailLevels⟩ :=
      htail.exists_tree (n + anonymousCounts ((first :: rest).map value))
    refine ⟨.listTail tree trees tail, ?_, ?_,
      TermTree.levels_listTail_le.mpr ⟨hlevels, htailLevels⟩⟩
    · simp [htokens, htail, count_commas h, Token.numberFrom, Token.numberFrom_append]
    · rw [TermTree.value_listTail, hvalues, hvalue, renumberFrom_list]
  count_eq := by simp [count_commas h, anonymousCount_list, htail.count_eq]

theorem paren (h : t.DerivedFrom levels ts) :
    t.DerivedFrom (levels + 1) (.leftParen :: (ts ++ [.rightParen])) where
  exists_tree n := by
    obtain ⟨tree, htokens, hvalue, hlevels⟩ := h.exists_tree n
    refine ⟨.paren tree, ?_, hvalue, by simpa [TermTree.levels] using hlevels⟩
    simp [htokens, Token.numberFrom, Token.numberFrom_append]
  count_eq := by simp [h.count_eq]

end DerivedFrom

end Term

theorem Grammar.TermTree.exists_of_levels_le {t : TermTree} {levels : Nat} (h : t.levels ≤ levels) :
    ∃ n, levels = n + 1 :=
  Nat.exists_eq_add_one_of_ne_zero (Nat.ne_zero_of_lt (Nat.lt_of_lt_of_le t.levels_pos h))

/-- What a tree derives is derived from its tokens wherever they stand. -/
theorem Grammar.TermTree.derivedFrom {levels : Nat} (t : TermTree) (h : t.levels ≤ levels) :
    t.value.DerivedFrom levels (t.tokens.map Token.unnumbered) := by
  have hargs {first : TermTree} {rest : List TermTree} {n : Nat}
      (hfirst : ∀ {levels}, first.levels ≤ levels →
        first.value.DerivedFrom levels (first.tokens.map Token.unnumbered))
      (hrest : ∀ t ∈ rest, ∀ {levels}, t.levels ≤ levels →
        t.value.DerivedFrom levels (t.tokens.map Token.unnumbered))
      (hlevels : ∀ t ∈ first :: rest, t.levels ≤ n) :
      ∀ t ∈ first :: rest, t.value.DerivedFrom n (t.tokens.map Token.unnumbered) := by
    obtain ⟨hfirstLevels, hrestLevels⟩ := List.forall_mem_cons.mp hlevels
    exact List.forall_mem_cons.mpr
      ⟨hfirst hfirstLevels, fun t ht => hrest t ht (hrestLevels t ht)⟩
  induction t generalizing levels with
  | atom name =>
    obtain ⟨n, rfl⟩ := exists_of_levels_le h
    exact .atom name
  | var name =>
    obtain ⟨n, rfl⟩ := exists_of_levels_le h
    exact .var name
  | number spelling =>
    obtain ⟨n, rfl⟩ := exists_of_levels_le h
    exact .number spelling
  | string text =>
    obtain ⟨n, rfl⟩ := exists_of_levels_le h
    exact .string text
  | nil =>
    obtain ⟨n, rfl⟩ := exists_of_levels_le h
    exact .nil
  | compound name first rest ihf ihr =>
    obtain ⟨n, rfl⟩ := exists_of_levels_le h
    have hcompound := Term.DerivedFrom.compound name (hargs ihf ihr (levels_compound_le.mp h))
    simpa [Token.map_unnumbered_commas, Token.unnumbered] using hcompound
  | list first rest ihf ihr =>
    obtain ⟨n, rfl⟩ := exists_of_levels_le h
    have hlist := Term.DerivedFrom.list (hargs ihf ihr (levels_list_le.mp h))
    simpa [Token.map_unnumbered_commas, Token.unnumbered] using hlist
  | listTail first rest tail ihf ihr iht =>
    obtain ⟨n, rfl⟩ := exists_of_levels_le h
    obtain ⟨hitems, htail⟩ := levels_listTail_le.mp h
    have hlist := Term.DerivedFrom.listTail (hargs ihf ihr hitems) (iht htail)
    simpa [Token.map_unnumbered_commas, Token.unnumbered] using hlist
  | paren inner ih =>
    obtain ⟨n, rfl⟩ := exists_of_levels_le h
    have hparen := Term.DerivedFrom.paren (ih (Nat.le_of_succ_le_succ h))
    simpa [Token.unnumbered, value] using hparen

end OntoLogic
