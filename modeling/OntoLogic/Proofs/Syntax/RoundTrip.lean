-- SUMMARY: What has been read is read again from its written form, but for compounds named `[]`.
import OntoLogic.Proofs.Syntax.Derivation
import OntoLogic.Proofs.Syntax.Spelling

/-!
# Reading what is written

A clause or a query that has been read is written as the tokens of its written derivation, and these
tokens are read again. Two things can change on the way. The anonymous variables lose their numbers,
and since they are written in the order of their numbers they get the same numbers back. The name
`[]` of a compound is written as two brackets, and no parentheses can follow them; so a clause or a
query with such a compound is not read from its written form.
-/

namespace OntoLogic

open Grammar

/-! ## Subterms -/

def Goal.subterms : Goal → List Term
  | .call t => t.subterms
  | .not g => g.subterms
  | .unify l r | .notUnify l r => l.subterms ++ r.subterms

def Clause.subterms (c : Clause) : List Term :=
  c.head.subterms ++ c.body.flatMap Goal.subterms

def Query.subterms (q : Query) : List Term :=
  q.goals.flatMap Goal.subterms

/-- Some compound has the name of the empty list. -/
def NamesNil (ts : List Term) : Prop :=
  ∃ args, .compound Term.nilName args ∈ ts

theorem namesNil_append {ts us : List Term} : NamesNil (ts ++ us) ↔ NamesNil ts ∨ NamesNil us := by
  simp [NamesNil, exists_or]

theorem namesNil_flatMap {α : Type} {f : α → List Term} {xs : List α} :
    NamesNil (xs.flatMap f) ↔ ∃ x ∈ xs, NamesNil (f x) := by
  simp only [NamesNil, List.mem_flatMap]
  exact ⟨fun ⟨args, x, hx, h⟩ => ⟨x, hx, args, h⟩, fun ⟨x, hx, args, h⟩ => ⟨args, x, hx, h⟩⟩

theorem namesNil_compound {name : String} {args : List Term} :
    NamesNil (Term.compound name args).subterms ↔
      name = Term.nilName ∨ ∃ t ∈ args, NamesNil t.subterms := by
  rw [Term.subterms, Term.subtermsList_eq, ← namesNil_flatMap]
  have hname : (∃ args', Term.nilName = name ∧ args' = args) ↔ name = Term.nilName := by
    simp [eq_comm]
  simp only [NamesNil, List.mem_cons, Term.compound.injEq, exists_or, hname]

theorem namesNil_list {items : List Term} {tail : Term} :
    NamesNil (Term.list items tail).subterms ↔
      (∃ t ∈ items, NamesNil t.subterms) ∨ NamesNil tail.subterms := by
  induction items with
  | nil => simp [Term.list]
  | cons item items ih =>
    have hcell : Term.consName ≠ Term.nilName := by decide
    change NamesNil (Term.compound Term.consName [item, Term.list items tail]).subterms ↔ _
    simp [namesNil_compound, hcell, ih, or_assoc]

theorem not_namesNil_nil : ¬NamesNil Term.nil.subterms := by
  simp [NamesNil, Term.nil, Term.subterms]

namespace Grammar

theorem nilName_mem_commas {α : Type} {tokens : α → List Token} {first : α} {rest : List α} :
    .atom Term.nilName ∈ commas tokens first rest ↔
      ∃ x ∈ first :: rest, .atom Term.nilName ∈ tokens x := by
  simp [commas]

/-! ## The name of the empty list among the tokens -/

/-- A compound with the name of the empty list has this name among its tokens. -/
theorem TermTree.mem_tokens_of_namesNil (t : TermTree) (h : NamesNil t.value.subterms) :
    .atom Term.nilName ∈ t.tokens := by
  have hitems : ∀ {first : TermTree} {rest : List TermTree},
      (NamesNil first.value.subterms → .atom Term.nilName ∈ first.tokens) →
      (∀ t ∈ rest, NamesNil t.value.subterms → .atom Term.nilName ∈ t.tokens) →
      (∃ u ∈ (first :: rest).map value, NamesNil u.subterms) →
      .atom Term.nilName ∈ commas tokens first rest := by
    intro first rest hfirst hrest h
    obtain ⟨_, hu, h⟩ := h
    obtain ⟨t, ht, rfl⟩ := List.mem_map.mp hu
    exact nilName_mem_commas.mpr ⟨t, ht, List.forall_mem_cons.mpr ⟨hfirst, hrest⟩ t ht h⟩
  induction t with
  | compound name first rest ihf ihr =>
    rw [value_compound, namesNil_compound] at h
    obtain rfl | h := h
    · simp
    · simp [hitems ihf ihr h]
  | list first rest ihf ihr =>
    rw [value_list, namesNil_list, or_iff_left not_namesNil_nil] at h
    simp [hitems ihf ihr h]
  | listTail first rest tail ihf ihr iht =>
    rw [value_listTail, namesNil_list] at h
    obtain h | h := h
    · simp [hitems ihf ihr h]
    · simp [iht h]
  | paren inner ih => simp [ih h]
  | _ => simp [NamesNil, value, Term.nil, Term.subterms] at h

theorem GoalTree.mem_tokens_of_namesNil (g : GoalTree) (h : NamesNil g.goal.subterms) :
    .atom Term.nilName ∈ g.tokens := by
  induction g with
  | not g ih => exact List.mem_cons_of_mem _ (ih h)
  | call t => exact t.mem_tokens_of_namesNil h
  | unify l r | notUnify l r =>
    obtain h | h := namesNil_append.mp h
    · simp [l.mem_tokens_of_namesNil h]
    · simp [r.mem_tokens_of_namesNil h]

theorem mem_tokens_of_namesNil_goals {first : GoalTree} {rest : List GoalTree}
    (h : NamesNil (((first :: rest).map GoalTree.goal).flatMap Goal.subterms)) :
    .atom Term.nilName ∈ commas GoalTree.tokens first rest := by
  obtain ⟨_, hgoal, h⟩ := namesNil_flatMap.mp h
  obtain ⟨g, hg, rfl⟩ := List.mem_map.mp hgoal
  exact nilName_mem_commas.mpr ⟨g, hg, g.mem_tokens_of_namesNil h⟩

theorem ClauseTree.mem_tokens_of_namesNil (t : ClauseTree) (h : NamesNil t.clause.subterms) :
    .atom Term.nilName ∈ t.tokens := by
  obtain hhead | hbody := namesNil_append.mp h
  · cases t <;> simp [tokens, TermTree.mem_tokens_of_namesNil _ hhead]
  · cases t with
    | fact head => simp [clause, NamesNil] at hbody
    | rule head first rest => simp [tokens, mem_tokens_of_namesNil_goals hbody]

theorem QueryTree.mem_tokens_of_namesNil (t : QueryTree) (h : NamesNil t.query.subterms) :
    .atom Term.nilName ∈ t.tokens :=
  List.mem_append_left _ (mem_tokens_of_namesNil_goals h)

theorem TermTree.nilName_mem_tokens_of_mem_afterFirst {t : TermTree}
    (h : .atom Term.nilName ∈ t.afterFirst) : .atom Term.nilName ∈ t.tokens := by
  cases t with
  | nil => cases h
  | list first rest => simpa [afterFirst] using h
  | listTail first rest tail => simpa [afterFirst] using h
  | _ => simp_all [afterFirst]

/-- The name of the empty list is among the tokens of a written derivation only as the name of a
compound. -/
theorem TermTree.IsWritten.namesNil {t : TermTree} (h : t.IsWritten)
    (hmem : .atom Term.nilName ∈ t.tokens) : NamesNil t.value.subterms := by
  induction h with
  | atom hname => exact absurd (by simpa using hmem) hname.symm
  | @cons head tail _ _ ihhead ihtail =>
    rw [value_cons, namesNil_compound]
    have hmem : .atom Term.nilName ∈ head.tokens ∨ .atom Term.nilName ∈ tail.afterFirst := by
      simpa using hmem
    obtain hhead | htail := hmem
    · exact .inr ⟨head.value, by simp, ihhead hhead⟩
    · exact .inr ⟨tail.value, by simp, ihtail (nilName_mem_tokens_of_mem_afterFirst htail)⟩
  | @compound name first rest _ _ _ ihfirst ihrest =>
    rw [value_compound, namesNil_compound]
    have hmem : Term.nilName = name ∨ .atom Term.nilName ∈ commas TermTree.tokens first rest := by
      simpa using hmem
    refine hmem.imp Eq.symm fun hargs => ?_
    obtain ⟨t, ht, hmem⟩ := nilName_mem_commas.mp hargs
    exact ⟨t.value, List.mem_map_of_mem ht, List.forall_mem_cons.mpr ⟨ihfirst, ihrest⟩ t ht hmem⟩
  | _ => simp at hmem

theorem TermTree.namesNil_of_mem_written {t : TermTree}
    (h : ∀ token ∈ t.tokens, token.WellSpelled) (hmem : .atom Term.nilName ∈ t.written.tokens) :
    NamesNil t.value.subterms := by
  simpa using (t.isWritten_written h).namesNil hmem

theorem GoalTree.namesNil_of_mem_written {g : GoalTree}
    (h : ∀ token ∈ g.tokens, token.WellSpelled) (hmem : .atom Term.nilName ∈ g.written.tokens) :
    NamesNil g.goal.subterms := by
  induction g with
  | not g ih =>
    have hmem : .atom Term.nilName ∈ g.written.tokens := by simpa [written] using hmem
    exact ih (fun token htoken => h token (by simp [htoken])) hmem
  | call t => exact TermTree.namesNil_of_mem_written h hmem
  | unify l r | notUnify l r =>
    have hmem : .atom Term.nilName ∈ l.written.tokens ∨ .atom Term.nilName ∈ r.written.tokens := by
      simpa [written] using hmem
    refine namesNil_append.mpr (hmem.imp ?_ ?_)
    · exact TermTree.namesNil_of_mem_written fun token htoken => h token (by simp [htoken])
    · exact TermTree.namesNil_of_mem_written fun token htoken => h token (by simp [htoken])

theorem namesNil_of_mem_written_goals {first : GoalTree} {rest : List GoalTree}
    (h : ∀ token ∈ commas GoalTree.tokens first rest, token.WellSpelled)
    (hmem : .atom Term.nilName ∈
      commas GoalTree.tokens first.written (rest.map GoalTree.written)) :
    NamesNil (((first :: rest).map GoalTree.goal).flatMap Goal.subterms) := by
  obtain ⟨_, hwritten, hmem⟩ := nilName_mem_commas.mp hmem
  rw [← List.map_cons] at hwritten
  obtain ⟨g, hg, rfl⟩ := List.mem_map.mp hwritten
  exact namesNil_flatMap.mpr ⟨g.goal, List.mem_map_of_mem hg,
    GoalTree.namesNil_of_mem_written (forall_item_tokens h g hg) hmem⟩

theorem ClauseTree.namesNil_of_mem_written {t : ClauseTree}
    (h : ∀ token ∈ t.tokens, token.WellSpelled) (hmem : .atom Term.nilName ∈ t.written.tokens) :
    NamesNil t.clause.subterms := by
  cases t with
  | fact head =>
    have hmem : .atom Term.nilName ∈ head.written.tokens := by simpa [written, tokens] using hmem
    exact namesNil_append.mpr (.inl (TermTree.namesNil_of_mem_written
      (fun token htoken => h token (by simp [tokens, htoken])) hmem))
  | rule head first rest =>
    have hmem : .atom Term.nilName ∈ head.written.tokens ∨ .atom Term.nilName ∈
        commas GoalTree.tokens first.written (rest.map GoalTree.written) := by
      simpa [written, tokens] using hmem
    refine namesNil_append.mpr (hmem.imp ?_ ?_)
    · exact TermTree.namesNil_of_mem_written fun token htoken => h token (by simp [tokens, htoken])
    · exact namesNil_of_mem_written_goals fun token htoken => h token (by simp [tokens, htoken])

theorem QueryTree.namesNil_of_mem_written {t : QueryTree}
    (h : ∀ token ∈ t.tokens, token.WellSpelled) (hmem : .atom Term.nilName ∈ t.written.tokens) :
    NamesNil t.query.subterms :=
  namesNil_of_mem_written_goals (fun token htoken => h token (by simp [tokens, htoken]))
    (by simpa [written, tokens] using hmem)

end Grammar

/-! ## Numbers of anonymous variables -/

/-- The variables of a text in their order, where so many anonymous ones have been met before. -/
def Numbered : Nat → List String → Prop
  | _, [] => True
  | n, name :: names =>
    name = Cursor.anonymousName (n + 1) ∧ Numbered (n + 1) names ∨
      (IsPlain name ∧ name ≠ "_") ∧ Numbered n names

namespace Token

theorem numbered_numberFrom {tokens : List Token} (h : ∀ token ∈ tokens, token.Plain) (n : Nat) :
    Numbered n (varNames (numberFrom n tokens)) := by
  induction tokens generalizing n with
  | nil => trivial
  | cons token tokens ih =>
    obtain ⟨htoken, htokens⟩ := List.forall_mem_cons.mp h
    cases token with
    | var name =>
      by_cases hname : name = "_"
      · simpa [numberFrom, hname, varNames, Numbered] using .inl (ih htokens (n + 1))
      · simpa [numberFrom, hname, varNames, Numbered] using .inr ⟨htoken name rfl, ih htokens n⟩
    | _ => simpa [numberFrom, varNames] using ih htokens n

/-- Written tokens get their numbers back. -/
theorem numberFrom_written {tokens : List Token} {n : Nat} (h : Numbered n (varNames tokens))
    (hnil : .atom Term.nilName ∉ tokens) : numberFrom n (tokens.flatMap written) = tokens := by
  induction tokens generalizing n with
  | nil => rfl
  | cons token tokens ih =>
    obtain ⟨hhead, htail⟩ := not_or.mp (mt List.mem_cons.mpr hnil)
    cases token with
    | var name =>
      obtain ⟨rfl, h⟩ | ⟨⟨hplain, hne⟩, h⟩ : name = Cursor.anonymousName (n + 1) ∧
          Numbered (n + 1) (varNames tokens) ∨
          (IsPlain name ∧ name ≠ "_") ∧ Numbered n (varNames tokens) := h
      · simp [written, numberFrom, ih h htail]
      · simp [written, numberFrom, varText_eq_self hplain, hne, ih h htail]
    | atom name =>
      have hname : name ≠ Term.nilName := fun hname => hhead (hname ▸ rfl)
      have h : Numbered n (varNames tokens) := h
      simp [written, numberFrom, hname, ih h htail]
    | _ =>
      have h : Numbered n (varNames tokens) := h
      simp [written, numberFrom, ih h htail]

theorem mem_of_mem_numberFrom {tokens : List Token} {token : Token} {n : Nat}
    (h : token ∈ numberFrom n tokens) :
    token ∈ tokens ∨ ∃ k, token = .var (Cursor.anonymousName k) := by
  obtain ⟨i, hi⟩ := List.mem_iff_getElem?.mp h
  rw [getElem?_numberFrom, Option.map_eq_some_iff] at hi
  obtain ⟨token, htoken, rfl⟩ := hi
  split
  · exact .inr ⟨_, rfl⟩
  · exact .inl (List.mem_of_getElem? htoken)

theorem nilName_not_mem_written (token : Token) : .atom Term.nilName ∉ token.written := by
  unfold written
  split
  · next name =>
    split
    · simp
    · next hname => simpa using Ne.symm hname
  · simp
  · next hatom _ => simpa using fun h => hatom _ h.symm

theorem nilName_not_mem_numberFrom_written (n : Nat) (tokens : List Token) :
    .atom Term.nilName ∉ numberFrom n (tokens.flatMap written) := by
  intro h
  obtain h | ⟨k, h⟩ := mem_of_mem_numberFrom h
  · obtain ⟨token, -, h⟩ := List.mem_flatMap.mp h
    exact token.nilName_not_mem_written h
  · cases h

theorem wellSpelled_numberFrom {tokens : List Token} (h : ∀ token ∈ tokens, token.WellSpelled)
    (n : Nat) : ∀ token ∈ numberFrom n tokens, token.WellSpelled := by
  intro token htoken
  obtain htoken | ⟨k, rfl⟩ := mem_of_mem_numberFrom htoken
  · exact h token htoken
  · refine ⟨'_', [], ?_, rfl, by simp⟩
    rw [varText_anonymousName]
    rfl

end Token

/-! ## Texts -/

theorem Clause.parse_iff {text : String} {c : Clause} :
    Clause.parse text = .ok c ↔ ∃ tokens, Token.scan text = .ok tokens ∧
      c.Derived (Token.numberFrom 0 (tokens.map Prod.fst)) :=
  ofText_bind_iff (P := fun ts => c.Derived ts) c.not_derived_nil fun _ => Cursor.clause_iff

theorem Query.parse_iff {text : String} {q : Query} :
    Query.parse text = .ok q ↔ ∃ tokens, Token.scan text = .ok tokens ∧
      q.Derived (Token.numberFrom 0 (tokens.map Prod.fst)) :=
  ofText_bind_iff (P := fun ts => q.Derived ts) q.not_derived_nil fun _ => Cursor.query_iff

/-- The tokens of a text with numbers can be written, and their variables are numbered in order. -/
theorem Token.scan_numberFrom {text : String} {ps : List (Token × Nat)}
    (h : Token.scan text = .ok ps) :
    (∀ token ∈ numberFrom 0 (ps.map Prod.fst), token.WellSpelled) ∧
      Numbered 0 (varNames (numberFrom 0 (ps.map Prod.fst))) := by
  have hspelled : ∀ p ∈ ps, p.1.WellSpelled := scanFrom_forall lexeme_wellSpelled 0 0 _ _ h
  have hplain : ∀ p ∈ ps, p.1.Plain := scanFrom_plain 0 0 _ _ h
  exact ⟨wellSpelled_numberFrom (List.forall_mem_map.mpr hspelled) 0,
    numbered_numberFrom (List.forall_mem_map.mpr hplain) 0⟩

/-- What has a derivation is read from the written form of its tokens, unless one of its terms is a
compound with the name of the empty list. Every derivation of it shows this name among its tokens,
and a written form has no token with this name; without it the tokens are all read again. -/
theorem parse_eq_ok_iff_not_namesNil {α ε : Type} {parse : String → Except ε α} {x : α}
    {Derived : List Token → α → Prop} {text : String} {tokens : List Token} {ts : List Term}
    (hparse : ∀ {text}, parse text = .ok x ↔ ∃ ps, Token.scan text = .ok ps ∧
      Derived (Token.numberFrom 0 (ps.map Prod.fst)) x)
    (hscans : Scans text.toList (tokens.flatMap Token.written))
    (hnumbered : Numbered 0 (varNames tokens)) (hderived : Derived tokens x)
    (hmem : .atom Term.nilName ∈ tokens → NamesNil ts)
    (hnames : ∀ us, Derived us x → NamesNil ts → .atom Term.nilName ∈ us) :
    parse text = .ok x ↔ ¬NamesNil ts := by
  obtain ⟨qs, hqs, hmap⟩ := hscans.scan
  have hread : parse text = .ok x ↔
      Derived (Token.numberFrom 0 (tokens.flatMap Token.written)) x := by
    simp [hparse, hqs, hmap]
  rw [hread]
  constructor
  · exact fun h hnil => Token.nilName_not_mem_numberFrom_written 0 _ (hnames _ h hnil)
  · intro hnil
    rwa [Token.numberFrom_written hnumbered (mt hmem hnil)]

theorem Clause.parse_text_iff {text : String} {c : Clause} (h : Clause.parse text = .ok c) :
    Clause.parse c.text = .ok c ↔ ¬NamesNil c.subterms := by
  obtain ⟨ps, hscan, t, htokens, rfl, hcallable, hbody, hlevels⟩ := parse_iff.mp h
  obtain ⟨hspelled, hnumbered⟩ := Token.scan_numberFrom hscan
  rw [← htokens] at hspelled hnumbered
  have hvars : varNames t.written.tokens = varNames t.tokens := by
    rw [← t.written.occurrences_clause, t.clause_written, t.occurrences_clause]
  refine parse_eq_ok_iff_not_namesNil parse_iff (t.scans_written hspelled) (hvars ▸ hnumbered)
    ⟨t.written, rfl, t.clause_written, hcallable, hbody, t.levels_written_le.trans hlevels⟩
    (ClauseTree.namesNil_of_mem_written hspelled) ?_
  rintro _ ⟨t', rfl, hclause, -⟩ hnil
  exact t'.mem_tokens_of_namesNil (hclause ▸ hnil)

theorem Query.parse_text_iff {text : String} {q : Query} (h : Query.parse text = .ok q) :
    Query.parse q.text = .ok q ↔ ¬NamesNil q.subterms := by
  obtain ⟨ps, hscan, t, htokens, rfl, hcallable, hlevels⟩ := parse_iff.mp h
  obtain ⟨hspelled, hnumbered⟩ := Token.scan_numberFrom hscan
  rw [← htokens] at hspelled hnumbered
  have hvars : varNames t.written.tokens = varNames t.tokens := by
    rw [← t.written.occurrences_query, t.query_written, t.occurrences_query]
  refine parse_eq_ok_iff_not_namesNil parse_iff (t.scans_written hspelled) (hvars ▸ hnumbered)
    ⟨t.written, rfl, t.query_written, hcallable, t.levels_written_le.trans hlevels⟩
    (QueryTree.namesNil_of_mem_written hspelled) ?_
  rintro _ ⟨t', rfl, hquery, -⟩ hnil
  exact t'.mem_tokens_of_namesNil (hquery ▸ hnil)

theorem not_namesNil_iff {ts : List Term} :
    ¬NamesNil ts ↔ ∀ name args, .compound name args ∈ ts → name ≠ "[]" := by
  constructor
  · rintro h name args hmem rfl
    exact h ⟨args, hmem⟩
  · rintro h ⟨args, hmem⟩
    exact h _ args hmem rfl

/-- A clause or a query that has been read from a text is read from its written form exactly when
no compound in it, at any depth, has the name of the empty list. -/
theorem parse_written_iff (text : String) :
    (∀ c, Clause.parse text = .ok c → (Clause.parse c.text = .ok c ↔
      ∀ name args, .compound name args ∈ c.subterms → name ≠ "[]")) ∧
    (∀ q, Query.parse text = .ok q → (Query.parse q.text = .ok q ↔
      ∀ name args, .compound name args ∈ q.subterms → name ≠ "[]")) :=
  ⟨fun _ h => (Clause.parse_text_iff h).trans not_namesNil_iff,
    fun _ h => (Query.parse_text_iff h).trans not_namesNil_iff⟩

/-- A clause with quotes, explicit list cells and anonymous variables is read from its written form;
a query with a compound named `[]` is not. -/
theorem parse_written_iff_quoted :
    let text := "'it''s'(_, [X, \"\\\"q\", (Y) | _], '[|]'(a, [])) :- \\+ p(-2.5), Y = '[|]'(1, _)."
    let c := (Clause.parse text).toOption.getD ⟨.nil, []⟩
    let q : Query := ⟨[.unify (.var "X") (.compound "[]" [.atom "a"])]⟩
    Clause.parse text = .ok c ∧
    c.text = "'it\\'s'(_, [X, \"\\\"q\", Y|_], [a]) :- \\+ p(-2.5), Y = [1|_]." ∧
    Clause.parse c.text = .ok c ∧
    (∀ name args, .compound name args ∈ c.subterms → name ≠ "[]") ∧
    Query.parse "X = '[]'(a)" = .ok q ∧ Query.parse q.text ≠ .ok q := by
  intro text c q
  have hparse : Clause.parse text = .ok c := by decide +kernel
  have hagain : Clause.parse c.text = .ok c := by decide +kernel
  have hquery : Query.parse "X = '[]'(a)" = .ok q := by decide +kernel
  refine ⟨hparse, by decide +kernel, hagain, ((parse_written_iff text).1 c hparse).mp hagain,
    hquery, ?_⟩
  intro hwritten
  have hnames := ((parse_written_iff _).2 q hquery).mp hwritten
  exact hnames "[]" [.atom "a"] (by decide) rfl

end OntoLogic
