-- SUMMARY: Texts of terms, put together with parentheses, commas and necks, are read as what they are put together from.
import OntoLogic.Proofs.Syntax.Application
import OntoLogic.Proofs.Syntax.Neck
import OntoLogic.Proofs.Syntax.Numbering

/-!
# Composed texts

A text that reads as one term may be put among other texts, with a comma or a parenthesis after it.
It is cut into the same tokens there: a delimiter ends any token but a period, and a term has none.
Only a comment at its end would go on. Apart from the numbers of its anonymous variables the term is
the same. So a name can be applied to such texts, and the result can be made a clause or a query.
-/

namespace OntoLogic

open Grammar

variable {cs rest : List Char} {tokens ts : List Token} {text : String} {levels : Nat} {t : Term}

/-! ## Comments -/

namespace Token

/-- Whether a comment stands in a text; the first `skip` characters belong to what has been
recognised already. -/
def hasCommentFrom : (skip : Nat) → List Char → Bool
  | _, [] => false
  | skip + 1, _ :: cs => hasCommentFrom skip cs
  | 0, c :: cs =>
    if Text.isBlank c then hasCommentFrom 0 cs
    else if c = '%' then true
    else
      match lexeme 0 c cs with
      | .error _ => false
      | .ok (_, more) => hasCommentFrom more cs

def hasComment (text : String) : Bool :=
  hasCommentFrom 0 text.toList

theorem hasCommentFrom_append (front rest : List Char) :
    hasCommentFrom front.length (front ++ rest) = hasCommentFrom 0 rest := by
  induction front with
  | nil => rfl
  | cons c front ih => rw [List.length_cons, List.cons_append, hasCommentFrom, ih]

theorem hasCommentFrom_cons {c : Char} {tail : List Char} {token : Token}
    (h : Lexed c tail rest token) :
    hasCommentFrom 0 (c :: (tail ++ rest)) = hasCommentFrom 0 rest := by
  obtain ⟨hblank, hpercent⟩ := h.head_ne
  simp [hasCommentFrom, hblank, hpercent, h.lexeme, hasCommentFrom_append]

end Token

/-! ## Texts before delimiters -/

/-- What follows a token may go on, unless the token would become part of a number. -/
theorem Lexed.append_delimited {c : Char} {tail : List Char} {token : Token}
    (h : Lexed c tail cs token) (hcs : Lexes cs tokens) (hperiod : .period ∉ token :: tokens)
    (hrest : Delimited rest) : Lexed c tail (cs ++ rest) token := by
  obtain ⟨hne, hnone⟩ := not_or.mp (mt List.mem_cons.mpr hperiod)
  cases cs with
  | nil => exact h.before_delimited (Ne.symm hne) hrest
  | cons d ds =>
    refine h.before_cons fun hd => ?_
    subst hd
    cases hcs with
    | blank hc => cases hc
    | token htoken =>
      obtain ⟨-, rfl, -⟩ := htoken.of_period
      exact hnone List.mem_cons_self

/-- Without comments and periods, the tokens of a text are not changed by what follows. -/
theorem Lexes.append_delimited (h : Lexes cs tokens) (hcomment : Token.hasCommentFrom 0 cs = false)
    (hperiod : .period ∉ tokens) (hrest : Delimited rest) (hts : Lexes rest ts) :
    Lexes (cs ++ rest) (tokens ++ ts) := by
  induction h with
  | nil => exact hts
  | blank hc h ih =>
    rw [Token.hasCommentFrom, if_pos hc] at hcomment
    exact .blank hc (ih hcomment hperiod)
  | comment => simp [Token.hasCommentFrom, show Text.isBlank '%' = false by decide] at hcomment
  | @token c tail cs token tokens htoken h ih =>
    rw [Token.hasCommentFrom_cons htoken] at hcomment
    have htoken' := htoken.append_delimited h hperiod hrest
    have hlexes := ih hcomment fun hmem => hperiod (List.mem_cons_of_mem _ hmem)
    simpa using Lexes.token htoken' hlexes

/-! ## Terms -/

/-- Reads a term and nothing after it. -/
def Cursor.wholeTerm (levels : Nat) (c : Cursor) : Except ParseError Term := do
  let (t, c) ← c.term levels
  c.finish
  return t

/-- Reads a text that is one term with so many levels of nesting. -/
def Term.parse (levels : Nat) (text : String) : Except ParseError Term := do
  (← Cursor.ofText text).wholeTerm levels

theorem Cursor.wholeTerm_iff {c : Cursor} : c.wholeTerm levels = .ok t ↔
    ∃ tree : TermTree, tree.tokens = c.numbered ∧ tree.value = t ∧ tree.levels ≤ levels := by
  constructor
  · intro h
    obtain ⟨⟨_, c'⟩, hterm, h⟩ := exists_of_bind h
    obtain ⟨_, hfinish, h⟩ := exists_of_bind h
    cases h
    obtain ⟨tree, hlevels, rfl, hc⟩ := (term_parses levels).sound hterm
    rw [finish_iff.mp hfinish, List.append_nil] at hc
    exact ⟨tree, hc.symm, rfl, hlevels⟩
  · rintro ⟨tree, htokens, rfl, hlevels⟩
    have hc : c.numbered = tree.tokens ++ [] := by rw [htokens, List.append_nil]
    obtain ⟨c', hterm, hc'⟩ := (term_parses levels).complete hlevels hc stops_nil
    have hfinish := finish_iff.mpr hc'
    simp [wholeTerm, hterm, hfinish, bind, Except.bind, pure, Except.pure]

theorem Term.parse_iff_scans : Term.parse levels text = .ok t ↔
    ∃ tokens, Scans text.toList tokens ∧ ∃ tree : TermTree,
      tree.tokens = Token.numberFrom 0 tokens ∧ tree.value = t ∧ tree.levels ≤ levels := by
  let P (ts : List Token) : Prop :=
    ∃ tree : TermTree, tree.tokens = ts ∧ tree.value = t ∧ tree.levels ≤ levels
  have hnil : ¬P [] := by
    rintro ⟨tree, htokens, -⟩
    obtain ⟨token, ts, heq, -⟩ := tree.exists_tokens
    rw [htokens] at heq
    cases heq
  refine Iff.trans ?_ (exists_scan_iff fun tokens => P (Token.numberFrom 0 tokens))
  exact ofText_bind_iff hnil fun c => Cursor.wholeTerm_iff

/-- A text that stands for a term wherever a delimiter follows it. -/
structure TermText (levels : Nat) where
  text : String
  tokens : List Token
  term : Term
  embeds : Embeds text tokens
  derived : term.DerivedFrom levels tokens

/-- A text that reads as a term and has no comments stands for this term. -/
theorem TermText.exists_of_parse (h : Term.parse levels text = .ok t)
    (hcomment : Token.hasComment text = false) :
    ∃ p : TermText levels, p.text = text ∧ p.term = t := by
  obtain ⟨tokens, hscans, tree, htokens, rfl, hlevels⟩ := Term.parse_iff_scans.mp h
  have hperiod : .period ∉ tokens := by
    rw [← Token.mem_numberFrom rfl 0, ← htokens]
    exact tree.not_mem_tokens rfl
  have hplain : ∀ token ∈ tokens, token.Plain := by
    obtain ⟨ps, hps, rfl⟩ := hscans 0
    exact List.forall_mem_map.mpr (Token.scanFrom_plain 0 0 _ _ hps)
  have hembeds : Embeds text tokens := fun rest ts hrest hts =>
    ((scans_iff_lexes.mp hscans).append_delimited hcomment hperiod hrest
      (scans_iff_lexes.mp hts)).scans
  have hderived := tree.derivedFrom hlevels
  rw [htokens, Token.map_unnumbered_numberFrom hplain] at hderived
  exact ⟨⟨text, tokens, tree.value, hembeds, hderived⟩, rfl, rfl⟩

/-! ## Applied names -/

/-- A name, applied to terms if there are any. -/
def Term.applied (name : String) : List Term → Term
  | [] => .atom name
  | args => .compound name args

theorem Grammar.Embeds.applied {name inside : String} (hname : isPlainName name = true)
    (hinside : Embeds inside tokens) :
    Embeds (name ++ "(" ++ inside ++ ")")
      (.atom name :: .leftParen :: (tokens ++ [.rightParen])) := by
  rw [String.append_assoc, String.append_assoc]
  have harguments := hinside.append .rightParen separates_rightParen
  exact (Embeds.plainName hname).append harguments.leftParen (separates_leftParen _)

namespace TermText

/-- The text of a name that is applied to terms, if there are any. -/
def applied (name : String) (hname : isPlainName name = true) :
    List (TermText levels) → TermText (levels + 1)
  | [] =>
    { text := name
      tokens := [.atom name]
      term := .atom name
      embeds := .plainName hname
      derived := .atom name }
  | first :: rest =>
    { text := name ++ "(" ++ ", ".intercalate ((first :: rest).map TermText.text) ++ ")"
      tokens := .atom name :: .leftParen :: (commas TermText.tokens first rest ++ [.rightParen])
      term := .compound name ((first :: rest).map TermText.term)
      embeds := .applied hname (.commas first.embeds fun p _ => p.embeds)
      derived := .compound name fun p _ => p.derived }

variable {name : String} {hname : isPlainName name = true} {args : List (TermText levels)}

theorem term_applied :
    (applied name hname args).term = .applied name (args.map TermText.term) := by
  cases args <;> rfl

/-- A term that can be called, with a text that stands as it is when blanks are dropped and that
does not end with a period. -/
structure IsCall (p : TermText levels) : Prop where
  callable : p.term.functor?.isSome = true
  first : ∃ c, p.text.toList.head? = some c ∧ Text.isBlank c = false
  last : ∀ c ∈ p.text.toList.getLast?, Text.isBlank c = false ∧ c ≠ '.'

/-- The text starts with the name and ends with the name or with the closing parenthesis. -/
theorem isCall_applied : (applied name hname args).IsCall := by
  have hchars : ∀ c ∈ name.toList, Text.isBlank c = false ∧ c ≠ '.' := by
    refine fun c hc => ⟨isBlank_of_mem_plainName hname c hc, ?_⟩
    rintro rfl
    cases isNameChar_of_mem_plainName hname _ hc
  have hne : name.toList ≠ [] := by
    intro hnil
    rw [isPlainName, hnil] at hname
    cases hname
  obtain ⟨d, ds, hd⟩ := List.exists_cons_of_ne_nil hne
  have hfirst : Text.isBlank d = false := (hchars d (hd ▸ List.mem_cons_self)).1
  cases args with
  | nil =>
    exact ⟨rfl, ⟨d, by simp [applied, hd], hfirst⟩,
      fun c hc => hchars c (List.mem_of_getLast? hc)⟩
  | cons first rest =>
    refine ⟨by simp [applied, Term.functor?], ⟨d, by simp [applied, hd], hfirst⟩, ?_⟩
    have hlast : (applied name hname (first :: rest)).text.toList.getLast? = some ')' := by
      rw [applied, String.toList_append]
      exact List.getLast?_concat
    rw [hlast]
    rintro c ⟨⟩
    decide

end TermText

/-! ## Clauses and queries -/

section

variable {p : TermText maxNesting}

theorem Term.isSome_functor?_renumberFrom (n : Nat) :
    (t.renumberFrom n).functor?.isSome = t.functor?.isSome := by
  cases t with
  | var name =>
    unfold renumberFrom
    split <;> rfl
  | _ => rfl

theorem Term.functor?_of_mem_renumberList {us : List Term} {n : Nat}
    (h : ∀ u ∈ us, u.functor?.isSome = true) :
    ∀ u ∈ renumberList n us, u.functor?.isSome = true := by
  induction us generalizing n with
  | nil => nofun
  | cons u us ih =>
    obtain ⟨hu, hus⟩ := List.forall_mem_cons.mp h
    exact List.forall_mem_cons.mpr ⟨(isSome_functor?_renumberFrom n).trans hu, ih hus⟩

/-- The clause with a head and with calls as its body, its anonymous variables numbered from left to
right. -/
def Clause.ofTerms (head : Term) (calls : List Term) : Clause where
  head := head.renumberFrom 0
  body := (Term.renumberList head.anonymousCount calls).map .call

theorem Clause.ofTerms_eq {head : Term} {calls : List Term}
    (hhead : ∀ n, head.renumberFrom n = head) (hcalls : ∀ t ∈ calls, ∀ n, t.renumberFrom n = t) :
    ofTerms head calls = ⟨head, calls.map .call⟩ := by
  rw [ofTerms, hhead, Term.renumberList_eq_self hcalls]

theorem TermText.parse_fact (hcallable : p.term.functor?.isSome = true) :
    Clause.parse (p.text ++ ".") = .ok (.ofTerms p.term []) := by
  obtain ⟨tree, htokens, hvalue, hlevels⟩ := p.derived.exists_tree 0
  refine Clause.parse_iff_scans.mpr
    ⟨p.tokens ++ [.period], ?_, .fact tree, ?_, ?_, ?_, nofun, hlevels⟩
  · have hscans := p.embeds ['.'] _ (.inr (.inl rfl)) Scans.period
    simpa using hscans
  · rw [Token.numberFrom_append, ← htokens]
    rfl
  · rw [ClauseTree.clause, hvalue]
    rfl
  · exact (Term.isSome_functor?_renumberFrom 0).trans hcallable

theorem TermText.parse_query (hcallable : p.term.functor?.isSome = true) :
    Query.parse p.text = .ok ⟨[.call (p.term.renumberFrom 0)]⟩ := by
  obtain ⟨tree, htokens, hvalue, hlevels⟩ := p.derived.exists_tree 0
  refine Query.parse_iff_scans.mpr ⟨p.tokens, ?_, ⟨.call tree, [], false⟩, ?_, ?_, ?_, ?_⟩
  · have hscans := p.embeds [] _ (.inl rfl) Scans.nil
    simpa using hscans
  · simpa [QueryTree.tokens, commas_nil] using htokens
  · simp [QueryTree.query, GoalTree.goal, hvalue]
  · simpa [Goal.isCallable, Term.isSome_functor?_renumberFrom] using hcallable
  · simpa [QueryTree.levels, highest, GoalTree.levels] using hlevels

theorem TermText.parse_rule {first : TermText maxNesting} {rest : List (TermText maxNesting)}
    (hcallable : p.term.functor?.isSome = true)
    (hgoals : ∀ q ∈ first :: rest, q.term.functor?.isSome = true) :
    Clause.parse (p.text ++ " :- " ++ ", ".intercalate ((first :: rest).map TermText.text) ++ ".") =
      .ok (.ofTerms p.term ((first :: rest).map TermText.term)) := by
  let body := commas TermText.tokens first rest
  have hderived : ∀ q ∈ first :: rest, q.term.DerivedFrom maxNesting q.tokens :=
    fun q _ => q.derived
  obtain ⟨tree, htokens, hvalue, hlevels⟩ := p.derived.exists_tree 0
  obtain ⟨goal, goals, hbody, hvalues, hbodyLevels⟩ :=
    Term.DerivedFrom.exists_trees hderived p.term.anonymousCount
  have hembeds : Embeds (p.text ++ " :- " ++ ", ".intercalate ((first :: rest).map TermText.text))
      (p.tokens ++ .neck :: body) :=
    p.embeds.neck (.commas first.embeds fun q _ => q.embeds)
  have hclause : (ClauseTree.rule tree (.call goal) (goals.map .call)).clause =
      .ofTerms p.term ((first :: rest).map TermText.term) := by
    rw [Clause.ofTerms, ← hvalues, ← hvalue]
    simp [ClauseTree.clause, GoalTree.goal]
  refine Clause.parse_iff_scans.mpr ⟨p.tokens ++ .neck :: (body ++ [.period]), ?_,
    .rule tree (.call goal) (goals.map .call), ?_, hclause, ?_, ?_, ?_⟩
  · have hscans := hembeds ['.'] _ (.inr (.inl rfl)) Scans.period
    simpa using hscans
  · have hcalls : commas GoalTree.tokens (.call goal) (goals.map .call) =
        commas TermTree.tokens goal goals := by
      simp [commas, List.flatMap_map]
    rw [ClauseTree.tokens, hcalls, hbody, htokens, Token.numberFrom_append, p.derived.count_eq,
      Nat.zero_add]
    simp [Token.numberFrom, Token.numberFrom_append, body]
  · exact (Term.isSome_functor?_renumberFrom 0).trans hcallable
  · refine List.forall_mem_map.mpr (Term.functor?_of_mem_renumberList ?_)
    exact List.forall_mem_map.mpr hgoals
  · refine max_le hlevels (highest_le.mpr ?_)
    exact List.forall_mem_cons.mpr (by simpa [GoalTree.levels] using hbodyLevels)

end

end OntoLogic
