-- SUMMARY: What is written is scanned as the tokens of the derivation that is written.
import OntoLogic.Proofs.Syntax.Written

/-!
# Scanning written forms

What is written for a term, goal, clause or query is cut into the tokens of the derivation that is
written, with two exceptions. A variable that stands for `_` is written `_` again. The name of the
empty list is written as two brackets, which is right for the empty list itself but not for a
compound with this name.
-/

namespace OntoLogic

/-- The tokens that are found where a token has been written. -/
def Token.written : Token → List Token
  | .atom name => if name = Term.nilName then [.leftBracket, .rightBracket] else [.atom name]
  | .var name => [.var (varText name)]
  | token => [token]

namespace Grammar

/-! ## Parts of texts -/

/-- A text is cut into some tokens wherever a delimiter follows it. -/
def Embeds (text : String) (tokens : List Token) : Prop :=
  ∀ rest ts, Delimited rest → Scans rest ts → Scans (text.toList ++ rest) (tokens ++ ts)

/-- A text that can follow whatever a delimiter can follow. -/
def Separates (text : String) : Prop :=
  ∀ rest, Delimited rest → Delimited (text.toList ++ rest)

theorem separates_empty : Separates "" :=
  fun _ h => h

theorem separates_of_toList {text : String} (c : Char) (cs : List Char) (h : text.toList = c :: cs)
    (hc : c ∈ delimiters) : Separates text := by
  intro rest _
  rw [h]
  exact .cons hc

theorem separates_comma (text : String) : Separates (", " ++ text) :=
  separates_of_toList ',' (' ' :: text.toList) (by simp) (by decide)

theorem separates_bar (text : String) : Separates ("|" ++ text) :=
  separates_of_toList '|' text.toList (by simp) (by decide)

theorem separates_leftParen (text : String) : Separates ("(" ++ text) :=
  separates_of_toList '(' text.toList (by simp) (by decide)

theorem separates_rightParen : Separates ")" :=
  separates_of_toList ')' [] rfl (by decide)

theorem separates_rightBracket : Separates "]" :=
  separates_of_toList ']' [] rfl (by decide)

namespace Embeds

variable {s t : String} {us vs : List Token}

theorem append (hs : Embeds s us) (ht : Embeds t vs) (hsep : Separates t) :
    Embeds (s ++ t) (us ++ vs) := by
  intro rest ts hrest h
  have hscans := hs (t.toList ++ rest) _ (hsep rest hrest) (ht rest ts hrest h)
  simpa using hscans

theorem plainName {name : String} (h : isPlainName name = true) : Embeds name [.atom name] :=
  fun _ _ hrest hscans => hscans.plainName h hrest

theorem leftParen (h : Embeds s us) : Embeds ("(" ++ s) (.leftParen :: us) := by
  intro rest ts hrest hscans
  simpa using (h rest ts hrest hscans).leftParen

theorem rightParen : Embeds ")" [.rightParen] :=
  fun _ _ _ hscans => hscans.rightParen

theorem comma (h : Embeds s us) : Embeds (", " ++ s) (.comma :: us) := by
  intro rest ts hrest hscans
  simpa using (h rest ts hrest hscans).space.comma

/-- Two parts with an operator between them, which has spaces around it. -/
theorem operator {op : String} {token : Token} (hs : Embeds s us) (ht : Embeds t vs)
    (hspace : op.toList.head? = some ' ')
    (hop : ∀ rest ts, Scans rest ts → Scans (op.toList ++ rest) (token :: ts)) :
    Embeds (s ++ op ++ t) (us ++ token :: vs) := by
  obtain ⟨cs, hcs⟩ := List.head?_eq_some_iff.mp hspace
  have hright : Embeds (op ++ t) (token :: vs) := by
    intro rest ts hrest hscans
    simpa using hop _ _ (ht rest ts hrest hscans)
  rw [String.append_assoc]
  exact hs.append hright (separates_of_toList ' ' (cs ++ t.toList) (by simp [hcs]) (by decide))

theorem neck (hs : Embeds s us) (ht : Embeds t vs) :
    Embeds (s ++ " :- " ++ t) (us ++ .neck :: vs) :=
  hs.operator ht rfl fun _ _ h => h.space.neck.space

theorem commas {α : Type} {text : α → String} {tokens : α → List Token} {first : α} {rest : List α}
    (hfirst : Embeds (text first) (tokens first)) (hrest : ∀ x ∈ rest, Embeds (text x) (tokens x)) :
    Embeds (", ".intercalate ((first :: rest).map text)) (Grammar.commas tokens first rest) := by
  induction rest generalizing first with
  | nil => simpa [commas_nil] using hfirst
  | cons x rest ih =>
    obtain ⟨hx, hrest⟩ := List.forall_mem_cons.mp hrest
    rw [commas_cons, List.map_cons, List.map_cons, String.intercalate_cons_cons,
      String.append_assoc]
    exact hfirst.append (ih hx hrest).comma (separates_comma _)

end Embeds

/-! ## What is written is scanned -/

/-- A text is scanned as the written form of some tokens when a delimiter follows it. -/
def Spells (text : String) (tokens : List Token) : Prop :=
  ∀ rest ts, Delimited rest → Scans rest ts →
    Scans (text.toList ++ rest) (tokens.flatMap Token.written ++ ts)

theorem flatMap_written_commas {α : Type} (tokens : α → List Token) (first : α) (rest : List α) :
    (commas tokens first rest).flatMap Token.written =
      commas (fun x => (tokens x).flatMap Token.written) first rest := by
  simp [commas, List.flatMap_assoc, Token.written]

namespace Spells

variable {s t : String} {us vs : List Token}

theorem empty : Spells "" [] :=
  fun _ _ _ h => h

theorem append (hs : Spells s us) (ht : Spells t vs) (hsep : Separates t) :
    Spells (s ++ t) (us ++ vs) := by
  rw [Spells, List.flatMap_append]
  exact Embeds.append hs ht hsep

/-! ### Punctuation -/

theorem leftParen (h : Spells s us) : Spells ("(" ++ s) (.leftParen :: us) :=
  Embeds.leftParen h

theorem leftBracket (h : Spells s us) : Spells ("[" ++ s) (.leftBracket :: us) := by
  intro rest ts hrest hscans
  simpa [Token.written] using (h rest ts hrest hscans).leftBracket

theorem comma (h : Spells s us) : Spells (", " ++ s) (.comma :: us) :=
  Embeds.comma h

theorem bar (h : Spells s us) : Spells ("|" ++ s) (.bar :: us) := by
  intro rest ts hrest hscans
  simpa [Token.written] using (h rest ts hrest hscans).bar

theorem not (h : Spells s us) : Spells ("\\+ " ++ s) (.not :: us) := by
  intro rest ts hrest hscans
  simpa [Token.written] using (h rest ts hrest hscans).space.not

theorem rightParen : Spells ")" [.rightParen] :=
  Embeds.rightParen

theorem rightBracket : Spells "]" [.rightBracket] := by
  intro rest ts _ hscans
  simpa [Token.written] using hscans.rightBracket

/-! ### Names, variables, numbers and strings -/

theorem name (name : String) : Spells (atomText name) [.atom name] := by
  intro rest ts hrest h
  unfold atomText
  by_cases hnil : name = Term.nilName
  · subst hnil
    simpa [Token.written, Term.nilName] using h.rightBracket.leftBracket
  · have hwritten : Token.written (.atom name) = [.atom name] := if_neg hnil
    split
    · next hplain =>
      have hplain : isPlainName name = true := by simpa [hnil] using hplain
      simpa [hwritten] using Scans.plainName hplain hrest h
    · have hquoted := Scans.quotedAtom name hrest h
      simpa [hwritten, String.toList_append] using hquoted

theorem var {name : String} (h : IsVariable (varText name).toList) :
    Spells (varText name) [.var name] :=
  fun _ _ hrest hscans => Scans.var h hrest hscans

theorem number {spelling : String} (h : IsNumber spelling.toList) :
    Spells spelling [.number spelling] :=
  fun _ _ hrest hscans => Scans.number h hrest hscans

theorem string (text : String) : Spells ("\"" ++ Text.escape '"' text ++ "\"") [.string text] := by
  intro rest ts hrest h
  have hquoted := Scans.string text hrest h
  simpa [Token.written, String.toList_append] using hquoted

/-! ### Operators and sequences -/

theorem operator {op : String} {token : Token} (hs : Spells s us) (ht : Spells t vs)
    (hspace : op.toList.head? = some ' ') (hwritten : token.written = [token])
    (hop : ∀ rest ts, Scans rest ts → Scans (op.toList ++ rest) (token :: ts)) :
    Spells (s ++ op ++ t) (us ++ token :: vs) := by
  rw [Spells, List.flatMap_append, List.flatMap_cons, hwritten]
  exact Embeds.operator hs ht hspace hop

theorem eq (hs : Spells s us) (ht : Spells t vs) : Spells (s ++ " = " ++ t) (us ++ .eq :: vs) :=
  hs.operator ht rfl rfl fun _ _ h => h.space.eq.space

theorem notEq (hs : Spells s us) (ht : Spells t vs) :
    Spells (s ++ " \\= " ++ t) (us ++ .notEq :: vs) :=
  hs.operator ht rfl rfl fun _ _ h => h.space.notEq.space

theorem neck (hs : Spells s us) (ht : Spells t vs) :
    Spells (s ++ " :- " ++ t) (us ++ .neck :: vs) :=
  hs.operator ht rfl rfl fun _ _ h => h.space.neck.space

theorem commas {α : Type} {text : α → String} {tokens : α → List Token} {first : α} {rest : List α}
    (hfirst : Spells (text first) (tokens first)) (hrest : ∀ x ∈ rest, Spells (text x) (tokens x)) :
    Spells (", ".intercalate ((first :: rest).map text)) (Grammar.commas tokens first rest) := by
  rw [Spells, flatMap_written_commas]
  exact Embeds.commas hfirst hrest

end Spells

/-! ## Written terms -/

section Texts

variable {name : String} {args : List Term} {head tail : Term}

theorem argsText_cons (t u : Term) (args : List Term) :
    Term.argsText (t :: u :: args) = t.text ++ ", " ++ Term.argsText (u :: args) := rfl

theorem argsText_eq (args : List Term) :
    Term.argsText args = ", ".intercalate (args.map Term.text) := by
  induction args with
  | nil => rfl
  | cons t args ih =>
    cases args with
    | nil => rfl
    | cons u args => simp [argsText_cons, ih]

theorem text_cell : (Term.compound Term.consName [head, tail]).text =
    "[" ++ head.text ++ tail.textAt .rest ++ "]" := rfl

theorem textAt_rest_cell : (Term.compound Term.consName [head, tail]).textAt .rest =
    ", " ++ head.text ++ tail.textAt .rest := rfl

theorem textAt_rest_atom : (Term.atom name).textAt .rest =
    if name == Term.nilName then "" else "|" ++ atomText name := rfl

theorem textAt_compound (place : Term.Place) (h : name = Term.consName → args.length ≠ 2) :
    (Term.compound name args).textAt place =
      place.opening ++ (atomText name ++ ("(" ++ (Term.argsText args ++ ")"))) := by
  by_cases hargs : ∃ head tail, args = [head, tail]
  · obtain ⟨head, tail, rfl⟩ := hargs
    have hname : name ≠ Term.consName := fun hname => h hname rfl
    cases place <;> simp [Term.textAt, Term.argsText, hname, String.append_assoc]
  · rw [Term.textAt.eq_8 place name args fun head tail heq => hargs ⟨head, tail, heq⟩]
    simp [String.append_assoc]

/-- The rest of a list is empty or starts with a comma or a bar. -/
theorem separates_textAt_rest (t : Term) : Separates (t.textAt .rest) := by
  have hbar : ∀ s : String, Separates (Term.Place.rest.opening ++ s) := separates_bar
  cases t with
  | atom name =>
    by_cases hnil : name = Term.nilName
    · simpa [textAt_rest_atom, hnil] using separates_empty
    · simpa [textAt_rest_atom, hnil] using separates_bar _
  | compound name args =>
    by_cases hcell : name = Term.consName → args.length ≠ 2
    · rw [textAt_compound _ hcell]
      exact hbar _
    · obtain ⟨rfl, hlength⟩ : name = Term.consName ∧ args.length = 2 := by simpa using hcell
      obtain ⟨head, tail, rfl⟩ := List.length_eq_two.mp hlength
      rw [textAt_rest_cell, String.append_assoc]
      exact separates_comma _
  | _ => simpa only [Term.textAt, String.append_assoc] using hbar _

end Texts

/-- What is written for a derivation that is no list, with the bar before it where it ends one. -/
theorem TermTree.spells_of_whole {t : TermTree} (hrest : t.value.textAt .rest = "|" ++ t.value.text)
    (hafter : t.afterFirst = .bar :: t.tokens) (h : Spells t.value.text t.tokens) :
    Spells t.value.text t.tokens ∧ Spells (t.value.textAt .rest) t.afterFirst := by
  rw [hrest, hafter]
  exact ⟨h, h.bar⟩

/-- A written derivation is written with its tokens, on its own and as the rest of a list. -/
theorem TermTree.IsWritten.spells {t : TermTree} (h : t.IsWritten) :
    Spells t.value.text t.tokens ∧ Spells (t.value.textAt .rest) t.afterFirst := by
  induction h with
  | @atom name h =>
    have hrest : (Term.atom name).textAt .rest = "|" ++ (Term.atom name).text := by
      rw [textAt_rest_atom, beq_eq_false_iff_ne.mpr h]
      rfl
    exact spells_of_whole hrest rfl (.name name)
  | var h => exact spells_of_whole rfl rfl (Spells.var h)
  | number h => exact spells_of_whole rfl rfl (Spells.number h)
  | string text => exact spells_of_whole rfl rfl (Spells.string text)
  | nil => exact ⟨Spells.rightBracket.leftBracket, .empty⟩
  | @cons head tail _ _ ihhead ihtail =>
    have hitems := ihhead.1.append ihtail.2 (separates_textAt_rest _)
    rw [value_cons, text_cell, textAt_rest_cell, tokens_cons, afterFirst_cons]
    refine ⟨?_, ?_⟩
    · have hclosed := hitems.append .rightBracket separates_rightBracket
      simpa [String.append_assoc] using hclosed.leftBracket
    · simpa [String.append_assoc] using hitems.comma
  | @compound name first rest hcell _ _ ihfirst ihrest =>
    have hargs : Spells (", ".intercalate ((first :: rest).map fun t => t.value.text))
        (commas tokens first rest) := .commas ihfirst.1 fun t ht => (ihrest t ht).1
    have hcall := (Spells.name name).append
      (hargs.append .rightParen separates_rightParen).leftParen (separates_leftParen _)
    have htext (place : Term.Place) : (TermTree.compound name first rest).value.textAt place =
        place.opening ++ (atomText name ++
          ("(" ++ (", ".intercalate ((first :: rest).map fun t => t.value.text) ++ ")"))) := by
      rw [value_compound, textAt_compound place (by simpa using hcell), argsText_eq, List.map_map]
      rfl
    have hwhole := (htext .whole).trans String.empty_append
    refine spells_of_whole ((htext .rest).trans (congrArg _ hwhole.symm)) rfl ?_
    rw [tokens_compound]
    exact Eq.mpr (congrArg (Spells · _) hwhole) hcall

theorem TermTree.spells_written (t : TermTree) (h : ∀ token ∈ t.tokens, token.WellSpelled) :
    Spells t.value.text t.written.tokens := by
  simpa using (t.isWritten_written h).spells.1

/-! ## Written goals, clauses and queries -/

theorem GoalTree.spells_written (g : GoalTree) (h : ∀ token ∈ g.tokens, token.WellSpelled) :
    Spells g.goal.text g.written.tokens := by
  induction g with
  | not g ih => exact (ih fun token htoken => h token (by simp [htoken])).not
  | call t => exact t.spells_written h
  | unify l r =>
    have hl := l.spells_written fun token htoken => h token (by simp [htoken])
    have hr := r.spells_written fun token htoken => h token (by simp [htoken])
    exact hl.eq hr
  | notUnify l r =>
    have hl := l.spells_written fun token htoken => h token (by simp [htoken])
    have hr := r.spells_written fun token htoken => h token (by simp [htoken])
    exact hl.notEq hr

/-- The goals of a conjunction are written one after the other. -/
theorem GoalTree.spells_conjunction (first : GoalTree) (rest : List GoalTree)
    (h : ∀ token ∈ commas tokens first rest, token.WellSpelled) :
    Spells (Goal.conjunctionText ((first :: rest).map goal))
      (commas tokens first.written (rest.map written)) := by
  have hgoals : ∀ g ∈ first :: rest, Spells g.goal.text g.written.tokens :=
    fun g hg => g.spells_written (forall_item_tokens h g hg)
  obtain ⟨hfirst, hrest⟩ := List.forall_mem_cons.mp hgoals
  have hcommas : Spells (", ".intercalate ((first :: rest).map fun g => g.goal.text))
      (commas (fun g => g.written.tokens) first rest) := .commas hfirst hrest
  simpa [Goal.conjunctionText, commas, Function.comp_def, List.flatMap_map] using hcommas

theorem ClauseTree.scans_written (t : ClauseTree) (h : ∀ token ∈ t.tokens, token.WellSpelled) :
    Scans t.clause.text.toList (t.written.tokens.flatMap Token.written) := by
  cases t with
  | fact head =>
    have hhead := head.spells_written fun token htoken => h token (by simp [tokens, htoken])
    simpa [clause, Clause.text, written, tokens, Token.written] using
      hhead ['.'] [.period] (.inr (.inl rfl)) .period
  | rule head first rest =>
    have hhead := head.spells_written fun token htoken => h token (by simp [tokens, htoken])
    have hbody := GoalTree.spells_conjunction first rest
      fun token htoken => h token (by simp [tokens, htoken])
    simpa [clause, Clause.text, written, tokens, Token.written] using
      hhead.neck hbody ['.'] [.period] (.inr (.inl rfl)) .period

theorem QueryTree.scans_written (t : QueryTree) (h : ∀ token ∈ t.tokens, token.WellSpelled) :
    Scans t.query.text.toList (t.written.tokens.flatMap Token.written) := by
  have hgoals := GoalTree.spells_conjunction t.first t.rest
    fun token htoken => h token (by simp [tokens, htoken])
  simpa [query, Query.text, written, tokens] using hgoals [] [] (.inl rfl) .nil

end Grammar

end OntoLogic
