-- SUMMARY: Exactly what the grammar derives is read.
import OntoLogic.Proofs.Syntax.Grammar

/-!
# Reading is deriving

A text is read as a clause or as a query exactly when its tokens have a derivation that does not
nest too deeply and whose head and goals can be called. Before that, each anonymous variable among
the tokens is given its number.

Each reader is compared with the trees of what it reads. It reads nothing but the tokens of such a
tree, and it reads a tree to its end when what follows does not make more of it.
-/

namespace OntoLogic

/-! ## Anonymous variables -/

namespace Token

/-- Gives each `_` among some tokens its number; so many have been numbered before. -/
def numberFrom : Nat → List Token → List Token
  | _, [] => []
  | n, .var name :: tokens =>
    if name = "_" then .var (Cursor.anonymousName (n + 1)) :: numberFrom (n + 1) tokens
    else .var name :: numberFrom n tokens
  | n, token :: tokens => token :: numberFrom n tokens

def isVar : Token → Bool
  | .var _ => true
  | _ => false

theorem ne_var {token : Token} (h : token.isVar = false) (name : String) : token ≠ .var name := by
  rintro rfl
  cases h

theorem numberFrom_cons {token : Token} (h : token ≠ .var "_") (n : Nat) (tokens : List Token) :
    numberFrom n (token :: tokens) = token :: numberFrom n tokens := by
  cases token <;> simp_all [numberFrom]

theorem length_numberFrom (n : Nat) (tokens : List Token) :
    (numberFrom n tokens).length = tokens.length := by
  induction tokens generalizing n with
  | nil => rfl
  | cons token tokens ih =>
    cases token with
    | var name =>
      unfold numberFrom
      split <;> simp [ih]
    | _ => simp [numberFrom, ih]

/-- The number of a `_` is how many there are up to it. -/
theorem getElem?_numberFrom (n : Nat) (tokens : List Token) (i : Nat) :
    (numberFrom n tokens)[i]? = tokens[i]?.map fun token =>
      if token = .var "_" then
        .var (Cursor.anonymousName (n + (tokens.take (i + 1)).count (.var "_")))
      else token := by
  induction tokens generalizing n i with
  | nil => rfl
  | cons token tokens ih =>
    by_cases htoken : token = .var "_"
    · subst htoken
      cases i with
      | zero => simp [numberFrom]
      | succ i =>
        simp only [numberFrom, if_true, List.getElem?_cons_succ, ih, List.take_succ_cons,
          List.count_cons_self]
        simp only [Nat.add_assoc, Nat.add_comm 1]
    · rw [numberFrom_cons htoken]
      cases i with
      | zero => simp [htoken]
      | succ i =>
        simp only [List.getElem?_cons_succ, ih, List.take_succ_cons, List.count_cons_of_ne htoken]

end Token

open Grammar

/-! ## Derivations -/

/-- A clause is derived from some tokens. Its head and its goals can be called, and its derivation
nests no deeper than allowed. -/
def Clause.Derived (tokens : List Token) (c : Clause) : Prop :=
  ∃ t : ClauseTree, t.tokens = tokens ∧ t.clause = c ∧ c.head.functor?.isSome ∧
    (∀ g ∈ c.body, g.isCallable = true) ∧ t.levels ≤ maxNesting

/-- A query is derived from some tokens. Its goals can be called, and its derivation nests no deeper
than allowed. -/
def Query.Derived (tokens : List Token) (q : Query) : Prop :=
  ∃ t : QueryTree, t.tokens = tokens ∧ t.query = q ∧ (∀ g ∈ q.goals, g.isCallable = true) ∧
    t.levels ≤ maxNesting

theorem Clause.not_derived_nil (c : Clause) : ¬c.Derived [] := by
  rintro ⟨t, htokens, -⟩
  cases t <;> simp [ClauseTree.tokens] at htokens

theorem Query.not_derived_nil (q : Query) : ¬q.Derived [] := by
  rintro ⟨t, htokens, -⟩
  simp [QueryTree.tokens, commas, t.first.tokens_ne_nil] at htokens

namespace Cursor

variable {c c' : Cursor} {token : Token} {rest : List Token} {n : Nat}

/-- The tokens that have not been read, with the numbers of anonymous variables. -/
def numbered (c : Cursor) : List Token :=
  Token.numberFrom c.anonymous (c.tokens.map Prod.fst)

theorem length_numbered : c.numbered.length = c.tokens.length := by
  simp [numbered, Token.length_numberFrom]

theorem numbered_eq_nil : c.numbered = [] ↔ c.tokens = [] := by
  rw [← List.length_eq_zero_iff, length_numbered, List.length_eq_zero_iff]

/-! ## Single tokens -/

theorem numbered_of_eat (h : c.eat token = some c') (htoken : token.isVar = false) :
    c.numbered = token :: c'.numbered := by
  unfold eat at h
  split at h
  · cases h
  · next next offset tokens heq =>
    split at h
    · next hnext =>
      cases h
      simp [numbered, heq, hnext, Token.numberFrom_cons (Token.ne_var htoken _)]
    · cases h

theorem numbered_ne_of_eat (h : c.eat token = none) (htoken : token.isVar = false) :
    c.numbered ≠ token :: rest := by
  unfold eat at h
  split at h
  · next heq => simp [numbered, heq, Token.numberFrom]
  · next next offset tokens heq =>
    split at h
    · cases h
    · next hne =>
      cases next with
      | var name =>
        simp only [numbered, heq, List.map_cons, Token.numberFrom]
        split <;> simpa using fun hname => absurd hname.symm (Token.ne_var htoken _)
      | _ => simp_all [numbered, Token.numberFrom]

theorem exists_eat (h : c.numbered = token :: rest) (htoken : token.isVar = false) :
    ∃ c', c.eat token = some c' ∧ c'.numbered = rest := by
  cases heat : c.eat token with
  | none => exact absurd h (numbered_ne_of_eat heat htoken)
  | some c' =>
    have hcons := (numbered_of_eat heat htoken).symm.trans h
    exact ⟨c', rfl, (List.cons.inj hcons).2⟩

theorem eat_eq_none (htoken : token.isVar = false) (h : ∀ ts, c.numbered ≠ token :: ts) :
    c.eat token = none := by
  cases heat : c.eat token with
  | none => rfl
  | some c' => exact absurd (numbered_of_eat heat htoken) (h _)

theorem numbered_of_expect {what : String} (h : c.expect token what = .ok c')
    (htoken : token.isVar = false) : c.numbered = token :: c'.numbered := by
  unfold expect at h
  split at h
  · next heat =>
    cases h
    exact numbered_of_eat heat htoken
  · cases h

theorem exists_expect (what : String) (h : c.numbered = token :: rest)
    (htoken : token.isVar = false) :
    ∃ c', c.expect token what = .ok c' ∧ c'.numbered = rest := by
  obtain ⟨c', heat, hc'⟩ := exists_eat h htoken
  exact ⟨c', by simp [expect, heat], hc'⟩

/-- The first token is taken off, whatever is done with it. -/
theorem numbered_cons {offset : Nat} {tokens : List (Token × Nat)}
    (h : c.tokens = (token, offset) :: tokens) (htoken : token.isVar = false) :
    c.numbered = token :: numbered { c with tokens } := by
  simp [numbered, h, Token.numberFrom_cons (Token.ne_var htoken _)]

theorem numbered_var {offset : Nat} {name : String} {tokens : List (Token × Nat)}
    (h : c.tokens = (.var name, offset) :: tokens) (hname : name ≠ "_") :
    c.numbered = .var name :: numbered { c with tokens } := by
  simp [numbered, h, Token.numberFrom, hname]

theorem numbered_anonymous {offset : Nat} {tokens : List (Token × Nat)}
    (h : c.tokens = (.var "_", offset) :: tokens) :
    c.numbered = .var (anonymousName (c.anonymous + 1)) ::
      numbered { c with tokens, anonymous := c.anonymous + 1 } := by
  simp [numbered, h, Token.numberFrom]

theorem exists_cons (h : c.numbered = token :: rest) (htoken : token.isVar = false) :
    ∃ offset tokens, c.tokens = (token, offset) :: tokens ∧ numbered { c with tokens } = rest := by
  obtain ⟨c', heat, rfl⟩ := exists_eat h htoken
  unfold eat at heat
  split at heat
  · cases heat
  · next next offset tokens heq =>
    split at heat
    · next hnext =>
      cases heat
      exact ⟨offset, tokens, hnext ▸ heq, rfl⟩
    · cases heat

theorem exists_var {name : String} (h : c.numbered = .var name :: rest) :
    ∃ offset tokens, c.tokens = (.var name, offset) :: tokens ∧ name ≠ "_" ∧
        numbered { c with tokens } = rest ∨
      c.tokens = (.var "_", offset) :: tokens ∧ name = anonymousName (c.anonymous + 1) ∧
        numbered { c with tokens, anonymous := c.anonymous + 1 } = rest := by
  cases heq : c.tokens with
  | nil => simp [numbered, heq, Token.numberFrom] at h
  | cons p tokens =>
    obtain ⟨token, offset⟩ := p
    refine ⟨offset, tokens, ?_⟩
    cases token with
    | var name' =>
      by_cases hname : name' = "_"
      · subst hname
        obtain ⟨hname, hrest⟩ := List.cons.inj ((numbered_anonymous heq).symm.trans h)
        cases hname
        exact .inr ⟨rfl, rfl, hrest⟩
      · obtain ⟨hname', hrest⟩ := List.cons.inj ((numbered_var heq hname).symm.trans h)
        cases hname'
        exact .inl ⟨rfl, hname, hrest⟩
    | _ => simp [numbered_cons heq rfl] at h

/-! ## Readers -/

theorem exists_of_bind {ε α β : Type} {r : Except ε α} {f : α → Except ε β} {b : β}
    (h : r >>= f = .ok b) : ∃ a, r = .ok a ∧ f a = .ok b := by
  cases r with
  | error e => cases h
  | ok a => exact ⟨a, rfl, h⟩

/-- A reader reads exactly the trees that are accepted. What follows a tree must not make more of
it. -/
structure Parses {α β : Type} (item : Cursor → Except ParseError (β × Cursor))
    (tokens : α → List Token) (value : α → β) (accepted : α → Prop) (after : List Token) :
    Prop where
  sound : ∀ {c v c'}, item c = .ok (v, c') →
    ∃ x, accepted x ∧ value x = v ∧ c.numbered = tokens x ++ c'.numbered
  complete : ∀ {c x rest}, accepted x → c.numbered = tokens x ++ rest → Stops after rest →
    ∃ c', item c = .ok (value x, c') ∧ c'.numbered = rest

section Sequence

variable {α β : Type} {item : Cursor → Except ParseError (β × Cursor)} {tokens : α → List Token}
  {value : α → β} {accepted : α → Prop} {after : List Token}

theorem Parses.sequenceUpTo_sound (h : Parses item tokens value accepted after) {limit : Nat}
    {vs : List β} (hseq : sequenceUpTo item limit c = .ok (vs, c')) :
    ∃ x xs, (∀ y ∈ x :: xs, accepted y) ∧ (x :: xs).map value = vs ∧
      c.numbered = commas tokens x xs ++ c'.numbered := by
  induction limit generalizing c vs with
  | zero => cases hseq
  | succ limit ih =>
    unfold sequenceUpTo at hseq
    split at hseq
    · cases hseq
    · next v c₁ hitem =>
      obtain ⟨x, hx, rfl, hc⟩ := h.sound hitem
      split at hseq
      · cases hseq
        exact ⟨x, [], by simpa using hx, rfl, by rw [hc, commas_nil]⟩
      · next c₂ heat =>
        split at hseq
        · cases hseq
        · next vs' c₃ hrest =>
          cases hseq
          obtain ⟨y, ys, hys, rfl, hc₂⟩ := ih hrest
          refine ⟨x, y :: ys, List.forall_mem_cons.mpr ⟨hx, hys⟩, rfl, ?_⟩
          rw [hc, numbered_of_eat heat rfl, hc₂, commas_cons, List.append_assoc, List.cons_append]

theorem Parses.sequenceUpTo_complete (h : Parses item tokens value accepted after)
    (hcomma : .comma ∉ after) {limit : Nat} {x : α} {xs : List α} (hlimit : xs.length < limit)
    (haccepted : ∀ y ∈ x :: xs, accepted y) (hc : c.numbered = commas tokens x xs ++ rest)
    (hrest : Stops (.comma :: after) rest) :
    ∃ c', sequenceUpTo item limit c = .ok ((x :: xs).map value, c') ∧ c'.numbered = rest := by
  induction xs generalizing c x limit with
  | nil =>
    obtain ⟨limit, rfl⟩ := Nat.exists_eq_add_one_of_ne_zero (Nat.ne_zero_of_lt hlimit)
    rw [commas_nil] at hc
    obtain ⟨c₁, hitem, rfl⟩ := h.complete (haccepted x List.mem_cons_self) hc
      (hrest.mono (List.subset_cons_self _ _))
    have heat : c₁.eat .comma = none := eat_eq_none rfl (hrest _ List.mem_cons_self)
    exact ⟨c₁, by simp [sequenceUpTo, hitem, heat], rfl⟩
  | cons y ys ih =>
    obtain ⟨limit, rfl⟩ := Nat.exists_eq_add_one_of_ne_zero (Nat.ne_zero_of_lt hlimit)
    obtain ⟨hx, hys⟩ := List.forall_mem_cons.mp haccepted
    rw [commas_cons, List.append_assoc, List.cons_append] at hc
    obtain ⟨c₁, hitem, hc₁⟩ := h.complete hx hc (by simpa using hcomma)
    obtain ⟨c₂, heat, hc₂⟩ := exists_eat hc₁ rfl
    obtain ⟨c₃, hseq, hc₃⟩ := ih (Nat.lt_of_succ_lt_succ hlimit) hys hc₂
    refine ⟨c₃, ?_, hc₃⟩
    unfold Cursor.sequenceUpTo
    simp only [hitem, heat, hseq]
    rfl

/-- The items are separated by tokens, of which there are enough. -/
theorem Parses.sequence (h : Parses item tokens value accepted after) (hcomma : .comma ∉ after) :
    Parses (Cursor.sequence item) (fun p : α × List α => commas tokens p.1 p.2)
      (fun p => (p.1 :: p.2).map value) (fun p => ∀ y ∈ p.1 :: p.2, accepted y)
      (.comma :: after) where
  sound := by
    intro c vs c' hseq
    obtain ⟨x, xs, hxs, hvs, hc⟩ := h.sequenceUpTo_sound hseq
    exact ⟨(x, xs), hxs, hvs, hc⟩
  complete := by
    intro c p rest hp hc hrest
    have hlength : p.2.length ≤ c.tokens.length := by
      rw [← length_numbered, hc, List.length_append]
      exact (length_le_length_commas tokens p.1 p.2).trans (Nat.le_add_right _ _)
    exact h.sequenceUpTo_complete hcomma (Nat.lt_succ_of_le hlength) hp hc hrest

end Sequence

/-! ## Terms -/

theorem term_sound {levels : Nat} {v : Term}
    (hitem : Parses (term levels) TermTree.tokens TermTree.value (·.levels ≤ levels) afterTerm)
    (h : c.term (levels + 1) = .ok (v, c')) :
    ∃ t : TermTree, t.levels ≤ levels + 1 ∧ t.value = v ∧ c.numbered = t.tokens ++ c'.numbered := by
  have hitems := hitem.sequence (by decide)
  unfold term at h
  split at h
  · cases h
  · next token offset tokens heq =>
    dsimp only at h
    split at h
    · -- an atom or a compound
      next name =>
      rw [numbered_cons heq rfl]
      split at h
      · cases h
        exact ⟨.atom name, Nat.succ_pos _, rfl, rfl⟩
      · next c₁ heat =>
        obtain ⟨⟨_, c₂⟩, hargs, h⟩ := exists_of_bind h
        obtain ⟨c₃, hclose, h⟩ := exists_of_bind h
        cases h
        obtain ⟨⟨first, args⟩, hlevels, rfl, hc₁⟩ := hitems.sound hargs
        refine ⟨.compound name first args, TermTree.levels_compound_le.mpr hlevels, by simp, ?_⟩
        rw [numbered_of_eat heat rfl, hc₁, numbered_of_expect hclose rfl]
        simp
    · next name =>
      split at h
      · next hname =>
        subst hname
        cases h
        exact ⟨.var _, Nat.succ_pos _, rfl, numbered_anonymous heq⟩
      · next hname =>
        cases h
        exact ⟨.var name, Nat.succ_pos _, rfl, numbered_var heq hname⟩
    · next spelling =>
      cases h
      exact ⟨.number spelling, Nat.succ_pos _, rfl, numbered_cons heq rfl⟩
    · next text =>
      cases h
      exact ⟨.string text, Nat.succ_pos _, rfl, numbered_cons heq rfl⟩
    · -- a list
      rw [numbered_cons heq rfl]
      split at h
      · next c₁ heat =>
        cases h
        exact ⟨.nil, Nat.succ_pos _, rfl, by rw [numbered_of_eat heat rfl]; rfl⟩
      · obtain ⟨⟨_, c₁⟩, hargs, h⟩ := exists_of_bind h
        obtain ⟨⟨first, items⟩, hlevels, rfl, hc⟩ := hitems.sound hargs
        dsimp only at h
        split at h
        · next c₂ heat =>
          obtain ⟨⟨_, c₃⟩, htail, h⟩ := exists_of_bind h
          obtain ⟨c₄, hclose, h⟩ := exists_of_bind h
          cases h
          obtain ⟨tail, htailLevels, rfl, hc₂⟩ := hitem.sound htail
          refine ⟨.listTail first items tail,
            TermTree.levels_listTail_le.mpr ⟨hlevels, htailLevels⟩, by simp, ?_⟩
          rw [hc, numbered_of_eat heat rfl, hc₂, numbered_of_expect hclose rfl]
          simp
        · obtain ⟨_, hnil, h⟩ := exists_of_bind h
          cases hnil
          obtain ⟨c₂, hclose, h⟩ := exists_of_bind h
          cases h
          refine ⟨.list first items, TermTree.levels_list_le.mpr hlevels, by simp, ?_⟩
          rw [hc, numbered_of_expect hclose rfl]
          simp
    · -- a term in parentheses
      obtain ⟨⟨_, c₁⟩, hinner, h⟩ := exists_of_bind h
      obtain ⟨c₂, hclose, h⟩ := exists_of_bind h
      cases h
      obtain ⟨inner, hlevels, rfl, hc⟩ := hitem.sound hinner
      refine ⟨.paren inner, Nat.succ_le_succ hlevels, rfl, ?_⟩
      rw [numbered_cons heq rfl, hc, numbered_of_expect hclose rfl]
      simp
    · cases h

theorem term_complete {levels : Nat} {t : TermTree}
    (hitem : Parses (term levels) TermTree.tokens TermTree.value (·.levels ≤ levels) afterTerm)
    (hlevels : t.levels ≤ levels + 1) (hc : c.numbered = t.tokens ++ rest)
    (hrest : Stops afterTerm rest) :
    ∃ c', c.term (levels + 1) = .ok (t.value, c') ∧ c'.numbered = rest := by
  have hitems := hitem.sequence (by decide)
  cases t with
  | atom name =>
    obtain ⟨offset, tokens, heq, rfl⟩ := exists_cons hc rfl
    have heat : eat { c with tokens } .leftParen = none :=
      eat_eq_none rfl (hrest _ (by simp [afterTerm]))
    exact ⟨{ c with tokens }, by simp [term, heq, heat, TermTree.value], rfl⟩
  | var name =>
    obtain ⟨offset, tokens, ⟨heq, hname, rfl⟩ | ⟨heq, rfl, rfl⟩⟩ := exists_var hc
    · exact ⟨{ c with tokens }, by simp [term, heq, hname, TermTree.value], rfl⟩
    · exact ⟨_, by simp [term, heq, TermTree.value], rfl⟩
  | number | string =>
    obtain ⟨offset, tokens, heq, rfl⟩ := exists_cons hc rfl
    exact ⟨{ c with tokens }, by simp [term, heq, TermTree.value], rfl⟩
  | compound name first args =>
    rw [TermTree.tokens_compound, List.cons_append, List.cons_append, List.append_assoc] at hc
    obtain ⟨offset, tokens, heq, hnext⟩ := exists_cons hc rfl
    obtain ⟨c₁, heat, hc₁⟩ := exists_eat hnext rfl
    obtain ⟨c₂, hargs, hc₂⟩ := hitems.complete (x := (first, args))
      (TermTree.levels_compound_le.mp hlevels) hc₁ (by simp [afterTerm])
    obtain ⟨c₃, hclose, hc₃⟩ := exists_expect "`,` or `)`" hc₂ rfl
    refine ⟨c₃, ?_, hc₃⟩
    simp only [term, heq, heat, hargs, hclose, bind, Except.bind, TermTree.value_compound]
    rfl
  | nil =>
    obtain ⟨offset, tokens, heq, hnext⟩ := exists_cons hc rfl
    obtain ⟨c₁, heat, hc₁⟩ := exists_eat hnext rfl
    exact ⟨c₁, by simp [term, heq, heat, TermTree.value], hc₁⟩
  | list first items =>
    rw [TermTree.tokens_list, List.cons_append, List.append_assoc] at hc
    obtain ⟨offset, tokens, heq, hnext⟩ := exists_cons hc rfl
    have hopen : eat { c with tokens } .rightBracket = none :=
      eat_eq_none rfl fun _ => hnext ▸ commas_ne_rightBracket
    obtain ⟨c₁, hargs, hc₁⟩ := hitems.complete (x := (first, items))
      (TermTree.levels_list_le.mp hlevels) hnext (by simp [afterTerm])
    obtain ⟨c₂, hclose, hc₂⟩ := exists_expect "`,`, `|` or `]`" hc₁ rfl
    have hbar : c₁.eat .bar = none := eat_eq_none rfl (by simp [hc₁])
    refine ⟨c₂, ?_, hc₂⟩
    simp only [term, heq, hopen, hargs, hbar, hclose, bind, pure, Except.bind, Except.pure,
      TermTree.value_list]
  | listTail first items tail =>
    obtain ⟨hitemLevels, htailLevels⟩ := TermTree.levels_listTail_le.mp hlevels
    rw [TermTree.tokens_listTail, List.cons_append, List.append_assoc, List.cons_append,
      List.append_assoc] at hc
    obtain ⟨offset, tokens, heq, hnext⟩ := exists_cons hc rfl
    have hopen : eat { c with tokens } .rightBracket = none :=
      eat_eq_none rfl fun _ => hnext ▸ commas_ne_rightBracket
    obtain ⟨c₁, hargs, hc₁⟩ := hitems.complete (x := (first, items)) hitemLevels hnext
      (by simp [afterTerm])
    obtain ⟨c₂, hbar, hc₂⟩ := exists_eat hc₁ rfl
    obtain ⟨c₃, htail, hc₃⟩ := hitem.complete htailLevels hc₂ (by simp [afterTerm])
    obtain ⟨c₄, hclose, hc₄⟩ := exists_expect "`,`, `|` or `]`" hc₃ rfl
    refine ⟨c₄, ?_, hc₄⟩
    simp only [term, heq, hopen, hargs, hbar, htail, hclose, bind, pure, Except.bind, Except.pure,
      TermTree.value_listTail]
  | paren inner =>
    rw [TermTree.tokens_paren, List.cons_append, List.append_assoc] at hc
    obtain ⟨offset, tokens, heq, hnext⟩ := exists_cons hc rfl
    obtain ⟨c₁, hinner, hc₁⟩ := hitem.complete (Nat.le_of_succ_le_succ hlevels) hnext
      (by simp [afterTerm])
    obtain ⟨c₂, hclose, hc₂⟩ := exists_expect "`)`" hc₁ rfl
    refine ⟨c₂, ?_, hc₂⟩
    simp only [term, heq, hinner, hclose, bind, pure, Except.bind, Except.pure, TermTree.value]

/-- The levels that are left are those of the trees that are read. -/
theorem term_parses (levels : Nat) :
    Parses (term levels) TermTree.tokens TermTree.value (·.levels ≤ levels) afterTerm := by
  induction levels with
  | zero =>
    refine ⟨fun h => (by cases h), fun {c t rest} hlevels _ _ => ?_⟩
    exact absurd t.levels_pos (Nat.not_lt.mpr hlevels)
  | succ levels ih => exact ⟨term_sound ih, term_complete ih⟩

/-! ## Goals -/

theorem plainGoal_sound {levels : Nat} {v : Goal} (h : c.plainGoal levels = .ok (v, c')) :
    ∃ g : GoalTree, (g.levels ≤ levels ∧ g.goal.isCallable = true) ∧ g.goal = v ∧
      c.numbered = g.tokens ++ c'.numbered := by
  have hterm := term_parses levels
  unfold plainGoal at h
  obtain ⟨⟨_, c₁⟩, hleft, h⟩ := exists_of_bind h
  obtain ⟨l, hl, rfl, hc⟩ := hterm.sound hleft
  dsimp only at h
  split at h
  · next c₂ heat =>
    obtain ⟨⟨_, c₃⟩, hright, h⟩ := exists_of_bind h
    obtain ⟨r, hr, rfl, hc₂⟩ := hterm.sound hright
    cases h
    refine ⟨.unify l r, ⟨max_le hl hr, rfl⟩, rfl, ?_⟩
    rw [hc, numbered_of_eat heat rfl, hc₂]
    simp
  · split at h
    · next c₂ heat =>
      obtain ⟨⟨_, c₃⟩, hright, h⟩ := exists_of_bind h
      obtain ⟨r, hr, rfl, hc₂⟩ := hterm.sound hright
      cases h
      refine ⟨.notUnify l r, ⟨max_le hl hr, rfl⟩, rfl, ?_⟩
      rw [hc, numbered_of_eat heat rfl, hc₂]
      simp
    · split at h
      · next hcallable =>
        cases h
        exact ⟨.call l, ⟨hl, hcallable⟩, rfl, hc⟩
      · cases h

theorem plainGoal_complete {levels : Nat} {g : GoalTree} (hplain : ∀ g', g ≠ .not g')
    (hlevels : g.levels ≤ levels) (hcallable : g.goal.isCallable = true)
    (hc : c.numbered = g.tokens ++ rest) (hrest : Stops afterGoal rest) :
    ∃ c', c.plainGoal levels = .ok (g.goal, c') ∧ c'.numbered = rest := by
  have hterm := term_parses levels
  have hsub : afterTerm ⊆ afterGoal := by decide
  cases g with
  | not g => exact absurd rfl (hplain g)
  | call t =>
    obtain ⟨c₁, hleft, rfl⟩ := hterm.complete hlevels hc (hrest.mono hsub)
    have heq : c₁.eat .eq = none := eat_eq_none rfl (hrest _ (by simp [afterGoal]))
    have hnotEq : c₁.eat .notEq = none := eat_eq_none rfl (hrest _ (by simp [afterGoal]))
    have hsome : t.value.functor?.isSome = true := hcallable
    exact ⟨c₁, by simp [plainGoal, hleft, heq, hnotEq, hsome, bind, Except.bind, pure, Except.pure,
      GoalTree.goal], rfl⟩
  | unify l r =>
    obtain ⟨hl, hr⟩ := max_le_iff.mp hlevels
    rw [GoalTree.tokens_unify, List.append_assoc, List.cons_append] at hc
    obtain ⟨c₁, hleft, hc₁⟩ := hterm.complete hl hc (by simp [afterTerm])
    obtain ⟨c₂, heat, hc₂⟩ := exists_eat hc₁ rfl
    obtain ⟨c₃, hright, hc₃⟩ := hterm.complete hr hc₂ (hrest.mono hsub)
    exact ⟨c₃, by simp [plainGoal, hleft, heat, hright, bind, Except.bind, pure, Except.pure,
      GoalTree.goal], hc₃⟩
  | notUnify l r =>
    obtain ⟨hl, hr⟩ := max_le_iff.mp hlevels
    rw [GoalTree.tokens_notUnify, List.append_assoc, List.cons_append] at hc
    obtain ⟨c₁, hleft, hc₁⟩ := hterm.complete hl hc (by simp [afterTerm])
    have heq : c₁.eat .eq = none := eat_eq_none rfl (by simp [hc₁])
    obtain ⟨c₂, heat, hc₂⟩ := exists_eat hc₁ rfl
    obtain ⟨c₃, hright, hc₃⟩ := hterm.complete hr hc₂ (hrest.mono hsub)
    exact ⟨c₃, by simp [plainGoal, hleft, heq, heat, hright, bind, Except.bind, pure, Except.pure,
      GoalTree.goal], hc₃⟩

theorem goal_sound {levels : Nat} {v : Goal} (h : c.goal levels = .ok (v, c')) :
    ∃ g : GoalTree, (g.levels ≤ levels ∧ g.goal.isCallable = true) ∧ g.goal = v ∧
      c.numbered = g.tokens ++ c'.numbered := by
  induction levels generalizing c v with
  | zero =>
    unfold goal at h
    split at h
    · cases h
    · exact plainGoal_sound h
  | succ levels ih =>
    unfold goal at h
    split at h
    · next c₁ heat =>
      obtain ⟨⟨_, c₂⟩, hinner, h⟩ := exists_of_bind h
      cases h
      obtain ⟨g, ⟨hlevels, hcallable⟩, rfl, hc₁⟩ := ih hinner
      refine ⟨.not g, ⟨Nat.succ_le_succ hlevels, hcallable⟩, rfl, ?_⟩
      rw [numbered_of_eat heat rfl, hc₁, GoalTree.tokens_not, List.cons_append]
    · exact plainGoal_sound h

/-- A goal that is no negation does not begin like one. -/
theorem goal_plain (levels : Nat) {g : GoalTree} (hplain : ∀ g', g ≠ .not g')
    (hc : c.numbered = g.tokens ++ rest) : c.goal levels = c.plainGoal levels := by
  have heat : c.eat .not = none := eat_eq_none rfl fun _ =>
    hc ▸ GoalTree.tokens_ne rfl fun g' hg => absurd hg (hplain g')
  cases levels with
  | zero => simp only [goal, heat]
  | succ levels => simp only [goal, heat]

theorem goal_complete {levels : Nat} {g : GoalTree} (hlevels : g.levels ≤ levels)
    (hcallable : g.goal.isCallable = true) (hc : c.numbered = g.tokens ++ rest)
    (hrest : Stops afterGoal rest) :
    ∃ c', c.goal levels = .ok (g.goal, c') ∧ c'.numbered = rest := by
  induction g generalizing c levels with
  | not g ih =>
    obtain ⟨levels, rfl⟩ := Nat.exists_eq_add_one_of_ne_zero (Nat.ne_zero_of_lt hlevels)
    rw [GoalTree.tokens_not, List.cons_append] at hc
    obtain ⟨c₁, heat, hc₁⟩ := exists_eat hc rfl
    obtain ⟨c₂, hinner, hc₂⟩ := ih (Nat.le_of_succ_le_succ hlevels) hcallable hc₁
    exact ⟨c₂, by simp [goal, heat, hinner, bind, Except.bind, pure, Except.pure, GoalTree.goal],
      hc₂⟩
  | call | unify | notUnify =>
    rw [goal_plain levels (by simp) hc]
    exact plainGoal_complete (by simp) hlevels hcallable hc hrest

theorem goal_parses (levels : Nat) : Parses (goal levels) GoalTree.tokens GoalTree.goal
    (fun g => g.levels ≤ levels ∧ g.goal.isCallable = true) afterGoal :=
  ⟨goal_sound, fun h => goal_complete h.1 h.2⟩

theorem goals_parses : Parses goals
    (fun p : GoalTree × List GoalTree => commas GoalTree.tokens p.1 p.2)
    (fun p => (p.1 :: p.2).map GoalTree.goal)
    (fun p => ∀ g ∈ p.1 :: p.2, g.levels ≤ maxNesting ∧ g.goal.isCallable = true)
    (.comma :: afterGoal) :=
  (goal_parses maxNesting).sequence (by decide)

/-! ## Whole texts -/

theorem finish_iff : c.finish = .ok () ↔ c.numbered = [] := by
  rw [numbered_eq_nil]
  unfold finish
  split
  · next h => simpa using h
  · next h => simpa using h

theorem finish_period_iff : ((c.eat .period).getD c).finish = .ok () ↔
    ∃ period : Bool, c.numbered = if period then [.period] else [] := by
  rw [finish_iff]
  cases heat : c.eat .period with
  | none =>
    refine ⟨fun h => ⟨false, h⟩, ?_⟩
    rintro ⟨_ | _, h⟩
    · exact h
    · exact absurd h (numbered_ne_of_eat heat rfl)
  | some c' =>
    have hc := numbered_of_eat heat rfl
    rw [Option.getD_some]
    refine ⟨fun h => ⟨true, by rw [hc, h, if_pos rfl]⟩, ?_⟩
    rintro ⟨_ | _, h⟩
    · simp [hc] at h
    · exact (List.cons.inj (hc.symm.trans h)).2

theorem numbered_of_period (h : c.period = .ok c') : c.numbered = .period :: c'.numbered := by
  unfold period at h
  split at h
  · cases h
  · exact numbered_of_expect h rfl

theorem exists_period (h : c.numbered = .period :: rest) :
    ∃ c', c.period = .ok c' ∧ c'.numbered = rest := by
  have hne : c.tokens.isEmpty = false := by
    simpa [← numbered_eq_nil] using h ▸ List.cons_ne_nil _ _
  obtain ⟨c', hperiod, hc'⟩ := exists_expect "`,` or `.`" h rfl
  exact ⟨c', by simp [period, hne, hperiod], hc'⟩

theorem body_sound {gs : List Goal} (h : c.body = .ok (gs, c')) :
    gs = [] ∧ c.numbered = c'.numbered ∨
    ∃ first rest, (∀ g ∈ first :: rest, g.levels ≤ maxNesting ∧ g.goal.isCallable = true) ∧
      (first :: rest).map GoalTree.goal = gs ∧
      c.numbered = .neck :: (commas GoalTree.tokens first rest ++ c'.numbered) := by
  unfold body at h
  split at h
  · cases h
    exact .inl ⟨rfl, rfl⟩
  · next c₁ heat =>
    split at h
    · cases h
    · obtain ⟨⟨first, rest⟩, haccepted, rfl, hc₁⟩ := goals_parses.sound h
      exact .inr ⟨first, rest, haccepted, rfl, by rw [numbered_of_eat heat rfl, hc₁]⟩

theorem body_complete {first : GoalTree} {gs : List GoalTree}
    (haccepted : ∀ g ∈ first :: gs, g.levels ≤ maxNesting ∧ g.goal.isCallable = true)
    (hc : c.numbered = .neck :: (commas GoalTree.tokens first gs ++ rest))
    (hrest : Stops (.comma :: afterGoal) rest) :
    ∃ c', c.body = .ok ((first :: gs).map GoalTree.goal, c') ∧ c'.numbered = rest := by
  obtain ⟨c₁, hneck, hc₁⟩ := exists_eat hc rfl
  obtain ⟨c₂, hgoals, hc₂⟩ := goals_parses.complete (x := (first, gs)) haccepted hc₁ hrest
  have hne : c₁.tokens.isEmpty = false := by
    simp [← numbered_eq_nil, hc₁, commas, first.tokens_ne_nil]
  have hperiod : c₁.eat .period = none := by
    refine eat_eq_none rfl fun _ => ?_
    rw [hc₁, commas, List.append_assoc]
    exact GoalTree.tokens_ne rfl (by simp)
  exact ⟨c₂, by simp [body, hneck, hne, hperiod, hgoals], hc₂⟩

theorem clause_sound {v : Clause} (h : c.clause = .ok v) : v.Derived c.numbered := by
  unfold clause at h
  obtain ⟨⟨_, c₁⟩, hhead, h⟩ := exists_of_bind h
  obtain ⟨head, hlevels, rfl, hc⟩ := (term_parses maxNesting).sound hhead
  dsimp only at h
  split at h
  · cases h
  · next hcallable =>
    obtain ⟨⟨gs, c₂⟩, hbody, h⟩ := exists_of_bind h
    obtain ⟨c₃, hperiod, h⟩ := exists_of_bind h
    obtain ⟨_, hfinish, h⟩ := exists_of_bind h
    cases h
    have hsome : head.value.functor?.isSome := by
      simpa [Option.isSome_iff_ne_none] using hcallable
    have hc₂ : c₂.numbered = [.period] := by
      rw [numbered_of_period hperiod, finish_iff.mp hfinish]
    rcases body_sound hbody with ⟨rfl, hc₁⟩ | ⟨first, rest, haccepted, rfl, hc₁⟩
    · refine ⟨.fact head, ?_, rfl, hsome, by simp, hlevels⟩
      rw [hc, hc₁, hc₂, ClauseTree.tokens]
    · refine ⟨.rule head first rest, ?_, rfl, hsome, ?_, ?_⟩
      · rw [hc, hc₁, hc₂, ClauseTree.tokens]
      · exact List.forall_mem_map.mpr fun g hg => (haccepted g hg).2
      · exact max_le hlevels (highest_le.mpr fun g hg => (haccepted g hg).1)

theorem clause_of_parts {c₁ c₂ : Cursor} {head : Term} {gs : List Goal}
    (hhead : c.term maxNesting = .ok (head, c₁)) (hcallable : head.functor?.isSome)
    (hbody : c₁.body = .ok (gs, c₂)) (hend : c₂.numbered = [.period]) :
    c.clause = .ok ⟨head, gs⟩ := by
  obtain ⟨c₃, hperiod, hc₃⟩ := exists_period hend
  have hfinish := finish_iff.mpr hc₃
  have hsome : head.functor?.isNone = false := by simpa [Option.isSome_iff_ne_none] using hcallable
  simp [clause, hhead, hsome, hbody, hperiod, hfinish, bind, Except.bind, pure, Except.pure]

theorem clause_complete {t : ClauseTree} (hc : t.tokens = c.numbered)
    (hcallable : t.clause.head.functor?.isSome) (hbody : ∀ g ∈ t.clause.body, g.isCallable = true)
    (hlevels : t.levels ≤ maxNesting) : c.clause = .ok t.clause := by
  have hterm := term_parses maxNesting
  cases t with
  | fact head =>
    obtain ⟨c₁, hhead, hc₁⟩ := hterm.complete hlevels hc.symm (by simp [afterTerm])
    have hneck : c₁.eat .neck = none := eat_eq_none rfl (by simp [hc₁])
    exact clause_of_parts hhead hcallable (by simp [body, hneck]) hc₁
  | rule head first rest =>
    obtain ⟨hhead, hgoals⟩ := max_le_iff.mp hlevels
    obtain ⟨c₁, hhead, hc₁⟩ := hterm.complete hhead hc.symm (by simp [afterTerm])
    have haccepted : ∀ g ∈ first :: rest, g.levels ≤ maxNesting ∧ g.goal.isCallable = true :=
      fun g hg => ⟨highest_le.mp hgoals g hg, hbody _ (List.mem_map_of_mem hg)⟩
    obtain ⟨c₂, hbody, hc₂⟩ := body_complete haccepted hc₁ (by simp [afterGoal])
    exact clause_of_parts hhead hcallable hbody hc₂

theorem clause_iff {v : Clause} : c.clause = .ok v ↔ v.Derived c.numbered := by
  refine ⟨clause_sound, ?_⟩
  rintro ⟨t, htokens, rfl, hcallable, hbody, hlevels⟩
  exact clause_complete htokens hcallable hbody hlevels

theorem query_iff {v : Query} : c.query = .ok v ↔ v.Derived c.numbered := by
  constructor
  · intro h
    unfold query at h
    obtain ⟨⟨_, c₁⟩, hgoals, h⟩ := exists_of_bind h
    obtain ⟨_, hfinish, h⟩ := exists_of_bind h
    cases h
    obtain ⟨⟨first, rest⟩, haccepted, rfl, hc⟩ := goals_parses.sound hgoals
    obtain ⟨period, hend⟩ := finish_period_iff.mp hfinish
    refine ⟨⟨first, rest, period⟩, ?_, rfl, ?_, ?_⟩
    · rw [hc, hend, QueryTree.tokens]
    · exact List.forall_mem_map.mpr fun g hg => (haccepted g hg).2
    · exact highest_le.mpr fun g hg => (haccepted g hg).1
  · rintro ⟨⟨first, rest, period⟩, htokens, rfl, hcallable, hlevels⟩
    have haccepted : ∀ g ∈ first :: rest, g.levels ≤ maxNesting ∧ g.goal.isCallable = true :=
      fun g hg => ⟨highest_le.mp hlevels g hg, hcallable _ (List.mem_map_of_mem hg)⟩
    have hstops : Stops (.comma :: afterGoal) (if period then [.period] else []) := by
      cases period <;> simp [afterGoal]
    obtain ⟨c₁, hgoals, hc₁⟩ :=
      goals_parses.complete (x := (first, rest)) haccepted htokens.symm hstops
    have hfinish := finish_period_iff.mpr ⟨period, hc₁⟩
    simp [query, hgoals, hfinish, bind, Except.bind, pure, Except.pure, QueryTree.query]

end Cursor

/-- Whatever is derived has a token, so that a text without tokens makes no difference. -/
theorem ofText_bind_iff {α : Type} {text : String} {a : α} {read : Cursor → Except ParseError α}
    {P : List Token → Prop} (hnil : ¬P []) (hread : ∀ c, read c = .ok a ↔ P c.numbered) :
    (Cursor.ofText text >>= read) = .ok a ↔
      ∃ tokens, Token.scan text = .ok tokens ∧ P (Token.numberFrom 0 (tokens.map Prod.fst)) := by
  unfold Cursor.ofText
  cases hscan : Token.scan text with
  | error e => simp [bind, Except.bind]
  | ok tokens =>
    cases tokens with
    | nil =>
      simpa [bind, Except.bind, throw, throwThe, MonadExceptOf.throw, Token.numberFrom] using hnil
    | cons p tokens =>
      have hread := hread { tokens := p :: tokens, endOffset := text.utf8ByteSize, anonymous := 0 }
      simpa [bind, Except.bind, pure, Except.pure, Cursor.numbered] using hread

/-- A clause or a query is read from a text exactly when it is derived from the tokens of the text
after the anonymous variables have been given numbers. No other tree has the same tokens. Each `_`
has as its number how many there are up to it, and the variables of what is derived are those of the
tokens in their order. -/
theorem parse_iff_derived (text : String) :
    (∀ c, Clause.parse text = .ok c ↔ ∃ tokens, Token.scan text = .ok tokens ∧
      c.Derived (Token.numberFrom 0 (tokens.map Prod.fst))) ∧
    (∀ q, Query.parse text = .ok q ↔ ∃ tokens, Token.scan text = .ok tokens ∧
      q.Derived (Token.numberFrom 0 (tokens.map Prod.fst))) ∧
    (∀ t t' : ClauseTree, t.tokens = t'.tokens → t = t') ∧
    (∀ t t' : QueryTree, t.tokens = t'.tokens → t = t') ∧
    (∀ (tokens : List Token) (i : Nat), (Token.numberFrom 0 tokens)[i]? =
      tokens[i]?.map fun token =>
        if token = .var "_" then
          .var (Cursor.anonymousName ((tokens.take (i + 1)).count (.var "_")))
        else token) ∧
    (∀ t : ClauseTree, t.clause.head.occurrences ++ t.clause.body.flatMap Goal.occurrences =
      varNames t.tokens) ∧
    (∀ t : QueryTree, t.query.goals.flatMap Goal.occurrences = varNames t.tokens) := by
  refine ⟨fun c => ?_, fun q => ?_, fun _ _ => ClauseTree.unique, fun _ _ => QueryTree.unique,
    fun tokens i => ?_, ClauseTree.occurrences_clause, QueryTree.occurrences_query⟩
  · change (Cursor.ofText text >>= Cursor.clause) = .ok c ↔ _
    exact ofText_bind_iff (P := fun ts => c.Derived ts) c.not_derived_nil fun _ => Cursor.clause_iff
  · change (Cursor.ofText text >>= Cursor.query) = .ok q ↔ _
    exact ofText_bind_iff (P := fun ts => q.Derived ts) q.not_derived_nil fun _ => Cursor.query_iff
  · simpa using Token.getElem?_numberFrom 0 tokens i

/-- A clause with all kinds of terms and goals is derived from its text; one with a variable for a
goal is not derived from its own. -/
theorem parse_iff_derived_likes :
    let text := "likes(_, [X, (Y) | _]) :- \\+ \\+ hates(X, \"a\", 2.5), Y = _, X \\= []."
    let c := (Clause.parse text).toOption.getD ⟨.nil, []⟩
    Clause.parse text = .ok c ∧
    c.head.occurrences ++ c.body.flatMap Goal.occurrences =
      ["_#1", "X", "Y", "_#2", "X", "Y", "_#3", "X"] ∧
    (∃ tokens, Token.scan text = .ok tokens ∧
      c.Derived (Token.numberFrom 0 (tokens.map Prod.fst))) ∧
    ∀ c : Clause, ¬∃ tokens, Token.scan "p :- X." = .ok tokens ∧
      c.Derived (Token.numberFrom 0 (tokens.map Prod.fst)) := by
  intro text c
  have hparse : Clause.parse text = .ok c := by decide +kernel
  refine ⟨hparse, by decide +kernel, ((parse_iff_derived text).1 c).mp hparse, ?_⟩
  intro c hderived
  have hparse : Clause.parse "p :- X." = .ok c := ((parse_iff_derived "p :- X.").1 c).mpr hderived
  cases hparse

end OntoLogic
