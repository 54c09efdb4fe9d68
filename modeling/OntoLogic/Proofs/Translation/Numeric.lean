-- SUMMARY: A clause that is described with numbers for arguments can be read when none has a power of ten.
import Mathlib.Data.List.Chain
import OntoLogic.Proofs.Translation.Numerals
import OntoLogic.Proofs.Translation.Structured

/-!
# Described clauses with numbers

A description with legal predicates and with numbers for arguments always gives a clause text. A
number with a power of ten is cut in two there, and a clause or a query has no number with a name
after it, so the text is well formed exactly when no number has such a power; then it is read as the
clause or the query with these numbers. What is scanned is followed through the text from left to
right.
-/

namespace OntoLogic

open Grammar

variable {rest after : List Char} {tokens us : List Token} {token : Token}

/-! ## Names after numbers -/

namespace Token

def isNumber : Token → Bool
  | .number _ => true
  | _ => false

def isAtom : Token → Bool
  | .atom _ => true
  | _ => false

end Token

namespace Grammar

/-- No number has a name after it. -/
def Apart (tokens : List Token) : Prop :=
  tokens.IsChain fun t u => t.isNumber = true → u.isAtom = false

theorem apart_singleton (token : Token) : Apart [token] :=
  .singleton _

theorem Apart.cons (h : Apart tokens) (htoken : token.isNumber = false) :
    Apart (token :: tokens) := by
  refine List.isChain_cons.mpr ⟨fun u _ hnumber => ?_, h⟩
  rw [htoken] at hnumber
  cases hnumber

/-- What is neither number nor name may stand between two parts. -/
theorem Apart.append_cons (h : Apart tokens) (hnumber : token.isNumber = false)
    (hatom : token.isAtom = false) (hus : Apart us) : Apart (tokens ++ token :: us) := by
  refine List.isChain_append.mpr ⟨h, hus.cons hnumber, fun t _ u hu _ => ?_⟩
  obtain rfl : token = u := by simpa using hu
  exact hatom

theorem Apart.concat (h : Apart tokens) (hnumber : token.isNumber = false)
    (hatom : token.isAtom = false) : Apart (tokens ++ [token]) :=
  h.append_cons hnumber hatom .nil

theorem Apart.commas {α : Type} {tokens : α → List Token} {first : α} {rest : List α}
    (hfirst : Apart (tokens first)) (hrest : ∀ x ∈ rest, Apart (tokens x)) :
    Apart (commas tokens first rest) := by
  induction rest generalizing first with
  | nil => rwa [commas_nil]
  | cons x rest ih =>
    obtain ⟨hx, hrest⟩ := List.forall_mem_cons.mp hrest
    rw [commas_cons]
    exact hfirst.append_cons rfl rfl (ih hx hrest)

theorem TermTree.apart (t : TermTree) : Apart t.tokens := by
  induction t with
  | compound name first rest ihf ihr =>
    rw [tokens_compound]
    exact (((ihf.commas ihr).concat rfl rfl).cons rfl).cons rfl
  | list first rest ihf ihr =>
    rw [tokens_list]
    exact ((ihf.commas ihr).concat rfl rfl).cons rfl
  | listTail first rest tail ihf ihr iht =>
    rw [tokens_listTail]
    exact ((ihf.commas ihr).append_cons rfl rfl (iht.concat rfl rfl)).cons rfl
  | paren inner ih => exact (ih.concat rfl rfl).cons rfl
  | nil => exact (apart_singleton _).cons rfl
  | atom | var | number | string => exact apart_singleton _

theorem GoalTree.apart (g : GoalTree) : Apart g.tokens := by
  induction g with
  | not g ih => exact ih.cons rfl
  | call t => exact t.apart
  | unify l r | notUnify l r => exact l.apart.append_cons rfl rfl r.apart

theorem ClauseTree.apart (t : ClauseTree) : Apart t.tokens := by
  cases t with
  | fact head => exact head.apart.concat rfl rfl
  | rule head first rest =>
    exact head.apart.append_cons rfl rfl
      ((first.apart.commas fun g _ => g.apart).concat rfl rfl)

theorem QueryTree.apart (t : QueryTree) : Apart t.tokens := by
  have hgoals : Apart (commas GoalTree.tokens t.first t.rest) :=
    t.first.apart.commas fun g _ => g.apart
  unfold tokens
  split
  · exact hgoals.concat rfl rfl
  · rwa [List.append_nil]

end Grammar

/-- Somewhere among some tokens a name follows a number. -/
def Clashing (tokens : List Token) : Prop :=
  ∃ front spelling name back, tokens = front ++ .number spelling :: .atom name :: back

theorem Clashing.append (h : Clashing tokens) (us : List Token) : Clashing (us ++ tokens) := by
  obtain ⟨front, spelling, name, back, rfl⟩ := h
  exact ⟨us ++ front, spelling, name, back, by simp⟩

theorem Clashing.not_apart (h : Clashing tokens) : ¬Apart (Token.numberFrom 0 tokens) := by
  obtain ⟨front, spelling, name, back, rfl⟩ := h
  rw [Token.numberFrom_append]
  intro hchain
  cases (List.isChain_append_cons_cons.mp hchain).2.1 rfl

/-- A derivation has no such place, so the text is neither a clause nor a query. -/
theorem Clashing.isWellFormed {text : String} (h : Clashing tokens)
    (hscans : Scans text.toList tokens) : isWellFormed text = false := by
  rw [Bool.eq_false_iff]
  intro hread
  obtain ⟨c, hclause⟩ | ⟨q, hquery⟩ := isWellFormed_iff.mp hread
  · obtain ⟨ts, hts, tree, htokens, -⟩ := Clause.parse_iff_scans.mp hclause
    obtain rfl := hscans.unique hts
    exact h.not_apart (htokens ▸ tree.apart)
  · obtain ⟨ts, hts, tree, htokens, -⟩ := Query.parse_iff_scans.mp hquery
    obtain rfl := hscans.unique hts
    exact h.not_apart (htokens ▸ tree.apart)

/-! ## What is left of a text -/

/-- Some tokens clash; or a condition is met, and the last of them are those of what is left. -/
def Leaves (P : Prop) (rest : List Char) (tokens : List Token) : Prop :=
  Clashing tokens ∨ P ∧ ∃ front back, tokens = front ++ back ∧ Scans rest back

namespace Leaves

variable {P Q : Prop} {c : Char} {tail : List Char}

theorem of_scans (h : P) (hscans : Scans rest tokens) : Leaves P rest tokens :=
  .inr ⟨h, [], tokens, rfl, hscans⟩

theorem imp (h : Leaves P rest tokens) (himp : P → Q) : Leaves Q rest tokens :=
  Or.imp_right (And.imp_left himp) h

/-- What is left is followed further. -/
theorem trans (h : Leaves P rest tokens) (hrest : ∀ back, Scans rest back → Leaves Q after back) :
    Leaves (P ∧ Q) after tokens := by
  obtain hclash | ⟨hp, front, back, rfl, hback⟩ := h
  · exact .inl hclash
  · obtain hclash | ⟨hq, front', back', rfl, hback'⟩ := hrest back hback
    · exact .inl (hclash.append front)
    · exact .inr ⟨⟨hp, hq⟩, front ++ front', back', by simp, hback'⟩

/-- A token at the front of what is left is passed. -/
theorem lexed (h : Leaves P (c :: (tail ++ rest)) tokens) (htoken : Lexed c tail rest token) :
    Leaves P rest tokens := by
  obtain hclash | ⟨hp, front, back, rfl, hback⟩ := h
  · exact .inl hclash
  · obtain ⟨back', rfl, hback'⟩ := Scans.of_lexed htoken hback
    exact .inr ⟨hp, front ++ [token], back', by simp, hback'⟩

theorem symbol (tail : List Char) (token : Token) (h : Leaves P (c :: (tail ++ rest)) tokens)
    (hsymbol : (c, tail, token) ∈ symbols) : Leaves P rest tokens :=
  h.lexed (.symbol hsymbol)

theorem space (h : Leaves P (' ' :: rest) tokens) : Leaves P rest tokens := by
  obtain hclash | ⟨hp, front, back, rfl, hback⟩ := h
  · exact .inl hclash
  · obtain ⟨ps, hps, rfl⟩ := hback 0
    rw [Scans.scanFrom_blank (by decide)] at hps
    exact .inr ⟨hp, front, _, rfl, (lexes_of_scanFrom hps).scans⟩

theorem comma (h : Leaves P (',' :: ' ' :: rest) tokens) : Leaves P rest tokens :=
  (symbol [] .comma h (by decide)).space

theorem leftParen (h : Leaves P ('(' :: rest) tokens) : Leaves P rest tokens :=
  symbol [] .leftParen h (by decide)

theorem rightParen (h : Leaves P (')' :: rest) tokens) : Leaves P rest tokens :=
  symbol [] .rightParen h (by decide)

theorem neck (h : Leaves P (' ' :: ':' :: '-' :: ' ' :: rest) tokens) : Leaves P rest tokens :=
  (symbol ['-'] .neck h.space (by decide)).space

theorem plainName {name : String} (h : Leaves P (name.toList ++ rest) tokens)
    (hname : isPlainName name = true) (hrest : Delimited rest) : Leaves P rest tokens := by
  obtain ⟨c, tail, heq, hlexed⟩ := Scans.exists_lexed_plainName hname hrest
  rw [heq] at h
  exact h.lexed hlexed

/-- Parts between commas are followed one after the other. -/
theorem commas {α : Type} {text : α → String} {P : α → Prop} {first : α} {xs : List α}
    (hitem : ∀ x ∈ first :: xs, ∀ {after tokens}, Delimited after →
      Scans ((text x).toList ++ after) tokens → Leaves (P x) after tokens)
    (hafter : Delimited after)
    (h : Scans ((", ".intercalate ((first :: xs).map text)).toList ++ after) tokens) :
    Leaves (∀ x ∈ first :: xs, P x) after tokens := by
  induction xs generalizing first tokens with
  | nil =>
    have hfirst := hitem first List.mem_cons_self hafter (by simpa using h)
    exact hfirst.imp fun hp => by simpa using hp
  | cons x xs ih =>
    obtain ⟨hfirst, hxs⟩ := List.forall_mem_cons.mp hitem
    have htext : (", ".intercalate ((first :: x :: xs).map text)).toList ++ after =
        (text first).toList ++ ',' :: ' ' ::
          ((", ".intercalate ((x :: xs).map text)).toList ++ after) := by
      simp [String.intercalate_cons_cons]
    rw [htext] at h
    have hleft := (hfirst (.cons (by decide)) h).comma
    exact (hleft.trans fun back hback => ih hxs hback).imp List.forall_mem_cons.mpr

end Leaves

/-! ## Predicates with numbers -/

theorem mapM_map_ok {ε α β γ : Type} {f : α → β} {g : β → Except ε γ} {t : α → γ}
    (h : ∀ x, g (f x) = .ok (t x)) (xs : List α) : (xs.map f).mapM g = .ok (xs.map t) := by
  induction xs with
  | nil => rfl
  | cons x xs ih =>
    rw [List.map_cons, List.mapM_cons, h, ih]
    rfl

/-- What is written for a name that is applied to terms with some texts, if there are any. -/
def appliedText (name : String) : List String → String
  | [] => name
  | texts => name ++ "(" ++ ", ".intercalate texts ++ ")"

theorem TermText.text_applied {levels : Nat} {name : String} (hname : isPlainName name = true)
    (args : List (TermText levels)) :
    (applied name hname args).text = appliedText name (args.map TermText.text) := by
  cases args <;> rfl

/-- A predicate with a legal name and with numbers for arguments. -/
structure NumericAtom where
  predicate : String
  numbers : List Json.Number
  legal : isPlainName (Text.trim predicate) = true

namespace NumericAtom

/-- The predicate as it stands in a description. -/
def structured (a : NumericAtom) : StructuredAtom where
  predicate := a.predicate
  args := a.numbers.map .number

def term (a : NumericAtom) : Term :=
  .applied (Text.trim a.predicate) (a.numbers.map fun n => .number n.text)

def text (a : NumericAtom) : String :=
  appliedText (Text.trim a.predicate) (a.numbers.map Json.Number.text)

/-- No number has a power of ten. -/
def IsPositional (a : NumericAtom) : Prop :=
  ∀ n ∈ a.numbers, n.IsPositional

variable {a : NumericAtom}

theorem text_structured (a : NumericAtom) : a.structured.text = .ok a.text := by
  have harg (n : Json.Number) : StructuredAtom.argText (.number n) = .ok n.text := rfl
  have hargs := mapM_map_ok harg a.numbers
  unfold StructuredAtom.text text structured
  dsimp only
  rw [hargs, isEmpty_of_isPlainName a.legal]
  cases a.numbers <;> rfl

/-- A number with a power of ten makes the tokens of a predicate clash. -/
theorem leaves (hafter : Delimited after) (h : Scans (a.text.toList ++ after) tokens) :
    Leaves a.IsPositional after tokens := by
  obtain ⟨predicate, numbers, hname⟩ := a
  cases numbers with
  | nil => exact ((Leaves.of_scans trivial h).plainName hname hafter).imp fun _ => nofun
  | cons n numbers =>
    have htext : (text ⟨predicate, n :: numbers, hname⟩).toList ++ after =
        (Text.trim predicate).toList ++ '(' ::
          ((", ".intercalate ((n :: numbers).map Json.Number.text)).toList ++ ')' :: after) := by
      simp [text, appliedText]
    rw [htext] at h
    have hinside := ((Leaves.of_scans trivial h).plainName hname (.cons (by decide))).leftParen
    refine ((hinside.trans fun back hback => ?_).imp And.right).rightParen
    refine Leaves.commas (fun m _ after tokens hafter hscans => ?_) (.cons (by decide)) hback
    -- only a number without a power of ten is passed as one token
    by_cases hm : m.IsPositional
    · obtain ⟨us, rfl, hus⟩ := hscans.of_number hm.isNumber hafter.endsNumber
      exact .inr ⟨hm, [_], us, rfl, hus⟩
    · obtain ⟨spelling, name, us, rfl⟩ := Json.Number.scans_of_not_isPositional hm hscans
      exact .inl ⟨[], spelling, name, us, rfl⟩

/-- Without a power of ten a number stands for itself. -/
theorem exists_termTexts {numbers : List Json.Number} (h : ∀ n ∈ numbers, n.IsPositional) :
    ∃ args : List (TermText 255), args.map TermText.text = numbers.map Json.Number.text ∧
      args.map TermText.term = numbers.map fun n => .number n.text := by
  induction numbers with
  | nil => exact ⟨[], rfl, rfl⟩
  | cons n numbers ih =>
    obtain ⟨hn, hnumbers⟩ := List.forall_mem_cons.mp h
    obtain ⟨args, htexts, hterms⟩ := ih hnumbers
    let arg : TermText 255 :=
      { text := n.text
        tokens := [.number n.text]
        term := .number n.text
        embeds := fun _ _ hrest hscans => hscans.number hn.isNumber hrest
        derived := .number n.text }
    exact ⟨arg :: args, by simp [arg, htexts], by simp [arg, hterms]⟩

theorem IsPositional.exists_call (h : a.IsPositional) :
    ∃ call : TermText maxNesting, call.IsCall ∧ call.text = a.text ∧ call.term = a.term := by
  obtain ⟨args, htexts, hterms⟩ := exists_termTexts h
  refine ⟨.applied _ a.legal args, TermText.isCall_applied, ?_, ?_⟩
  · exact (TermText.text_applied a.legal args).trans (congrArg _ htexts)
  · exact TermText.term_applied.trans (congrArg _ hterms)

theorem exists_calls {atoms : List NumericAtom} (h : ∀ a ∈ atoms, a.IsPositional) :
    ∃ calls : List (TermText maxNesting), (∀ call ∈ calls, call.IsCall) ∧
      calls.map TermText.text = atoms.map text ∧ calls.map TermText.term = atoms.map term := by
  induction atoms with
  | nil => exact ⟨[], nofun, rfl, rfl⟩
  | cons a atoms ih =>
    obtain ⟨ha, hatoms⟩ := List.forall_mem_cons.mp h
    obtain ⟨call, hcall, htext, hterm⟩ := ha.exists_call
    obtain ⟨calls, hcalls, htexts, hterms⟩ := ih hatoms
    exact ⟨call :: calls, List.forall_mem_cons.mpr ⟨hcall, hcalls⟩, by simp [htext, htexts],
      by simp [hterm, hterms]⟩

theorem renumberFrom_term (a : NumericAtom) (n : Nat) : a.term.renumberFrom n = a.term := by
  have hnumbers : Term.renumberList n (a.numbers.map fun n => .number n.text) =
      a.numbers.map fun n => .number n.text :=
    Term.renumberList_eq_self (List.forall_mem_map.mpr fun _ _ _ => rfl) n
  unfold term
  cases hargs : a.numbers with
  | nil => rfl
  | cons m numbers =>
    rw [hargs] at hnumbers
    exact congrArg (Term.compound _) hnumbers

end NumericAtom

/-! ## Clauses with numbers -/

/-- In whatever is written with numbers, a power of ten makes tokens clash. -/
theorem NumericAtom.exists_leaves {kind : ClauseKind} {head : NumericAtom}
    {goals : List NumericAtom} (hother : kind ≠ .rule → goals = [])
    (h : Scans (kind.written head.text (goals.map text)).toList tokens) :
    ∃ after, Leaves (∀ a ∈ head :: goals, a.IsPositional) after tokens := by
  cases kind with
  | fact =>
    obtain rfl := hother nofun
    have hhead : Scans (head.text.toList ++ ['.']) tokens := by simpa [ClauseKind.written] using h
    exact ⟨_, (head.leaves (.inr (.inl rfl)) hhead).imp (by simp)⟩
  | query =>
    obtain rfl := hother nofun
    have hhead : Scans (head.text.toList ++ []) tokens := by simpa [ClauseKind.written] using h
    exact ⟨_, (head.leaves (.inl rfl) hhead).imp (by simp)⟩
  | rule =>
    have hrule : Scans (head.text.toList ++ ' ' :: ':' :: '-' :: ' ' ::
        ((", ".intercalate (goals.map text)).toList ++ ['.'])) tokens := by
      simpa [ClauseKind.written] using h
    have hhead := (head.leaves (.cons (by decide)) hrule).neck
    cases goals with
    | nil => exact ⟨_, hhead.imp (by simp)⟩
    | cons goal goals =>
      have hgoals (back : List Token) (hback : Scans _ back) :
          Leaves (∀ a ∈ goal :: goals, a.IsPositional) ['.'] back :=
        .commas (fun a _ => a.leaves) (.inr (.inl rfl)) hback
      exact ⟨_, (hhead.trans hgoals).imp List.forall_mem_cons.mpr⟩

namespace StructuredClause

/-- A description is made of predicates with numbers: the head, and for a rule the body. -/
structure IsNumeric (c : StructuredClause) (head : NumericAtom) (goals : List NumericAtom) :
    Prop where
  head : c.head = head.structured
  body : c.kind = .rule → goals ≠ [] ∧ c.body = some (goals.map NumericAtom.structured)
  other : c.kind ≠ .rule → goals = []

variable {c : StructuredClause} {head : NumericAtom} {goals : List NumericAtom}

theorem IsNumeric.text_eq (h : c.IsNumeric head goals) :
    c.text = .ok (c.kind.written head.text (goals.map NumericAtom.text)) := by
  refine StructuredClause.text_eq (by rw [h.head, head.text_structured]) fun hkind => ?_
  obtain ⟨hne, hbody⟩ := h.body hkind
  obtain ⟨goal, goals, rfl⟩ := List.exists_cons_of_ne_nil hne
  exact ⟨_, _, hbody, mapM_map_ok NumericAtom.text_structured (goal :: goals)⟩

theorem IsNumeric.reads (h : c.IsNumeric head goals) (hall : ∀ a ∈ head :: goals, a.IsPositional) :
    c.kind.Reads (c.kind.written head.text (goals.map NumericAtom.text)) head.term
      (goals.map NumericAtom.term) := by
  obtain ⟨hhead, hgoals⟩ := List.forall_mem_cons.mp hall
  obtain ⟨p, hp, htext, hterm⟩ := hhead.exists_call
  obtain ⟨calls, hcalls, htexts, hterms⟩ := NumericAtom.exists_calls hgoals
  have hne (hkind : c.kind = .rule) : calls ≠ [] := by
    rintro rfl
    exact (h.body hkind).1 (by simpa using htexts.symm)
  have hreads : c.kind.Reads _ _ _ := hp.reads hcalls hne
  rwa [htext, htexts, hterm, hterms] at hreads

/-- A number that is an argument is written as JSON writes it, and this is one number token exactly
when it has no power of ten. So a clause text with numbers can be read exactly when none of them has
one, and then it has the kind that the description names and reads as the head and the goals with
these numbers. -/
theorem numbers_read_iff (n : Json.Number) (c : StructuredClause) (head : NumericAtom)
    (goals : List NumericAtom) :
    StructuredAtom.argText (.number n) = .ok n.text ∧
    (Token.scan n.text = .ok [(.number n.text, 0)] ↔ n.IsPositional) ∧
    (c.IsNumeric head goals → ∃ text, c.text = .ok text ∧
      (∀ raw messages, read raw messages = .ok c → clauseText raw messages = .ok text) ∧
      (isWellFormed text = true ↔ ∀ a ∈ head :: goals, ∀ m ∈ a.numbers, m.IsPositional) ∧
      (isWellFormed text = true → ClauseKind.ofText text = c.kind ∧
        (c.kind = .query → Query.parse text = .ok ⟨[.call head.term]⟩) ∧
        (c.kind ≠ .query →
          Clause.parse text = .ok ⟨head.term, goals.map fun a => .call a.term⟩))) := by
  refine ⟨rfl, n.scan_text_iff, fun h => ?_⟩
  have hterms : ∀ t ∈ goals.map NumericAtom.term, ∀ n, t.renumberFrom n = t :=
    List.forall_mem_map.mpr fun a _ => a.renumberFrom_term
  have hclause : Clause.ofTerms head.term (goals.map NumericAtom.term) =
      ⟨head.term, goals.map fun a => .call a.term⟩ := by
    rw [Clause.ofTerms_eq head.renumberFrom_term hterms, List.map_map]
    rfl
  let text := c.kind.written head.text (goals.map NumericAtom.text)
  have hpositional (hread : isWellFormed text = true) : ∀ a ∈ head :: goals, a.IsPositional := by
    obtain ⟨tokens, hscans, -⟩ := exists_scans_of_isWellFormed hread
    obtain ⟨after, hclash | ⟨hall, -⟩⟩ := NumericAtom.exists_leaves h.other hscans
    · rw [hclash.isWellFormed hscans] at hread
      cases hread
    · exact hall
  have hresult (hall : ∀ a ∈ head :: goals, a.IsPositional) : ClauseKind.ofText text = c.kind ∧
      (c.kind = .query → Query.parse text = .ok ⟨[.call head.term]⟩) ∧
      (c.kind ≠ .query →
        Clause.parse text = .ok ⟨head.term, goals.map fun a => .call a.term⟩) := by
    have hreads := h.reads hall
    refine ⟨hreads.announced, fun hkind => ?_, fun hkind => ?_⟩
    · rw [← head.renumberFrom_term 0]
      exact hreads.query hkind
    · rw [← hclause]
      by_cases hrule : c.kind = .rule
      · exact hreads.rule hrule
      · obtain rfl := h.other hrule
        exact hreads.fact (by cases hc : c.kind <;> simp_all)
  refine ⟨text, h.text_eq, fun raw messages hraw => clauseText_of_read hraw h.text_eq,
    ⟨hpositional, fun hall => ?_⟩, fun hread => ?_⟩
  · obtain ⟨-, hquery, hclause⟩ := hresult hall
    by_cases hkind : c.kind = .query
    · exact isWellFormed_iff.mpr (.inr ⟨_, hquery hkind⟩)
    · exact isWellFormed_iff.mpr (.inl ⟨_, hclause hkind⟩)
  · exact hresult (hpositional hread)

/-- A rule with a natural number, a negative one and a fraction; with `10 ^ 16` among its numbers it
could not be read. -/
theorem numbers_read_iff_ages :
    let half : Json.Number := .float ⟨false, 4503599627370496, -53⟩
    let large : Json.Number := .float ⟨false, 5000000000000000, 1⟩
    let head : NumericAtom := ⟨" older ", [.natural 12, half], by decide +kernel⟩
    let goal (n : Json.Number) : NumericAtom := ⟨"age", [.negative 7, n], by decide +kernel⟩
    let c (n : Json.Number) : StructuredClause :=
      ⟨.rule, head.structured, some [(goal n).structured]⟩
    let text := "older(12, 0.5) :- age(-7, 0.5)."
    (∀ n, (c n).IsNumeric head [goal n]) ∧ half.text = "0.5" ∧ large.text = "1e+16" ∧
    (c half).text = .ok text ∧ isWellFormed text = true ∧
    (∀ raw messages, read raw messages = .ok (c half) → clauseText raw messages = .ok text) ∧
    Clause.parse text = .ok ⟨.compound "older" [.number "12", .number "0.5"],
      [.call (.compound "age" [.number "-7", .number "0.5"])]⟩ ∧
    (∃ text, (c large).text = .ok text ∧ isWellFormed text = false) ∧
    Token.scan "0.5" = .ok [(.number "0.5", 0)] := by
  intro half large head goal c text
  have hnumeric (n : Json.Number) : (c n).IsNumeric head [goal n] :=
    ⟨rfl, fun _ => ⟨nofun, rfl⟩, fun hkind => absurd rfl hkind⟩
  have hhalf : half.text = "0.5" := by decide +kernel
  obtain ⟨-, hscan, hall⟩ := numbers_read_iff half _ _ _
  obtain ⟨text', htext', hraw, hread, hresult⟩ := hall (hnumeric half)
  have htext : (c half).text = .ok text :=
    (eq_ok_getD (by decide +kernel) "").trans (congrArg _ (by decide +kernel))
  obtain rfl : text = text' := Except.ok.inj (htext.symm.trans htext')
  have hwell : isWellFormed text = true := hread.mpr (by decide +kernel)
  obtain ⟨large', hlarge, -, hlargeRead, -⟩ := (numbers_read_iff large _ _ _).2.2 (hnumeric large)
  have hnot : isWellFormed large' = false := by
    rw [Bool.eq_false_iff]
    intro hwell
    have hpositional : large.IsPositional :=
      hlargeRead.mp hwell (goal large) (by simp) large (by simp [goal])
    exact absurd hpositional (by decide +kernel)
  have hclause : Clause.mk head.term ([goal half].map fun a => .call a.term) =
      ⟨.compound "older" [.number "12", .number "0.5"],
        [.call (.compound "age" [.number "-7", .number "0.5"])]⟩ := by decide +kernel
  have hparse := (hresult hwell).2.2 nofun
  rw [hclause] at hparse
  have hpositional : half.IsPositional := by decide +kernel
  exact ⟨hnumeric, hhalf, by decide +kernel, htext, hwell, hraw, hparse, ⟨large', hlarge, hnot⟩,
    hhalf ▸ hscan.mpr hpositional⟩

/-- The number `10 ^ 16` is written with a power of ten. The predicate is legal and this number is
the only argument, but the clause text is not well formed. -/
theorem clauseText_large_number :
    let raw := "\x7b\"type\":\"fact\",\"head\":\x7b\"predicate\":\"age\",\"args\":[1e16]\x7d\x7d"
    (∀ messages, clauseText raw messages = .ok "age(1e+16).") ∧ isPlainName "age" = true ∧
    Token.scan "1e+16" = .error (.unexpectedChar '+' 2) ∧ isWellFormed "age(1e+16)." = false := by
  intro raw
  refine ⟨fun messages => ?_, by decide +kernel, by decide +kernel, by decide +kernel⟩
  have htext : clauseText raw = .ok "age(1e+16)." :=
    (eq_ok_getD (by decide +kernel) "").trans (congrArg _ (by decide +kernel))
  obtain ⟨c, hread, hc⟩ := clauseText_eq_ok.mp htext
  exact clauseText_of_read (read_eq_ok hread messages) hc

end StructuredClause

end OntoLogic
