-- SUMMARY: Which texts have a neck, for the grammar and for the look at their characters.
import OntoLogic.Proofs.Syntax.Closing
import OntoLogic.Proofs.Syntax.Ending

/-!
# Necks

A rule has a neck among its tokens; a fact and a query have none. Whether `:-` stands outside quotes
in a text is told from its characters alone, without regard to comments and to backslashes. Where a
text has no comment and no backslash before the quote that would close an item, the two agree.
-/

namespace OntoLogic

open Grammar

variable {c q : Char} {cs front tail content rest : List Char} {token : Token}
  {tokens : List Token} {previous : Option Char}

/-! ## Derivations -/

def Grammar.standsInTerm : Token → Bool
  | .neck | .period | .not | .eq | .notEq => false
  | _ => true

theorem Grammar.forall_mem_commas {α : Type} {P : Token → Prop} {tokens : α → List Token}
    {first : α} {rest : List α} (hcomma : P .comma) (hfirst : ∀ token ∈ tokens first, P token)
    (hrest : ∀ x ∈ rest, ∀ token ∈ tokens x, P token) :
    ∀ token ∈ commas tokens first rest, P token := by
  refine List.forall_mem_append.mpr ⟨hfirst, fun token htoken => ?_⟩
  obtain ⟨x, hx, htoken⟩ := List.mem_flatMap.mp htoken
  exact List.forall_mem_cons.mpr ⟨hcomma, hrest x hx⟩ token htoken

theorem Grammar.TermTree.standsInTerm_of_mem (t : TermTree) :
    ∀ token ∈ t.tokens, standsInTerm token = true := by
  have hcommas {first : TermTree} {rest : List TermTree} := @forall_mem_commas TermTree
    (fun token => standsInTerm token = true) tokens first rest rfl
  induction t with
  | compound name first rest ihf ihr =>
    simp only [tokens_compound, List.forall_mem_cons, List.forall_mem_append]
    exact ⟨rfl, rfl, hcommas ihf ihr, by simp [standsInTerm]⟩
  | list first rest ihf ihr =>
    simp only [tokens_list, List.forall_mem_cons, List.forall_mem_append]
    exact ⟨rfl, hcommas ihf ihr, by simp [standsInTerm]⟩
  | listTail first rest tail ihf ihr iht =>
    simp only [tokens_listTail, List.forall_mem_cons, List.forall_mem_append]
    exact ⟨rfl, hcommas ihf ihr, rfl, iht, by simp [standsInTerm]⟩
  | paren inner ih =>
    simp only [tokens_paren, List.forall_mem_cons, List.forall_mem_append]
    exact ⟨rfl, ih, by simp [standsInTerm]⟩
  | _ => simp [standsInTerm]

/-- No term has a token that can only stand between or after terms. -/
theorem Grammar.TermTree.not_mem_tokens (t : TermTree) (h : standsInTerm token = false) :
    token ∉ t.tokens := by
  intro hmem
  rw [t.standsInTerm_of_mem token hmem] at h
  cases h

theorem Grammar.TermTree.neck_not_mem (t : TermTree) : .neck ∉ t.tokens :=
  t.not_mem_tokens rfl

theorem Grammar.GoalTree.neck_not_mem (g : GoalTree) : .neck ∉ g.tokens := by
  induction g with
  | not g ih => simp [ih]
  | call t => exact t.neck_not_mem
  | unify l r | notUnify l r => simp [l.neck_not_mem, r.neck_not_mem]

/-- A clause has a neck when it has a body. -/
theorem Clause.Derived.neck_mem {c : Clause} (h : c.Derived tokens) :
    .neck ∈ tokens ↔ c.body ≠ [] := by
  obtain ⟨tree, rfl, rfl, -⟩ := h
  cases tree with
  | fact head => simp [ClauseTree.tokens, ClauseTree.clause, head.neck_not_mem]
  | rule head first rest => simp [ClauseTree.tokens, ClauseTree.clause]

theorem Query.Derived.neck_not_mem {q : Query} (h : q.Derived tokens) : .neck ∉ tokens := by
  obtain ⟨⟨first, rest, period⟩, rfl, -⟩ := h
  have hgoal (g : GoalTree) : ∀ token ∈ g.tokens, token ≠ .neck := fun token htoken heq =>
    g.neck_not_mem (heq ▸ htoken)
  have hgoals : Token.neck ∉ commas GoalTree.tokens first rest := fun h =>
    forall_mem_commas (P := (· ≠ .neck)) nofun (hgoal first) (fun g _ => hgoal g) _ h rfl
  cases period <;> simp [QueryTree.tokens, hgoals]

theorem Token.mem_numberFrom (h : token.isVar = false) (n : Nat) :
    token ∈ numberFrom n tokens ↔ token ∈ tokens := by
  constructor
  · intro hmem
    obtain hmem | ⟨k, rfl⟩ := mem_of_mem_numberFrom hmem
    · exact hmem
    · cases h
  · intro hmem
    obtain ⟨i, hi⟩ := List.mem_iff_getElem?.mp hmem
    refine List.mem_iff_getElem?.mpr ⟨i, ?_⟩
    rw [getElem?_numberFrom, hi, Option.map_some, if_neg (ne_var h "_")]

theorem Token.neck_mem_numberFrom (n : Nat) : .neck ∈ numberFrom n tokens ↔ .neck ∈ tokens :=
  mem_numberFrom rfl n

/-! ## Characters -/

/-- Whether a text has neither a comment nor a backslash before a quote that would otherwise close
an item. `quote` is the quote that is open. -/
def isPlainlyQuoted : (quote : Option Char) → List Char → Bool
  | _, [] => true
  | none, c :: cs =>
    if c = '%' then false else isPlainlyQuoted (if c = '\'' ∨ c = '"' then some c else none) cs
  | some q, '\\' :: d :: cs => if d = q then false else isPlainlyQuoted (some q) cs
  | some q, c :: cs => isPlainlyQuoted (if c = q then none else some q) cs

/-- A character that neither opens a quoted item or a comment nor begins a neck. -/
def IsInert (c : Char) : Prop :=
  c ≠ '\'' ∧ c ≠ '"' ∧ c ≠ '%' ∧ c ≠ ':'

instance : DecidablePred IsInert :=
  fun c => inferInstanceAs (Decidable (c ≠ '\'' ∧ c ≠ '"' ∧ c ≠ '%' ∧ c ≠ ':'))

/-- Inert characters may be passed over. -/
theorem skip_inert (rest : List Char) (hfront : ∀ c ∈ front, IsInert c)
    (hprevious : previous ≠ some ':') :
    isPlainlyQuoted none (front ++ rest) = isPlainlyQuoted none rest ∧
    ∃ previous', previous' ≠ some ':' ∧
      ClauseKind.hasNeckFrom none previous (front ++ rest) =
        ClauseKind.hasNeckFrom none previous' rest := by
  induction front generalizing previous with
  | nil => exact ⟨rfl, previous, hprevious, rfl⟩
  | cons c front ih =>
    obtain ⟨⟨hsingle, hdouble, hpercent, hcolon⟩, hfront⟩ := List.forall_mem_cons.mp hfront
    have hnext : some c ≠ some ':' := by simpa
    obtain ⟨hplain, previous', hprevious', hneck⟩ := ih hfront hnext
    refine ⟨?_, previous', hprevious', ?_⟩
    · simpa [isPlainlyQuoted, hsingle, hdouble, hpercent] using hplain
    · simpa [ClauseKind.hasNeckFrom, hsingle, hdouble, hprevious] using hneck

/-- A quoted item may be passed over. -/
theorem skip_quoted (previous : Option Char) (h : Quoted q tail content) (hq : q = '\'' ∨ q = '"')
    (hplain : isPlainlyQuoted (some q) (tail ++ rest) = true) :
    isPlainlyQuoted none rest = true ∧
      ClauseKind.hasNeckFrom (some q) previous (tail ++ rest) =
        ClauseKind.hasNeckFrom none (some q) rest := by
  induction h generalizing previous with
  | close hne => simpa [isPlainlyQuoted, ClauseKind.hasNeckFrom, hne] using hplain
  | @escape d tail content h ih =>
    have hbackslash : '\\' ≠ q := by rcases hq with rfl | rfl <;> decide
    by_cases hd : d = q
    · simp [isPlainlyQuoted, hd] at hplain
    · simp only [List.cons_append, isPlainlyQuoted, hd, if_false] at hplain
      simpa [ClauseKind.hasNeckFrom, hbackslash, hd] using ih _ hplain
  | @double tail content hne h ih =>
    have hpercent : q ≠ '%' := by rcases hq with rfl | rfl <;> decide
    have hsecond : isPlainlyQuoted (some q) (q :: q :: tail ++ rest) =
        isPlainlyQuoted (some q) (tail ++ rest) := by
      simp [isPlainlyQuoted, hne, hpercent, hq]
    rw [hsecond] at hplain
    simpa [ClauseKind.hasNeckFrom, hq] using ih _ hplain
  | @plain c tail content hbackslash hc h ih =>
    have hnext : isPlainlyQuoted (some q) (c :: tail ++ rest) =
        isPlainlyQuoted (some q) (tail ++ rest) := by
      simp [isPlainlyQuoted, hbackslash, hc]
    rw [hnext] at hplain
    simpa [ClauseKind.hasNeckFrom, hc] using ih _ hplain

theorem isInert_of_isNameChar (h : isNameChar c = true) : IsInert c := by
  refine ⟨?_, ?_, ?_, ?_⟩
  all_goals
    rintro rfl
    cases h

theorem IsUnsigned.isInert (h : IsUnsigned cs) : ∀ c ∈ cs, IsInert c := by
  have hdigits {ds : List Char} (hds : ∀ d ∈ ds, d.isDigit = true) : ∀ d ∈ ds, IsInert d :=
    fun d hd => isInert_of_isNameChar (isNameChar_of_isDigit (hds d hd))
  obtain ⟨whole, -, hwhole, rfl | ⟨fraction, -, hfraction, rfl⟩⟩ := h
  · exact hdigits hwhole
  · refine List.forall_mem_append.mpr ⟨hdigits hwhole, List.forall_mem_cons.mpr ⟨by decide, ?_⟩⟩
    exact hdigits hfraction

/-- A token is a neck or a quoted item, or all its characters are inert. -/
theorem Lexed.inert_or (h : Lexed c tail rest token) :
    (c = ':' ∧ tail = ['-'] ∧ token = .neck) ∨
    ((c = '\'' ∨ c = '"') ∧ token ≠ .neck ∧ ∃ content, Quoted c tail content) ∨
    (token ≠ .neck ∧ ∀ d ∈ c :: tail, IsInert d) := by
  cases h with
  | symbol h =>
    have hsymbols : ∀ s ∈ symbols, (s.1 = ':' ∧ s.2.1 = ['-'] ∧ s.2.2 = .neck) ∨
        (s.2.2 ≠ .neck ∧ (s.1 :: s.2.1).all (IsInert ·) = true) := by decide
    refine (hsymbols _ h).imp_right fun hinert => .inr ⟨hinert.1, fun d hd => ?_⟩
    exact of_decide_eq_true (List.all_eq_true.mp hinert.2 d hd)
  | eq | period => exact .inr (.inr ⟨nofun, List.forall_mem_singleton.mpr (by decide)⟩)
  | unsigned h => exact .inr (.inr ⟨nofun, h.isInert⟩)
  | negative h => exact .inr (.inr ⟨nofun, List.forall_mem_cons.mpr ⟨by decide, h.isInert⟩⟩)
  | quotedAtom h => exact .inr (.inl ⟨.inl rfl, nofun, _, h⟩)
  | string h => exact .inr (.inl ⟨.inr rfl, nofun, _, h⟩)
  | atom hc htail =>
    refine .inr (.inr ⟨nofun, List.forall_mem_cons.mpr ⟨?_, fun d hd => ?_⟩⟩)
    · exact isInert_of_isNameChar (isNameChar_of_isLower hc)
    · exact isInert_of_isNameChar (htail d hd)
  | var hc htail =>
    refine .inr (.inr ⟨nofun, List.forall_mem_cons.mpr ⟨?_, fun d hd => ?_⟩⟩)
    · exact isInert_of_isNameChar (of_isUpper_or hc).1
    · exact isInert_of_isNameChar (htail d hd)

/-- The look at the characters finds the necks among the tokens. -/
theorem Lexes.hasNeckFrom_iff (h : Lexes cs tokens) (hplain : isPlainlyQuoted none cs = true)
    (hprevious : previous ≠ some ':') :
    ClauseKind.hasNeckFrom none previous cs = true ↔ .neck ∈ tokens := by
  induction h generalizing previous with
  | nil => simp [ClauseKind.hasNeckFrom]
  | @blank c rest tokens hc h ih =>
    have hinert : ∀ d ∈ [c], IsInert d := by
      refine List.forall_mem_singleton.mpr ⟨?_, ?_, ?_, ?_⟩
      all_goals
        rintro rfl
        revert hc
        decide
    obtain ⟨heq, previous', hprevious', hneck⟩ := skip_inert rest hinert hprevious
    rw [← List.singleton_append, hneck]
    exact ih (heq ▸ hplain) hprevious'
  | comment => simp [isPlainlyQuoted] at hplain
  | @token c tail rest token tokens htoken h ih =>
    obtain ⟨rfl, rfl, rfl⟩ | ⟨hquote, hne, content, hquoted⟩ | ⟨hne, hinert⟩ := htoken.inert_or
    · simp [ClauseKind.hasNeckFrom]
    · have hpercent : c ≠ '%' := by rcases hquote with rfl | rfl <;> decide
      rw [isPlainlyQuoted, if_neg hpercent, if_pos hquote] at hplain
      obtain ⟨hrest, hneck⟩ := skip_quoted (some c) hquoted hquote hplain
      have hprevious' : some c ≠ some ':' := by rcases hquote with rfl | rfl <;> decide
      have hopens : ClauseKind.hasNeckFrom none previous (c :: (tail ++ rest)) =
          ClauseKind.hasNeckFrom (some c) (some c) (tail ++ rest) := by
        simp [ClauseKind.hasNeckFrom, hquote]
      rw [hopens, hneck, ih hrest hprevious']
      simp [hne.symm]
    · obtain ⟨heq, previous', hprevious', hneck⟩ := skip_inert rest hinert hprevious
      rw [← List.cons_append, hneck, ih (heq ▸ hplain) hprevious']
      simp [hne.symm]

theorem hasNeckFrom_append_period (quote previous : Option Char) :
    ClauseKind.hasNeckFrom quote previous (cs ++ ['.']) =
      ClauseKind.hasNeckFrom quote previous cs := by
  induction cs generalizing quote previous with
  | nil => cases quote <;> simp [ClauseKind.hasNeckFrom]
  | cons c cs ih => cases quote <;> simp [ClauseKind.hasNeckFrom, ih]

theorem hasNeckFrom_closed (quote previous : Option Char) (cs : List Char) :
    ClauseKind.hasNeckFrom quote previous (closed cs) =
      ClauseKind.hasNeckFrom quote previous cs := by
  induction cs using List.reverseRecOn with
  | nil => exact hasNeckFrom_append_period quote previous
  | append_singleton front d ih =>
    by_cases hd : d = '.'
    · rw [hd, closed_concat_period, ih, hasNeckFrom_append_period]
    · rw [closed_concat hd, hasNeckFrom_append_period]

/-! ## Closed texts -/

/-- A text lacks only the final period of a clause: it has the tokens of the clause apart from that
one. -/
def Clause.LacksPeriod (c : Clause) (text : String) : Prop :=
  ∃ tokens, Scans text.toList tokens ∧ c.Derived (Token.numberFrom 0 (tokens ++ [.period]))

variable {text : String} {c : Clause}

/-- A clause that is closed again is still the same clause. -/
theorem Clause.parse_closed (h : parse text = .ok c)
    (hlast : ∀ d ∈ text.toList.getLast?, Text.isBlank d = false) :
    parse (.ofList (closed text.toList)) = .ok c := by
  obtain ⟨tokens, hscans, hc⟩ := parse_iff_scans.mp h
  have hperiod : tokens.getLast? = some .period :=
    (Token.getLast?_numberFrom 0 _).mp hc.getLast?
  obtain hsame | ⟨hother, -⟩ := (scans_iff_lexes.mp hscans).lexes_closed hlast
  · exact parse_iff_scans.mpr ⟨tokens, by rw [String.toList_ofList]; exact hsame.scans, hc⟩
  · have hne : text.toList ≠ [] := by
      intro hnil
      rw [hnil] at hscans
      obtain rfl := hscans.unique .nil
      cases hperiod
    obtain ⟨token, htoken, hne⟩ := hother hne
    exact absurd (Option.some.inj (htoken.symm.trans hperiod)) hne

/-- The tokens of a closed text have a neck when those of the text have one. -/
theorem Scans.exists_closed {tokens : List Token} (h : Scans text.toList tokens)
    (hlast : ∀ d ∈ text.toList.getLast?, Text.isBlank d = false) :
    ∃ tokens', Scans (closed text.toList) tokens' ∧ (.neck ∈ tokens' ↔ .neck ∈ tokens) := by
  obtain hsame | ⟨-, hmore⟩ := (scans_iff_lexes.mp h).lexes_closed hlast
  · exact ⟨tokens, hsame.scans, .rfl⟩
  · exact ⟨_, hmore.scans, by simp⟩

/-- A closed text that is a clause has a body when there is a neck among the tokens. -/
theorem Clause.body_of_closed {tokens : List Token} (h : Scans text.toList tokens)
    (hlast : ∀ d ∈ text.toList.getLast?, Text.isBlank d = false)
    (hc : parse (.ofList (closed text.toList)) = .ok c) : c.body ≠ [] ↔ .neck ∈ tokens := by
  obtain ⟨tokens', hscans', hneck⟩ := h.exists_closed hlast
  obtain ⟨tokens'', hscans'', hderived⟩ := parse_iff_scans.mp hc
  rw [String.toList_ofList] at hscans''
  obtain rfl := hscans'.unique hscans''
  rw [← hneck, ← Token.neck_mem_numberFrom 0, hderived.neck_mem]

end OntoLogic
