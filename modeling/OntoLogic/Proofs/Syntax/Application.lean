-- SUMMARY: A text of the form `name(inside).` as a clause: its head, and when it is a fact with given arguments.
import OntoLogic.Proofs.Syntax.Ending

/-!
# Texts that apply a name

A text that begins with a plain name and an opening parenthesis, where it spells a clause, has a
head with this name and at least one argument. What stands after the parenthesis decides the rest:
it may close the parenthesis early and go on with a body, and it may hold more commas than one
expects. The clause is a fact with some arguments exactly when this part reads as these arguments,
the closing parenthesis and the period.
-/

namespace OntoLogic

open Grammar

/-- The text of a name that is applied to what stands between the parentheses. -/
def Clause.applied (name inside : String) : String :=
  name ++ "(" ++ inside ++ ")."

/-- A text reads as some terms between commas, then the parenthesis and the period of a fact. -/
def ReadsArguments (text : String) (args : List Term) : Prop :=
  ∃ tokens first rest, Scans text.toList tokens ∧
    Token.numberFrom 0 tokens = commas TermTree.tokens first rest ++ [.rightParen, .period] ∧
    (first :: rest).map TermTree.value = args

variable {c : Char} {tail rest cs : List Char} {token : Token} {tokens : List Token}
  {name inside : String}

/-! ## The first tokens -/

/-- A text that begins with the characters of a token begins with the token. -/
theorem Scans.of_lexed (htoken : Lexed c tail rest token) (h : Scans (c :: (tail ++ rest)) tokens) :
    ∃ tokens', tokens = token :: tokens' ∧ Scans rest tokens' := by
  obtain ⟨hblank, hcomment⟩ := htoken.head_ne
  obtain ⟨ps, hps, rfl⟩ := h 0
  simp only [Token.scanFrom, hblank, hcomment, htoken.lexeme, scanFrom_append, if_false,
    Bool.false_eq_true] at hps
  split at hps
  · cases hps
  · next ps' hps' =>
    cases hps
    exact ⟨ps'.map Prod.fst, rfl, (lexes_of_scanFrom hps').scans⟩

theorem Scans.of_leftParen (h : Scans ('(' :: rest) tokens) :
    ∃ tokens', tokens = .leftParen :: tokens' ∧ Scans rest tokens' := by
  have hparen : Lexed '(' [] rest .leftParen := .symbol (by decide)
  exact Scans.of_lexed hparen h

theorem Scans.of_plainName (hname : isPlainName name = true) (hrest : Delimited rest)
    (h : Scans (name.toList ++ rest) tokens) :
    ∃ tokens', tokens = .atom name :: tokens' ∧ Scans rest tokens' := by
  obtain ⟨c, tail, heq, hlexed⟩ := Scans.exists_lexed_plainName hname hrest
  rw [heq] at h
  exact h.of_lexed hlexed

theorem Scans.of_applied (hname : isPlainName name = true)
    (h : Scans (Clause.applied name inside).toList tokens) :
    ∃ tokens', tokens = .atom name :: .leftParen :: tokens' ∧
      Scans (inside ++ ").").toList tokens' := by
  have htext : (Clause.applied name inside).toList =
      name.toList ++ '(' :: (inside ++ ").").toList := by simp [Clause.applied]
  rw [htext] at h
  obtain ⟨after, rfl, hafter⟩ := h.of_plainName hname (.cons (by decide))
  obtain ⟨tokens', rfl, hinside⟩ := hafter.of_leftParen
  exact ⟨tokens', rfl, hinside⟩

/-! ## Derivations -/

/-- A term that begins with a name and a parenthesis is a compound. -/
theorem Grammar.TermTree.exists_of_applied {t : TermTree} {after : Token} {more : List Token}
    (h : t.tokens ++ after :: more = .atom name :: .leftParen :: tokens)
    (hafter : after ≠ .leftParen) :
    ∃ first rest, t = .compound name first rest ∧
      tokens = commas TermTree.tokens first rest ++ .rightParen :: after :: more := by
  cases t with
  | compound name' first rest =>
    obtain ⟨rfl, htokens⟩ : name' = name ∧
        commas TermTree.tokens first rest ++ .rightParen :: after :: more = tokens := by
      simpa using h
    exact ⟨first, rest, rfl, htokens.symm⟩
  | atom => simp [hafter] at h
  | _ => simp at h

/-- A clause that begins with a name and a parenthesis has a head with this name and arguments.
After the arguments comes the period of a fact or the neck of a rule. -/
theorem Grammar.ClauseTree.exists_of_applied {t : ClauseTree}
    (h : t.tokens = .atom name :: .leftParen :: tokens) :
    ∃ first rest, t.clause.head = .compound name ((first :: rest).map TermTree.value) ∧
      (t.clause.body = [] ∧ tokens = commas TermTree.tokens first rest ++ [.rightParen, .period] ∨
        t.clause.body ≠ [] ∧ ∃ body, tokens =
          commas TermTree.tokens first rest ++ .rightParen :: .neck :: body) := by
  cases t with
  | fact head =>
    have hfact : head.tokens ++ [.period] = .atom name :: .leftParen :: tokens := h
    obtain ⟨first, rest, rfl, htokens⟩ := TermTree.exists_of_applied hfact (by simp)
    exact ⟨first, rest, TermTree.value_compound, .inl ⟨rfl, htokens⟩⟩
  | rule head g gs =>
    have hrule : head.tokens ++ .neck :: (commas GoalTree.tokens g gs ++ [.period]) =
        .atom name :: .leftParen :: tokens := by simpa [ClauseTree.tokens] using h
    obtain ⟨first, rest, rfl, htokens⟩ := TermTree.exists_of_applied hrule (by simp)
    exact ⟨first, rest, TermTree.value_compound, .inr ⟨by simp [clause], _, htokens⟩⟩

/-- Arguments are determined by their tokens, and so is what follows them. -/
theorem Grammar.args_determined {first first' : TermTree} {rest rest' : List TermTree}
    {more more' : List Token}
    (h : commas TermTree.tokens first rest ++ .rightParen :: more =
      commas TermTree.tokens first' rest' ++ .rightParen :: more') :
    first = first' ∧ rest = rest' ∧ more = more' := by
  obtain ⟨rfl, rfl, -, rfl⟩ := first.determined.commas_cons (by decide) (fun t _ => t.determined)
    (by decide) (by decide) h
  exact ⟨rfl, rfl, rfl⟩

/-! ## Clauses -/

/-- A clause that applies a plain name has a head with this name and arguments. It is the fact with
some arguments when the text inside the parentheses, closed, reads as these. -/
theorem Clause.parse_applied {c : Clause} (hname : isPlainName name = true)
    (h : Clause.parse (applied name inside) = .ok c) :
    (∃ args, args ≠ [] ∧ c.head = .compound name args) ∧
    ∀ args, c = ⟨.compound name args, []⟩ ↔ ReadsArguments (inside ++ ").") args := by
  obtain ⟨tokens, hscans, t, htokens, rfl, -⟩ := parse_iff_scans.mp h
  obtain ⟨tokens', rfl, hinside⟩ := hscans.of_applied hname
  simp only [Token.numberFrom] at htokens
  obtain ⟨first, rest, hhead, hbody⟩ := ClauseTree.exists_of_applied htokens
  refine ⟨⟨_, by simp, hhead⟩, fun args => ⟨fun hclause => ?_, ?_⟩⟩
  · obtain ⟨-, hfact⟩ | ⟨hrule, -⟩ := hbody
    · refine ⟨tokens', first, rest, hinside, hfact, ?_⟩
      rw [hclause] at hhead
      exact (Term.compound.inj hhead).2.symm
    · rw [hclause] at hrule
      exact absurd rfl hrule
  · rintro ⟨ts, first', rest', hts, hargs, rfl⟩
    obtain rfl := hinside.unique hts
    obtain ⟨hnil, hfact⟩ | ⟨-, body, hrule⟩ := hbody
    · obtain ⟨rfl, rfl, -⟩ := args_determined (hfact.symm.trans hargs)
      rw [← hhead, ← hnil]
    · obtain ⟨-, -, hmore⟩ := args_determined (hrule.symm.trans hargs)
      cases hmore

/-! ## Written names as arguments -/

/-- The derivation of a name in its written form. -/
def Grammar.TermTree.ofName (name : String) : TermTree :=
  if name = Term.nilName then .nil else .atom name

theorem Grammar.TermTree.tokens_ofName (name : String) :
    (ofName name).tokens = Token.written (.atom name) := by
  unfold ofName
  split <;> simp_all [Token.written]

theorem Grammar.TermTree.value_ofName (name : String) : (ofName name).value = .atom name := by
  unfold ofName
  split
  · next h => rw [h]; rfl
  · rfl

/-- Without variables there is nothing to number. -/
theorem Token.numberFrom_of_varNames (h : varNames tokens = []) (n : Nat) :
    numberFrom n tokens = tokens := by
  induction tokens with
  | nil => rfl
  | cons token tokens ih =>
    cases token with
    | var name => simp [varNames] at h
    | _ => exact congrArg (List.cons _) (ih h)

/-- Names in their written forms are as many arguments, whatever their characters are. -/
theorem readsArguments_names (first : String) (rest : List String) :
    ReadsArguments (", ".intercalate ((first :: rest).map atomText) ++ ").")
      ((first :: rest).map .atom) := by
  have hspells : Spells (", ".intercalate ((first :: rest).map atomText))
      (commas (fun name => [.atom name]) first rest) :=
    .commas (.name first) fun name _ => .name name
  have hscans := hspells [')', '.'] _ (.cons (by decide)) Scans.period.rightParen
  have htokens : (commas (fun name => [.atom name]) first rest).flatMap Token.written =
      commas TermTree.tokens (.ofName first) (rest.map .ofName) := by
    simp [commas, TermTree.tokens_ofName, List.flatMap_map, List.flatMap_assoc, Token.written]
  have hvars : varNames (commas TermTree.tokens (.ofName first) (rest.map .ofName) ++
      [.rightParen, .period]) = [] := by
    have hname (name : String) : varNames (TermTree.ofName name).tokens = [] := by
      rw [← TermTree.occurrences_value, TermTree.value_ofName, Term.occurrences_atom]
    have hclose : varNames [.rightParen, .period] = [] := rfl
    simp [varNames_commas, hname, hclose]
  rw [htokens] at hscans
  refine ⟨_, .ofName first, rest.map .ofName, ?_, Token.numberFrom_of_varNames hvars 0, ?_⟩
  · simpa using hscans
  · simp [TermTree.value_ofName, Function.comp_def]

/-! ## Blanks at the ends -/

theorem Clause.trim_applied (name inside : String) :
    Text.trim (applied (Text.trim name) inside) = applied (Text.trim name) inside := by
  have htext : (applied (Text.trim name) inside).toList =
      (Text.trim name).toList ++ '(' :: inside.toList ++ [')'] ++ ['.'] := by simp [applied]
  refine Text.trim_eq_self ?_ ?_
  · have hname := Text.head?_trim name
    have hparen : Text.isBlank '(' = false := by decide
    rw [htext]
    cases hchars : (Text.trim name).toList with
    | nil => simp [hparen]
    | cons c cs => simpa [hchars] using hname
  · have hperiod : Text.isBlank '.' = false := by decide
    rw [htext, List.getLast?_concat]
    rintro c ⟨⟩
    exact hperiod

theorem isNameChar_of_mem_plainName {name : String} (h : isPlainName name = true) :
    ∀ c ∈ name.toList, isNameChar c = true := by
  unfold isPlainName at h
  split at h
  · cases h
  · next c cs heq =>
    obtain ⟨hlower, hall⟩ := Bool.and_eq_true_iff.mp h
    rw [heq]
    exact List.forall_mem_cons.mpr ⟨isNameChar_of_isLower hlower, List.all_eq_true.mp hall⟩

/-- A plain name has no blanks. -/
theorem isBlank_of_mem_plainName {name : String} (h : isPlainName name = true) :
    ∀ c ∈ name.toList, Text.isBlank c = false := by
  intro c hc
  have := toNat_of_isNameChar (isNameChar_of_mem_plainName h c hc)
  exact isBlank_eq_false (by omega) (by omega)

theorem trim_atomText (name : String) : Text.trim (atomText name) = atomText name := by
  unfold atomText
  split
  · next hname =>
    have hchars : ∀ c ∈ name.toList, Text.isBlank c = false := by
      obtain hplain | hnil : isPlainName name = true ∨ name = Term.nilName := by simpa using hname
      · exact isBlank_of_mem_plainName hplain
      · have hleft : Text.isBlank '[' = false := by decide
        have hright : Text.isBlank ']' = false := by decide
        rw [hnil, show Term.nilName.toList = ['[', ']'] from rfl]
        simp [hleft, hright]
    exact Text.trim_eq_self (fun c hc => hchars c (List.mem_of_mem_head? hc))
      fun c hc => hchars c (List.mem_of_getLast? hc)
  · have hquote : Text.isBlank '\'' = false := by decide
    refine Text.trim_eq_self ?_ ?_
    · simp [hquote]
    · rw [String.toList_append, show "'".toList = ['\''] from rfl, List.getLast?_concat]
      rintro c ⟨⟩
      exact hquote

end OntoLogic
