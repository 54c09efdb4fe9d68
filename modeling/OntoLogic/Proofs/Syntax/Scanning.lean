-- SUMMARY: Scanning what is written: each token is recognised where a delimiter follows it.
import OntoLogic.Proofs.Syntax.Lexeme

/-!
# Scanning

What a text is cut into does not depend on where the text stands, so positions are left out here.
The tokens of a text are found from its end to its front: a token in front of a text that has been
scanned is recognised, and the rest of the text is scanned as before. Names, numbers and quoted
items are the longest of their kind, so a delimiter has to follow them.
-/

namespace OntoLogic

/-! ## Delimiters -/

/-- The characters that separate the parts of a written clause. -/
def delimiters : List Char := ['(', ')', '[', ']', '|', ',', ' ']

/-- Nothing follows, or the period at the end, or a delimiter. -/
def Delimited (cs : List Char) : Prop :=
  cs = [] ∨ cs = ['.'] ∨ ∃ c ∈ delimiters, ∃ rest, cs = c :: rest

variable {cs rest : List Char} {c q : Char}

theorem Delimited.cons (h : c ∈ delimiters) : Delimited (c :: rest) :=
  .inr (.inr ⟨c, h, rest, rfl⟩)

/-- A delimiter is neither part of a name or a number nor a quote. -/
theorem Delimited.ne (h : Delimited (c :: rest)) :
    isNameChar c = false ∧ c ≠ '\'' ∧ c ≠ '"' ∧ (c = '.' → rest = []) := by
  have hdelimiters : ∀ d ∈ delimiters,
      isNameChar d = false ∧ d ≠ '\'' ∧ d ≠ '"' ∧ d ≠ '.' := by simp [delimiters, isNameChar]
  obtain h | h | ⟨d, hd, rest', h⟩ := h
  · cases h
  · cases h
    decide
  · cases h
    obtain ⟨hname, hquote, hdouble, hperiod⟩ := hdelimiters c hd
    exact ⟨hname, hquote, hdouble, fun h => absurd h hperiod⟩

theorem Delimited.head (h : Delimited rest) :
    ∀ d ∈ rest.head?, isNameChar d = false ∧ d ≠ '\'' ∧ d ≠ '"' := by
  cases rest with
  | nil => simp
  | cons c rest =>
    obtain ⟨hname, hquote, hdouble, -⟩ := h.ne
    simpa using ⟨hname, hquote, hdouble⟩

theorem Delimited.endsNumber (h : Delimited rest) : EndsNumber cs rest := by
  refine ⟨fun d hd => ?_, ?_⟩
  · rw [Bool.eq_false_iff]
    intro hdigit
    have hname := (h.head d hd).1
    rw [isNameChar_of_isDigit hdigit] at hname
    cases hname
  · rintro - d ds rfl
    cases h.ne.2.2.2 rfl

/-! ## Quoted items -/

/-- An escaped text is read back up to the quote that closes it. -/
theorem quoted_escapeChars (hq : q ≠ '\\') (hself : Token.unescape q = q) (content : List Char) :
    Quoted q (Text.escapeChars (fun c => c == '\\' || c == q) content ++ [q]) content := by
  induction content with
  | nil => exact .close hq
  | cons c content ih =>
    by_cases hc : c = '\\' ∨ c = q
    · have hspecial : (c == '\\' || c == q) = true := by simpa using hc
      have hunescape : Token.unescape c = c := by
        rcases hc with rfl | rfl
        · rfl
        · exact hself
      have hescape := Quoted.escape (d := c) ih
      rw [hunescape] at hescape
      simpa [Text.escapeChars, hspecial] using hescape
    · obtain ⟨hbackslash, hquote⟩ := not_or.mp hc
      have hplain : (c == '\\' || c == q) = false := by simpa using hc
      simpa [Text.escapeChars, hplain] using Quoted.plain hbackslash hquote ih

/-! ## Tokens -/

def IsVariable (cs : List Char) : Prop :=
  ∃ c rest, cs = c :: rest ∧ (c.isUpper || c == '_') = true ∧ ∀ d ∈ rest, isNameChar d = true

def IsNumber (cs : List Char) : Prop :=
  IsUnsigned cs ∨ ∃ digits, cs = '-' :: digits ∧ IsUnsigned digits

/-- The characters of a number are recognised where the number ends. -/
theorem IsNumber.exists_lexed (h : IsNumber cs) (hrest : EndsNumber cs rest) :
    ∃ c tail, cs = c :: tail ∧ Lexed c tail rest (.number (.ofList cs)) := by
  obtain hunsigned | ⟨digits, rfl, hdigits⟩ := h
  · obtain ⟨d, ds, rfl, -⟩ := hunsigned.exists_cons
    exact ⟨d, ds, rfl, .unsigned hunsigned hrest⟩
  · have hends : EndsNumber digits rest :=
      ⟨hrest.1, fun hpoint => hrest.2 (by simpa using hpoint)⟩
    exact ⟨'-', digits, rfl, .negative hdigits hends⟩

/-- A token that can be written: what is written for a variable or a number has the form of one. -/
def Token.WellSpelled : Token → Prop
  | .var name => IsVariable (varText name).toList
  | .number spelling => IsNumber spelling.toList
  | _ => True

/-- A variable without a number is written as its name. -/
theorem varText_eq_self {name : String} (h : IsPlain name) : varText name = name := by
  unfold varText
  split
  · next heq => exact absurd (by simp [heq]) h
  · rfl

@[simp] theorem varText_anonymousName (n : Nat) : varText (Cursor.anonymousName n) = "_" := by
  simp [varText, Cursor.anonymousName, String.toList_append]

theorem Token.lexeme_wellSpelled (offset : Nat) (c : Char) (cs : List Char) :
    Ensures (fun p => p.1.WellSpelled) (lexeme offset c cs) := by
  rintro ⟨token, n⟩ hlexeme
  obtain ⟨tail, rest, -, -, hlexed⟩ := exists_lexed hlexeme
  cases hlexed with
  | symbol h =>
    have hsymbols : ∀ s ∈ symbols, s.2.2.WellSpelled := by
      simp [symbols, WellSpelled]
    exact hsymbols _ h
  | eq | period | quotedAtom | string | atom => trivial
  | unsigned h hrest => exact .inl (by rwa [String.toList_ofList])
  | negative h hrest => exact .inr ⟨tail, String.toList_ofList, h⟩
  | var hc htail hrest =>
    have hplain : IsPlain (String.ofList (c :: tail)) := by
      have hnames : ∀ d ∈ c :: tail, isNameChar d = true :=
        List.forall_mem_cons.mpr ⟨(of_isUpper_or hc).1, htail⟩
      rw [IsPlain, String.toList_ofList]
      exact fun hmem => absurd (hnames _ hmem) (by decide)
    refine ⟨c, tail, ?_, hc, htail⟩
    rw [varText_eq_self hplain, String.toList_ofList]

/-! ## Texts -/

/-- A text is cut into some tokens, wherever it starts. -/
def Scans (cs : List Char) (tokens : List Token) : Prop :=
  ∀ offset, ∃ ps, Token.scanFrom 0 offset cs = .ok ps ∧ ps.map Prod.fst = tokens

namespace Scans

variable {token : Token} {tokens : List Token} {name : String}

theorem nil : Scans [] [] :=
  fun _ => ⟨[], rfl, rfl⟩

/-- Characters that belong to a token are passed over. -/
theorem scanFrom_append (front rest : List Char) (offset : Nat) :
    Token.scanFrom front.length offset (front ++ rest) =
      Token.scanFrom 0 (offset + Text.byteWidth front) rest := by
  induction front generalizing offset with
  | nil => rfl
  | cons c front ih =>
    rw [List.length_cons, List.cons_append, Token.scanFrom, ih, Text.byteWidth, Nat.add_assoc]

theorem scanFrom_blank (hc : Text.isBlank c = true) (offset : Nat) :
    Token.scanFrom 0 offset (c :: rest) = Token.scanFrom 0 (offset + c.utf8Size) rest := by
  rw [Token.scanFrom, if_pos hc]

theorem scanFrom_token {tail : List Char} (htoken : Lexed c tail rest token) (offset : Nat) :
    Token.scanFrom 0 offset (c :: (tail ++ rest)) =
      (Token.scanFrom 0 (offset + Text.byteWidth (c :: tail)) rest).map ((token, offset) :: ·) := by
  obtain ⟨hblank, hcomment⟩ := htoken.head_ne
  simp only [Token.scanFrom, hblank, hcomment, htoken.lexeme, scanFrom_append, Text.byteWidth,
    Nat.add_assoc, if_false, Bool.false_eq_true]
  cases Token.scanFrom 0 (offset + (c.utf8Size + Text.byteWidth tail)) rest <;> rfl

theorem blank (hc : Text.isBlank c = true) (h : Scans rest tokens) : Scans (c :: rest) tokens := by
  intro offset
  rw [scanFrom_blank hc]
  exact h _

/-- A token is put in front of a text that has been scanned. -/
theorem cons (tail : List Char) (htoken : Lexed c tail rest token) (h : Scans rest tokens) :
    Scans (c :: (tail ++ rest)) (token :: tokens) := by
  intro offset
  obtain ⟨ps, hps, rfl⟩ := h (offset + Text.byteWidth (c :: tail))
  exact ⟨(token, offset) :: ps, by rw [scanFrom_token htoken, hps]; rfl, rfl⟩

/-- The tokens of a whole text. -/
theorem scan {text : String} (h : Scans text.toList tokens) :
    ∃ ps, Token.scan text = .ok ps ∧ ps.map Prod.fst = tokens :=
  h 0

/-! ### Punctuation -/

theorem leftParen (h : Scans rest tokens) : Scans ('(' :: rest) (.leftParen :: tokens) :=
  cons [] (.symbol (by decide)) h

theorem rightParen (h : Scans rest tokens) : Scans (')' :: rest) (.rightParen :: tokens) :=
  cons [] (.symbol (by decide)) h

theorem leftBracket (h : Scans rest tokens) : Scans ('[' :: rest) (.leftBracket :: tokens) :=
  cons [] (.symbol (by decide)) h

theorem rightBracket (h : Scans rest tokens) : Scans (']' :: rest) (.rightBracket :: tokens) :=
  cons [] (.symbol (by decide)) h

theorem comma (h : Scans rest tokens) : Scans (',' :: rest) (.comma :: tokens) :=
  cons [] (.symbol (by decide)) h

theorem bar (h : Scans rest tokens) : Scans ('|' :: rest) (.bar :: tokens) :=
  cons [] (.symbol (by decide)) h

theorem neck (h : Scans rest tokens) : Scans (':' :: '-' :: rest) (.neck :: tokens) :=
  cons ['-'] (.symbol (by decide)) h

theorem not (h : Scans rest tokens) : Scans ('\\' :: '+' :: rest) (.not :: tokens) :=
  cons ['+'] (.symbol (by decide)) h

theorem notEq (h : Scans rest tokens) : Scans ('\\' :: '=' :: rest) (.notEq :: tokens) :=
  cons ['='] (.symbol (by decide)) h

theorem space (h : Scans rest tokens) : Scans (' ' :: rest) tokens :=
  blank (by decide) h

/-- An equals sign before another one is no token. -/
theorem eq (h : Scans (' ' :: rest) tokens) : Scans ('=' :: ' ' :: rest) (.eq :: tokens) :=
  cons [] (.eq (by simp)) h

/-- The period at the end. -/
theorem period : Scans ['.'] [.period] :=
  cons [] (.period gap_nil) nil

/-! ### Names, numbers and quoted items -/

/-- The characters of a plain name are recognised in front of a delimiter. -/
theorem exists_lexed_plainName (hname : isPlainName name = true) (hrest : Delimited rest) :
    ∃ c tail, name.toList = c :: tail ∧ Lexed c tail rest (.atom name) := by
  unfold isPlainName at hname
  split at hname
  · cases hname
  · next c cs heq =>
    obtain ⟨hlower, hall⟩ := Bool.and_eq_true_iff.mp hname
    have hof : String.ofList (c :: cs) = name := by rw [← heq, String.ofList_toList]
    refine ⟨c, cs, heq, ?_⟩
    rw [← hof]
    exact .atom hlower (List.all_eq_true.mp hall) fun d hd => (hrest.head d hd).1

theorem plainName (hname : isPlainName name = true) (hrest : Delimited rest)
    (h : Scans rest tokens) : Scans (name.toList ++ rest) (.atom name :: tokens) := by
  obtain ⟨c, tail, heq, hlexed⟩ := exists_lexed_plainName hname hrest
  rw [heq]
  exact cons _ hlexed h

theorem var (hname : IsVariable name.toList) (hrest : Delimited rest) (h : Scans rest tokens) :
    Scans (name.toList ++ rest) (.var name :: tokens) := by
  obtain ⟨c, cs, heq, hc, hcs⟩ := hname
  have hof : String.ofList (c :: cs) = name := by rw [← heq, String.ofList_toList]
  rw [heq, ← hof]
  exact cons _ (.var hc hcs fun d hd => (hrest.head d hd).1) h

theorem number {spelling : String} (hspelling : IsNumber spelling.toList) (hrest : Delimited rest)
    (h : Scans rest tokens) : Scans (spelling.toList ++ rest) (.number spelling :: tokens) := by
  obtain ⟨c, tail, heq, hlexed⟩ := hspelling.exists_lexed hrest.endsNumber
  rw [String.ofList_toList] at hlexed
  rw [heq]
  exact cons _ hlexed h

/-- An escaped text in quotes is recognised where no other quote follows. -/
theorem quoted {make : String → Token} (hq : q ≠ '\\') (hself : Token.unescape q = q)
    (hlexed : ∀ {tail content rest : List Char}, Quoted q tail content →
      (∀ d ∈ rest.head?, d ≠ q) → Lexed q tail rest (make (.ofList content)))
    (content : String) (hrest : ∀ d ∈ rest.head?, d ≠ q) (h : Scans rest tokens) :
    Scans (q :: ((Text.escape q content).toList ++ q :: rest)) (make content :: tokens) := by
  have hcons := cons _ (hlexed (quoted_escapeChars hq hself content.toList) hrest) h
  simpa [Text.escape, String.ofList_toList] using hcons

theorem quotedAtom (content : String) (hrest : Delimited rest) (h : Scans rest tokens) :
    Scans ('\'' :: ((Text.escape '\'' content).toList ++ '\'' :: rest))
      (.atom content :: tokens) :=
  quoted (by decide) rfl .quotedAtom content (fun d hd => (hrest.head d hd).2.1) h

theorem string (content : String) (hrest : Delimited rest) (h : Scans rest tokens) :
    Scans ('"' :: ((Text.escape '"' content).toList ++ '"' :: rest))
      (.string content :: tokens) :=
  quoted (by decide) rfl .string content (fun d hd => (hrest.head d hd).2.2) h

end Scans

end OntoLogic
