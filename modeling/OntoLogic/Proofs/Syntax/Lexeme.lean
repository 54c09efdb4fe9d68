-- SUMMARY: The characters of a token and what may follow them.
import OntoLogic.Proofs.Syntax.Variables
import OntoLogic.Proofs.Text.Trim

/-!
# Lexemes

Which token starts at a character depends on the characters of the token and on at most two after
them. `Lexed` names the characters of a token and keeps what follows, so a token is recognised again
where something else follows that starts alike, and in front of a gap.
-/

namespace OntoLogic

variable {c d q : Char} {cs tail content rest rest' : List Char} {token : Token}

/-! ## Characters -/

theorem isBlank_eq_false (h : 33 ≤ c.toNat) (h' : c.toNat ≤ 127) :
    Text.isBlank c = false := by
  simp [Text.isBlank, Text.blankRanges]
  omega

theorem toNat_of_isLower (h : c.isLower = true) : 97 ≤ c.toNat ∧ c.toNat ≤ 122 := by
  have h : (decide ('a'.val ≤ c.val) && decide (c.val ≤ 'z'.val)) = true := h
  simpa [UInt32.le_iff_toNat_le] using h

theorem toNat_of_isUpper (h : c.isUpper = true) : 65 ≤ c.toNat ∧ c.toNat ≤ 90 := by
  have h : 'A'.val ≤ c.val ∧ c.val ≤ 'Z'.val := of_decide_eq_true h
  simpa [UInt32.le_iff_toNat_le] using h

theorem toNat_of_isDigit (h : c.isDigit = true) : 48 ≤ c.toNat ∧ c.toNat ≤ 57 := by
  simpa [Char.isDigit, UInt32.le_iff_toNat_le] using h

theorem isNameChar_iff : isNameChar c = true ↔
    ((c.isUpper = true ∨ c.isLower = true) ∨ c.isDigit = true) ∨ c = '_' := by
  change ((c.isUpper || c.isLower || c.isDigit) || c == '_') = true ↔ _
  simp only [Bool.or_eq_true, beq_iff_eq]

theorem isNameChar_of_isDigit (h : c.isDigit = true) : isNameChar c = true :=
  isNameChar_iff.mpr (.inl (.inr h))

theorem isNameChar_of_isLower (h : c.isLower = true) : isNameChar c = true :=
  isNameChar_iff.mpr (.inl (.inl (.inr h)))

theorem isDigit_of_isLower (h : c.isLower = true) : c.isDigit = false := by
  rw [Bool.eq_false_iff]
  intro hdigit
  have := toNat_of_isLower h
  have := toNat_of_isDigit hdigit
  omega

/-- What starts a variable starts neither a number nor an atom. -/
theorem of_isUpper_or (h : (c.isUpper || c == '_') = true) :
    isNameChar c = true ∧ c.isDigit = false ∧ c.isLower = false := by
  obtain hupper | hunderscore := Bool.or_eq_true_iff.mp h
  · have := toNat_of_isUpper hupper
    refine ⟨isNameChar_iff.mpr (.inl (.inl (.inl hupper))), ?_, ?_⟩
    · rw [Bool.eq_false_iff]
      intro hdigit
      have := toNat_of_isDigit hdigit
      omega
    · rw [Bool.eq_false_iff]
      intro hlower
      have := toNat_of_isLower hlower
      omega
  · obtain rfl := beq_iff_eq.mp hunderscore
    decide

theorem toNat_of_isNameChar (h : isNameChar c = true) : 48 ≤ c.toNat ∧ c.toNat ≤ 122 := by
  obtain ((h | h) | h) | rfl := isNameChar_iff.mp h
  · have := toNat_of_isUpper h
    omega
  · have := toNat_of_isLower h
    omega
  · have := toNat_of_isDigit h
    omega
  · decide

/-! ## What follows -/

/-- Nothing follows, or a blank, or a comment. -/
def Gap (rest : List Char) : Prop :=
  ∀ d ∈ rest.head?, Text.isBlank d = true ∨ d = '%'

@[simp] theorem gap_nil : Gap [] := nofun

@[simp] theorem gap_cons : Gap (d :: rest) ↔ Text.isBlank d = true ∨ d = '%' := by
  simp [Gap]

/-- No token goes on with a blank or with a percent sign. -/
theorem ne_of_isBlank_or (h : Text.isBlank d = true ∨ d = '%') :
    isNameChar d = false ∧ d.isDigit = false ∧ d ≠ '=' ∧ d ≠ '.' ∧ d ≠ '\'' ∧ d ≠ '"' := by
  have hname : isNameChar d = false := by
    rw [Bool.eq_false_iff]
    intro hname
    have hbounds := toNat_of_isNameChar hname
    obtain h | rfl := h
    · rw [isBlank_eq_false (by omega) (by omega)] at h
      cases h
    · cases hname
  refine ⟨hname, ?_, ?_, ?_, ?_, ?_⟩
  · rw [Bool.eq_false_iff]
    intro hdigit
    rw [isNameChar_of_isDigit hdigit] at hname
    cases hname
  all_goals
    rintro rfl
    revert h
    decide

/-- Two texts start alike: the second is a gap, or they agree in their first character and go on
with the same character or, in the second, with a gap. -/
def Alike (rest rest' : List Char) : Prop :=
  Gap rest' ∨ ∃ d ds ds', rest = d :: ds ∧ rest' = d :: ds' ∧ (Gap ds' ∨ ds.head? = ds'.head?)

/-- A property of the first character that gaps have too. -/
theorem Alike.head {P : Char → Prop} (h : Alike rest rest')
    (hgap : ∀ d, Text.isBlank d = true ∨ d = '%' → P d) (hrest : ∀ d ∈ rest.head?, P d) :
    ∀ d ∈ rest'.head?, P d := by
  obtain h | ⟨e, ds, ds', rfl, rfl, -⟩ := h
  · exact fun d hd => hgap d (h d hd)
  · simpa using hrest

/-! ## Numbers -/

theorem takeWhile_eq_nil_iff_head? {p : Char → Bool} :
    cs.takeWhile p = [] ↔ ∀ d ∈ cs.head?, p d = false := by
  cases cs with
  | nil => simp
  | cons c cs => cases hc : p c <;> simp [hc]

/-- A text is split where a condition on its characters ends. -/
theorem exists_takeWhile (p : Char → Bool) (cs : List Char) :
    ∃ front rest, cs = front ++ rest ∧ cs.takeWhile p = front ∧ (∀ d ∈ front, p d = true) ∧
      ∀ d ∈ rest.head?, p d = false := by
  refine ⟨_, _, List.takeWhile_append_dropWhile.symm, rfl, fun d hd => List.mem_takeWhile_imp hd,
    fun d hd => ?_⟩
  have hnot := List.head?_dropWhile_not p cs
  rw [Option.mem_def.mp hd] at hnot
  simpa using hnot

/-- Digits, or digits, a point and digits. -/
def IsUnsigned (cs : List Char) : Prop :=
  ∃ whole, whole ≠ [] ∧ (∀ c ∈ whole, c.isDigit = true) ∧
    (cs = whole ∨ ∃ fraction, fraction ≠ [] ∧ (∀ c ∈ fraction, c.isDigit = true) ∧
      cs = whole ++ '.' :: fraction)

theorem IsUnsigned.exists_cons (h : IsUnsigned cs) :
    ∃ d ds, cs = d :: ds ∧ d.isDigit = true := by
  obtain ⟨whole, hne, hwhole, hcs⟩ := h
  cases whole with
  | nil => exact absurd rfl hne
  | cons d ds =>
    refine ⟨d, ?_⟩
    obtain rfl | ⟨fraction, -, -, rfl⟩ := hcs
    · exact ⟨ds, rfl, hwhole d List.mem_cons_self⟩
    · exact ⟨_, rfl, hwhole d List.mem_cons_self⟩

theorem IsUnsigned.exists_append (h : IsUnsigned cs) :
    ∃ front d, cs = front ++ [d] ∧ d.isDigit = true := by
  have hdigits {digits : List Char} (hne : digits ≠ [])
      (hall : ∀ d ∈ digits, d.isDigit = true) :
      ∃ front d, digits = front ++ [d] ∧ d.isDigit = true :=
    ⟨_, _, (List.dropLast_append_getLast hne).symm, hall _ (List.getLast_mem hne)⟩
  obtain ⟨whole, hne, hwhole, rfl | ⟨fraction, hne', hfraction, rfl⟩⟩ := h
  · exact hdigits hne hwhole
  · obtain ⟨front, d, rfl, hd⟩ := hdigits hne' hfraction
    exact ⟨whole ++ '.' :: front, d, by simp, hd⟩

/-- The part of a number after its first digits: a point and digits, or nothing. -/
def fractionChars : List Char → List Char
  | '.' :: d :: rest => if d.isDigit then '.' :: d :: rest.takeWhile Char.isDigit else []
  | _ => []

theorem fractionChars_eq_nil_iff :
    fractionChars cs = [] ↔ ∀ d ds, cs = '.' :: d :: ds → d.isDigit = false := by
  unfold fractionChars
  split
  · next d rest => simp
  · next hnone => simpa using fun d ds heq => absurd heq (hnone d ds)

theorem numberChars_eq (cs : List Char) : Token.numberChars cs =
    cs.takeWhile Char.isDigit ++ fractionChars (cs.dropWhile Char.isDigit) := by
  unfold Token.numberChars
  dsimp only
  split
  · next d rest heq =>
    rw [heq, fractionChars]
    split
    · rfl
    · rw [List.append_nil]
  · next hnone =>
    rw [fractionChars_eq_nil_iff.mpr fun d ds heq => absurd heq (hnone d ds), List.append_nil]

theorem fractionChars_cases (cs : List Char) : fractionChars cs = [] ∨
    ∃ fraction, fraction ≠ [] ∧ (∀ c ∈ fraction, c.isDigit = true) ∧
      fractionChars cs = '.' :: fraction := by
  unfold fractionChars
  split
  · next d rest =>
    split
    · next hd =>
      refine .inr ⟨d :: rest.takeWhile Char.isDigit, List.cons_ne_nil _ _, ?_, rfl⟩
      exact List.forall_mem_cons.mpr ⟨hd, fun e he => List.mem_takeWhile_imp he⟩
    · exact .inl rfl
  · exact .inl rfl

theorem fractionChars_point (hne : tail ≠ []) (htail : ∀ d ∈ tail, d.isDigit = true) :
    fractionChars ('.' :: (tail ++ rest)) = '.' :: (tail ++ rest.takeWhile Char.isDigit) := by
  obtain ⟨d, ds, rfl⟩ := List.exists_cons_of_ne_nil hne
  obtain ⟨hd, hds⟩ := List.forall_mem_cons.mp htail
  simp only [List.cons_append, fractionChars, hd, if_true, List.takeWhile_append_of_pos hds]

theorem exists_fractionChars_append (cs : List Char) :
    ∃ rest, fractionChars cs ++ rest = cs := by
  unfold fractionChars
  split
  · next d rest =>
    split
    · exact ⟨rest.dropWhile Char.isDigit, by simp [List.takeWhile_append_dropWhile]⟩
    · exact ⟨_, rfl⟩
  · exact ⟨_, rfl⟩

theorem exists_numberChars_append (cs : List Char) :
    ∃ rest, Token.numberChars cs ++ rest = cs := by
  obtain ⟨rest, hrest⟩ := exists_fractionChars_append (cs.dropWhile Char.isDigit)
  exact ⟨rest, by rw [numberChars_eq, List.append_assoc, hrest, List.takeWhile_append_dropWhile]⟩

/-- What is taken for a number is one. -/
theorem isUnsigned_numberChars (h : c.isDigit = true) :
    IsUnsigned (Token.numberChars (c :: cs)) := by
  refine ⟨(c :: cs).takeWhile Char.isDigit, by simp [h], fun d hd => List.mem_takeWhile_imp hd, ?_⟩
  rw [numberChars_eq]
  obtain hnil | ⟨fraction, hne, hfraction, heq⟩ :=
    fractionChars_cases ((c :: cs).dropWhile Char.isDigit)
  · exact .inl (by rw [hnil, List.append_nil])
  · exact .inr ⟨fraction, hne, hfraction, by rw [heq]⟩

/-- A number ends before `rest`: no digit follows, and no point with a digit unless the number has a
point itself. -/
def EndsNumber (cs rest : List Char) : Prop :=
  (∀ d ∈ rest.head?, d.isDigit = false) ∧
    ('.' ∉ cs → ∀ d ds, rest = '.' :: d :: ds → d.isDigit = false)

/-- A number without a point is read up to `rest` exactly when it ends there. -/
theorem numberChars_whole_iff (h : ∀ c ∈ cs, c.isDigit = true) :
    Token.numberChars (cs ++ rest) = cs ↔ EndsNumber cs rest := by
  have hpoint : '.' ∉ cs := fun hmem => absurd (h _ hmem) (by decide)
  rw [numberChars_eq, List.takeWhile_append_of_pos h, List.dropWhile_append_of_pos h,
    List.append_assoc, List.append_right_eq_self, List.append_eq_nil_iff,
    takeWhile_eq_nil_iff_head?, EndsNumber]
  refine and_congr_right fun hhead => ?_
  rw [Text.dropWhile_eq_self_of_head? hhead, fractionChars_eq_nil_iff]
  exact ⟨fun h _ => h, fun h => h hpoint⟩

/-- A number with a point is read up to `rest` exactly when it ends there. -/
theorem numberChars_point_iff (h : ∀ c ∈ cs, c.isDigit = true) (hne : tail ≠ [])
    (htail : ∀ d ∈ tail, d.isDigit = true) :
    Token.numberChars (cs ++ '.' :: tail ++ rest) = cs ++ '.' :: tail ↔
      EndsNumber (cs ++ '.' :: tail) rest := by
  have hends : EndsNumber (cs ++ '.' :: tail) rest ↔ rest.takeWhile Char.isDigit = [] := by
    rw [EndsNumber, takeWhile_eq_nil_iff_head?]
    simp
  have hwhole : ('.' :: (tail ++ rest)).takeWhile Char.isDigit = [] := by simp
  have hdrop : ('.' :: (tail ++ rest)).dropWhile Char.isDigit = '.' :: (tail ++ rest) := by simp
  rw [hends, List.append_assoc, List.cons_append, numberChars_eq,
    List.takeWhile_append_of_pos h, List.dropWhile_append_of_pos h, hwhole, hdrop,
    fractionChars_point hne htail]
  simp

/-- A number is read up to `rest` exactly when it ends there. -/
theorem numberChars_append_iff (h : IsUnsigned cs) :
    Token.numberChars (cs ++ rest) = cs ↔ EndsNumber cs rest := by
  obtain ⟨whole, -, hwhole, rfl | ⟨fraction, hne, hfraction, rfl⟩⟩ := h
  · exact numberChars_whole_iff hwhole
  · exact numberChars_point_iff hwhole hne hfraction

/-- What is taken for a number ends before the rest of the text. -/
theorem exists_numberChars (cs : List Char) (h : c.isDigit = true) :
    ∃ tail rest, cs = tail ++ rest ∧ Token.numberChars (c :: cs) = c :: tail ∧
      IsUnsigned (c :: tail) ∧ EndsNumber (c :: tail) rest := by
  have hunsigned : IsUnsigned (Token.numberChars (c :: cs)) := isUnsigned_numberChars h
  obtain ⟨rest, hrest⟩ := exists_numberChars_append (c :: cs)
  obtain ⟨d, tail, hchars, -⟩ := hunsigned.exists_cons
  rw [hchars] at hrest hunsigned
  obtain ⟨rfl, rfl⟩ := List.cons.inj hrest
  exact ⟨tail, rest, rfl, hchars, hunsigned, (numberChars_append_iff hunsigned).mp hchars⟩

theorem EndsNumber.alike (h : EndsNumber cs rest) (halike : Alike rest rest') :
    EndsNumber cs rest' := by
  refine ⟨halike.head (fun d hd => (ne_of_isBlank_or hd).2.1) h.1, ?_⟩
  rintro hpoint d ds rfl
  obtain hgap | ⟨e, es, es', hrest, hrest', hnext⟩ := halike
  · exact absurd rfl (ne_of_isBlank_or (gap_cons.mp hgap)).2.2.2.1
  · obtain ⟨rfl, rfl⟩ := List.cons.inj hrest'
    obtain hgap | hhead := hnext
    · exact (ne_of_isBlank_or (gap_cons.mp hgap)).2.1
    · obtain ⟨es, rfl⟩ : ∃ ds', es = d :: ds' := by
        cases es with
        | nil => cases hhead
        | cons e' es => exact ⟨es, by simpa using hhead⟩
      exact h.2 hpoint d es hrest

/-! ## Quoted items -/

/-- The characters of a quoted item after its opening quote, and its content. -/
inductive Quoted (q : Char) : (tail content : List Char) → Prop
  | close (hq : q ≠ '\\') : Quoted q [q] []
  | escape {d : Char} {tail content : List Char} (h : Quoted q tail content) :
    Quoted q ('\\' :: d :: tail) (Token.unescape d :: content)
  | double {tail content : List Char} (hq : q ≠ '\\') (h : Quoted q tail content) :
    Quoted q (q :: q :: tail) (q :: content)
  | plain {c : Char} {tail content : List Char} (hbackslash : c ≠ '\\') (hc : c ≠ q)
    (h : Quoted q tail content) : Quoted q (c :: tail) (c :: content)

theorem Quoted.exists_append (h : Quoted q tail content) : ∃ front, tail = front ++ [q] := by
  induction h with
  | close => exact ⟨[], rfl⟩
  | escape h ih | double hq h ih =>
    obtain ⟨front, rfl⟩ := ih
    exact ⟨_ :: _ :: front, rfl⟩
  | plain hbackslash hc h ih =>
    obtain ⟨front, rfl⟩ := ih
    exact ⟨_ :: front, rfl⟩

/-- A quoted item is read up to a quote that is not doubled. -/
theorem Quoted.quotedChars (h : Quoted q tail content) (hrest : ∀ d ∈ rest.head?, d ≠ q) :
    Token.quotedChars q (tail ++ rest) = some (content, tail.length) := by
  induction h with
  | close hq =>
    cases rest with
    | nil => simp [Token.quotedChars]
    | cons d rest =>
      have hd : d ≠ q := hrest d rfl
      simp [Token.quotedChars, hq, hd]
  | escape h ih => simp [Token.quotedChars, ih]
  | double hq h ih => simp [Token.quotedChars, hq, ih]
  | plain hbackslash hc h ih =>
    obtain ⟨front, rfl⟩ := h.exists_append
    cases front with
    | nil => simpa [Token.quotedChars, hbackslash, hc] using ih
    | cons e front => simpa [Token.quotedChars, hbackslash, hc] using ih

theorem exists_quoted {n : Nat} (h : Token.quotedChars q cs = some (content, n)) :
    ∃ tail rest, cs = tail ++ rest ∧ tail.length = n ∧ Quoted q tail content ∧
      ∀ d ∈ rest.head?, d ≠ q := by
  induction cs using Token.quotedChars.induct q generalizing content n with
  | case1 | case2 => cases h
  | case3 hq =>
    simp only [Token.quotedChars, if_true, Option.some.injEq, Prod.mk.injEq] at h
    obtain ⟨rfl, rfl⟩ := h
    exact ⟨[q], [], rfl, rfl, .close hq, nofun⟩
  | case4 c hc hne => simp [Token.quotedChars, hne] at h
  | case5 d cs ih =>
    simp only [Token.quotedChars, if_true, Option.map_eq_some_iff, Prod.mk.injEq] at h
    obtain ⟨⟨content, n⟩, h, rfl, rfl⟩ := h
    obtain ⟨tail, rest, rfl, rfl, hquoted, hrest⟩ := ih h
    exact ⟨_ :: _ :: tail, rest, rfl, rfl, .escape hquoted, hrest⟩
  | case6 cs hq ih =>
    simp only [Token.quotedChars, hq, if_false, if_true, Option.map_eq_some_iff,
      Prod.mk.injEq] at h
    obtain ⟨⟨content, n⟩, h, rfl, rfl⟩ := h
    obtain ⟨tail, rest, rfl, rfl, hquoted, hrest⟩ := ih h
    exact ⟨_ :: _ :: tail, rest, rfl, rfl, .double hq hquoted, hrest⟩
  | case7 d cs hd hq =>
    simp only [Token.quotedChars, hq, hd, if_false, if_true, Option.some.injEq,
      Prod.mk.injEq] at h
    obtain ⟨rfl, rfl⟩ := h
    exact ⟨[q], d :: cs, rfl, rfl, .close hq, by simpa using hd⟩
  | case8 c d cs hbackslash hc ih =>
    simp only [Token.quotedChars, hbackslash, hc, if_false, Option.map_eq_some_iff,
      Prod.mk.injEq] at h
    obtain ⟨⟨content, n⟩, h, rfl, rfl⟩ := h
    obtain ⟨tail, rest, hcs, rfl, hquoted, hrest⟩ := ih h
    exact ⟨c :: tail, rest, by rw [hcs]; rfl, rfl, .plain hbackslash hc hquoted, hrest⟩

/-! ## Tokens -/

/-- The tokens that are spelled in one way. -/
def symbols : List (Char × List Char × Token) :=
  [('(', [], .leftParen), (')', [], .rightParen), ('[', [], .leftBracket),
    (']', [], .rightBracket), (',', [], .comma), ('|', [], .bar), (':', ['-'], .neck),
    ('\\', ['+'], .not), ('\\', ['='], .notEq)]

/-- The characters `c :: tail` are a token where `rest` follows. -/
inductive Lexed : (c : Char) → (tail rest : List Char) → Token → Prop
  | symbol {c : Char} {tail rest : List Char} {token : Token} (h : (c, tail, token) ∈ symbols) :
    Lexed c tail rest token
  | eq {rest : List Char} (hrest : ∀ d ∈ rest.head?, d ≠ '=') : Lexed '=' [] rest .eq
  | period {rest : List Char} (hrest : Gap rest) : Lexed '.' [] rest .period
  | unsigned {c : Char} {tail rest : List Char} (h : IsUnsigned (c :: tail))
    (hrest : EndsNumber (c :: tail) rest) : Lexed c tail rest (.number (.ofList (c :: tail)))
  | negative {tail rest : List Char} (h : IsUnsigned tail) (hrest : EndsNumber tail rest) :
    Lexed '-' tail rest (.number (.ofList ('-' :: tail)))
  | quotedAtom {tail rest content : List Char} (h : Quoted '\'' tail content)
    (hrest : ∀ d ∈ rest.head?, d ≠ '\'') :
    Lexed '\'' tail rest (.atom (.ofList content))
  | string {tail rest content : List Char} (h : Quoted '"' tail content)
    (hrest : ∀ d ∈ rest.head?, d ≠ '"') :
    Lexed '"' tail rest (.string (.ofList content))
  | atom {c : Char} {tail rest : List Char} (hc : c.isLower = true)
    (htail : ∀ d ∈ tail, isNameChar d = true) (hrest : ∀ d ∈ rest.head?, isNameChar d = false) :
    Lexed c tail rest (.atom (.ofList (c :: tail)))
  | var {c : Char} {tail rest : List Char} (hc : (c.isUpper || c == '_') = true)
    (htail : ∀ d ∈ tail, isNameChar d = true) (hrest : ∀ d ∈ rest.head?, isNameChar d = false) :
    Lexed c tail rest (.var (.ofList (c :: tail)))

/-- A character of a name starts a number, an atom or a variable. -/
theorem lexeme_of_isNameChar {offset : Nat} (h : isNameChar c = true) :
    Token.lexeme offset c cs =
      if c.isDigit then
        .ok (.number (.ofList (Token.numberChars (c :: cs))),
          (Token.numberChars (c :: cs)).length - 1)
      else if c.isLower then
        .ok (.atom (.ofList (c :: cs.takeWhile isNameChar)), (cs.takeWhile isNameChar).length)
      else if c.isUpper || c == '_' then
        .ok (.var (.ofList (c :: cs.takeWhile isNameChar)), (cs.takeWhile isNameChar).length)
      else .error (.unexpectedChar c offset) := by
  unfold Token.lexeme
  dsimp only
  split
  case h_14 => rfl
  all_goals cases h

/-- A token is recognised. -/
theorem Lexed.lexeme (h : Lexed c tail rest token) (offset : Nat) :
    Token.lexeme offset c (tail ++ rest) = .ok (token, tail.length) := by
  have htakeWhile (htail : ∀ d ∈ tail, isNameChar d = true)
      (hrest : ∀ d ∈ rest.head?, isNameChar d = false) :
      (tail ++ rest).takeWhile isNameChar = tail := by
    rw [List.takeWhile_append_of_pos htail, takeWhile_eq_nil_iff_head?.mpr hrest, List.append_nil]
  cases h with
  | symbol h =>
    simp only [symbols, List.mem_cons, Prod.mk.injEq, List.not_mem_nil, or_false] at h
    rcases h with ⟨rfl, rfl, rfl⟩ | ⟨rfl, rfl, rfl⟩ | ⟨rfl, rfl, rfl⟩ | ⟨rfl, rfl, rfl⟩ |
      ⟨rfl, rfl, rfl⟩ | ⟨rfl, rfl, rfl⟩ | ⟨rfl, rfl, rfl⟩ | ⟨rfl, rfl, rfl⟩ | ⟨rfl, rfl, rfl⟩
    all_goals rfl
  | eq hrest =>
    have hnot : rest.head? ≠ some '=' := fun h => hrest '=' h rfl
    simp [Token.lexeme, hnot]
  | period hrest =>
    cases rest with
    | nil => rfl
    | cons d rest => simp [Token.lexeme, gap_cons.mp hrest]
  | unsigned h hrest =>
    have hchars := (numberChars_append_iff h).mpr hrest
    obtain ⟨d, ds, heq, hd⟩ := h.exists_cons
    obtain ⟨rfl, rfl⟩ := List.cons.inj heq
    rw [List.cons_append] at hchars
    simp [lexeme_of_isNameChar (isNameChar_of_isDigit hd), hd, hchars]
  | negative h hrest =>
    have hchars := (numberChars_append_iff h).mpr hrest
    obtain ⟨d, ds, rfl, hd⟩ := h.exists_cons
    rw [List.cons_append] at hchars
    simp [Token.lexeme, hd, hchars]
  | quotedAtom h hrest => simp [Token.lexeme, Token.quoted, h.quotedChars hrest]
  | string h hrest => simp [Token.lexeme, Token.quoted, h.quotedChars hrest]
  | atom hc htail hrest =>
    simp [lexeme_of_isNameChar (isNameChar_of_isLower hc), isDigit_of_isLower hc, hc,
      htakeWhile htail hrest]
  | var hc htail hrest =>
    obtain ⟨hname, hdigit, hlower⟩ := of_isUpper_or hc
    simp [lexeme_of_isNameChar hname, hdigit, hlower, hc, htakeWhile htail hrest]

theorem exists_lexed_unsigned (cs : List Char) (h : c.isDigit = true) :
    ∃ tail rest, cs = tail ++ rest ∧ tail.length = (Token.numberChars (c :: cs)).length - 1 ∧
      Lexed c tail rest (.number (.ofList (Token.numberChars (c :: cs)))) := by
  obtain ⟨tail, rest, rfl, hchars, hunsigned, hends⟩ := exists_numberChars cs h
  rw [hchars]
  exact ⟨tail, rest, rfl, rfl, .unsigned hunsigned hends⟩

theorem exists_lexed_negative (h : cs.head?.any Char.isDigit = true) :
    ∃ tail rest, cs = tail ++ rest ∧ tail.length = (Token.numberChars cs).length ∧
      Lexed '-' tail rest (.number (.ofList ('-' :: Token.numberChars cs))) := by
  cases cs with
  | nil => cases h
  | cons d ds =>
    obtain ⟨tail, rest, rfl, hchars, hunsigned, hends⟩ := exists_numberChars ds h
    rw [hchars]
    exact ⟨d :: tail, rest, rfl, rfl, .negative hunsigned hends⟩

/-- What starts a name is recognised up to the first character that belongs to no name. -/
theorem exists_lexed_name {make : String → Token} (cs : List Char)
    (hlexed : ∀ {tail rest : List Char}, (∀ d ∈ tail, isNameChar d = true) →
      (∀ d ∈ rest.head?, isNameChar d = false) → Lexed c tail rest (make (.ofList (c :: tail)))) :
    ∃ tail rest, cs = tail ++ rest ∧ tail.length = (cs.takeWhile isNameChar).length ∧
      Lexed c tail rest (make (.ofList (c :: cs.takeWhile isNameChar))) := by
  obtain ⟨tail, rest, rfl, htake, htail, hrest⟩ := exists_takeWhile isNameChar cs
  rw [htake]
  exact ⟨tail, rest, rfl, rfl, hlexed htail hrest⟩

/-- A quote is recognised up to the one that closes it. -/
theorem exists_lexed_quoted {item : String} {make : String → Token} {offset n : Nat}
    (hlexed : ∀ {tail content rest : List Char}, Quoted q tail content →
      (∀ d ∈ rest.head?, d ≠ q) → Lexed q tail rest (make (.ofList content)))
    (h : Token.quoted q item make offset cs = .ok (token, n)) :
    ∃ tail rest, cs = tail ++ rest ∧ tail.length = n ∧ Lexed q tail rest token := by
  unfold Token.quoted at h
  split at h
  · next content m hchars =>
    cases h
    obtain ⟨tail, rest, hcs, hn, hquoted, hrest⟩ := exists_quoted hchars
    exact ⟨tail, rest, hcs, hn, hlexed hquoted hrest⟩
  · cases h

/-- What is recognised is a token. -/
theorem exists_lexed {offset n : Nat} (h : Token.lexeme offset c cs = .ok (token, n)) :
    ∃ tail rest, cs = tail ++ rest ∧ tail.length = n ∧ Lexed c tail rest token := by
  revert h
  unfold Token.lexeme
  dsimp only
  -- one case for each pattern of the first character, the last of which takes numbers and names
  split
  case h_14 =>
    split
    · next hdigit =>
      rintro ⟨⟩
      exact exists_lexed_unsigned cs hdigit
    split
    · next hlower =>
      rintro ⟨⟩
      exact exists_lexed_name cs (.atom hlower)
    split
    · next hstart =>
      rintro ⟨⟩
      exact exists_lexed_name cs (.var hstart)
    · exact nofun
  case h_13 => exact exists_lexed_quoted .string
  case h_12 => exact exists_lexed_quoted .quotedAtom
  case h_11 =>
    split
    · next hdigit =>
      rintro ⟨⟩
      exact exists_lexed_negative hdigit
    · exact nofun
  case h_10 =>
    split
    · exact nofun
    · next hhead =>
      rintro ⟨⟩
      exact ⟨[], cs, rfl, rfl, .eq fun d hd heq => hhead (heq ▸ hd)⟩
  case h_9 =>
    split
    · next rest =>
      rintro ⟨⟩
      exact ⟨['+'], rest, rfl, rfl, .symbol (by decide)⟩
    · next rest =>
      rintro ⟨⟩
      exact ⟨['='], rest, rfl, rfl, .symbol (by decide)⟩
    · exact nofun
  case h_8 =>
    split
    · rintro ⟨⟩
      exact ⟨[], [], rfl, rfl, .period gap_nil⟩
    · next d rest =>
      split
      · next hd =>
        rintro ⟨⟩
        exact ⟨[], d :: rest, rfl, rfl, .period (by simpa using hd)⟩
      · exact nofun
  case h_7 =>
    split
    · next hhead =>
      rintro ⟨⟩
      obtain ⟨rest, rfl⟩ := List.head?_eq_some_iff.mp hhead
      exact ⟨['-'], rest, rfl, rfl, .symbol (by decide)⟩
    · exact nofun
  all_goals
    rintro ⟨⟩
    exact ⟨[], cs, rfl, rfl, .symbol (by decide)⟩

/-- A token begins with neither a blank nor a percent sign. -/
theorem Lexed.head_ne (h : Lexed c tail rest token) : Text.isBlank c = false ∧ c ≠ '%' := by
  have hname {d : Char} (hd : isNameChar d = true) : Text.isBlank d = false ∧ d ≠ '%' := by
    have := toNat_of_isNameChar hd
    exact ⟨isBlank_eq_false (by omega) (by omega), by rintro rfl; cases hd⟩
  cases h with
  | symbol h =>
    have hsymbols : ∀ s ∈ symbols, Text.isBlank s.1 = false ∧ s.1 ≠ '%' := by decide
    exact hsymbols _ h
  | eq | period | negative | quotedAtom | string => decide
  | unsigned h hrest =>
    obtain ⟨d, ds, heq, hd⟩ := h.exists_cons
    exact hname ((List.cons.inj heq).1 ▸ isNameChar_of_isDigit hd)
  | atom hc htail hrest => exact hname (isNameChar_of_isLower hc)
  | var hc htail hrest => exact hname (of_isUpper_or hc).1

/-- The last character of a token is not blank. It is a period when the token is the period. -/
theorem Lexed.exists_append (h : Lexed c tail rest token) :
    ∃ front d, c :: tail = front ++ [d] ∧ Text.isBlank d = false ∧
      (d = '.' ↔ token = .period) := by
  have hname {d : Char} (hd : isNameChar d = true) (htoken : token ≠ .period) :
      Text.isBlank d = false ∧ (d = '.' ↔ token = .period) := by
    have := toNat_of_isNameChar hd
    refine ⟨isBlank_eq_false (by omega) (by omega), fun h => ?_, fun h => absurd h htoken⟩
    subst h
    cases hd
  have hnames (hc : isNameChar c = true) (htail : ∀ d ∈ tail, isNameChar d = true)
      (htoken : token ≠ .period) : ∃ front d, c :: tail = front ++ [d] ∧
        Text.isBlank d = false ∧ (d = '.' ↔ token = .period) := by
    have hne := List.cons_ne_nil c tail
    have hall : ∀ d ∈ c :: tail, isNameChar d = true := List.forall_mem_cons.mpr ⟨hc, htail⟩
    exact ⟨_, _, (List.dropLast_append_getLast hne).symm,
      hname (hall _ (List.getLast_mem hne)) htoken⟩
  cases h with
  | symbol h =>
    have hsymbols : ∀ s ∈ symbols, Text.isBlank ((s.1 :: s.2.1).getLast (by simp)) = false ∧
        (s.1 :: s.2.1).getLast (by simp) ≠ '.' ∧ s.2.2 ≠ .period := by decide
    obtain ⟨hblank, hperiod, htoken⟩ := hsymbols _ h
    exact ⟨_, _, (List.dropLast_append_getLast (List.cons_ne_nil c tail)).symm, hblank,
      fun h => absurd h hperiod, fun h => absurd h htoken⟩
  | eq => exact ⟨[], '=', rfl, by decide⟩
  | period => exact ⟨[], '.', rfl, by decide⟩
  | unsigned h hrest =>
    obtain ⟨front, d, heq, hd⟩ := h.exists_append
    exact ⟨front, d, heq, hname (isNameChar_of_isDigit hd) nofun⟩
  | negative h hrest =>
    obtain ⟨front, d, rfl, hd⟩ := h.exists_append
    exact ⟨'-' :: front, d, rfl, hname (isNameChar_of_isDigit hd) nofun⟩
  | quotedAtom h hrest =>
    obtain ⟨front, rfl⟩ := h.exists_append
    exact ⟨'\'' :: front, '\'', rfl, by decide, by simp⟩
  | string h hrest =>
    obtain ⟨front, rfl⟩ := h.exists_append
    exact ⟨'"' :: front, '"', rfl, by decide, by simp⟩
  | atom hc htail hrest => exact hnames (isNameChar_of_isLower hc) htail nofun
  | var hc htail hrest => exact hnames (of_isUpper_or hc).1 htail nofun

theorem Lexed.alike (h : Lexed c tail rest token) (halike : Alike rest rest') :
    Lexed c tail rest' token := by
  have hgap {d : Char} := @ne_of_isBlank_or d
  cases h with
  | symbol h => exact .symbol h
  | eq hrest => exact .eq (halike.head (fun d hd => (hgap hd).2.2.1) hrest)
  | period hrest => exact .period (halike.head (fun d hd => hd) hrest)
  | unsigned h hrest => exact .unsigned h (hrest.alike halike)
  | negative h hrest => exact .negative h (hrest.alike halike)
  | quotedAtom h hrest => exact .quotedAtom h (halike.head (fun d hd => (hgap hd).2.2.2.2.1) hrest)
  | string h hrest => exact .string h (halike.head (fun d hd => (hgap hd).2.2.2.2.2) hrest)
  | atom hc htail hrest => exact .atom hc htail (halike.head (fun d hd => (hgap hd).1) hrest)
  | var hc htail hrest => exact .var hc htail (halike.head (fun d hd => (hgap hd).1) hrest)

end OntoLogic
