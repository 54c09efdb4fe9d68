-- SUMMARY: The position in an error of a text is that of the character or the token that causes it.
import OntoLogic.Proofs.Syntax.Insertion

/-!
# What errors point at

The scan stops at the first character at which no token starts, or at a quote that is not closed.
What stands before such a place is made of layout and whole tokens, and these stay tokens when the
text is cut there, since the end of a text ends every token.

A reader never looks at anything but the next token. So an error that it raises is about the next
token of some rest of the tokens, or about the end of the text when there is none; the rests are
carried through the readers as suffixes of the tokens of the whole text.
-/

namespace OntoLogic

variable {c q : Char} {cs : List Char} {item : String} {offset : Nat} {e : ParseError}

/-! ## Errors of the scan -/

/-- The quotes, each with the name of the item that it opens. -/
def quotes : List (Char × String) :=
  [('\'', "quoted atom"), ('"', "string")]

/-- Nothing that follows closes an item that is open: after each part that ends as an item can end,
the quote is doubled. -/
def Unclosed (q : Char) (cs : List Char) : Prop :=
  ∀ tail rest content, cs = tail ++ rest → Quoted q tail content → rest.head? = some q

theorem unclosed_of_quotedChars (h : Token.quotedChars q cs = none) : Unclosed q cs := by
  rintro tail rest content rfl hquoted
  by_contra hrest
  have hcloses : ∀ d ∈ rest.head?, d ≠ q := by
    rintro d hd rfl
    exact hrest hd
  simp [hquoted.quotedChars hcloses] at h

theorem quoted_error {make : String → Token} (h : Token.quoted q item make offset cs = .error e) :
    e = .unterminated item offset ∧ Unclosed q cs := by
  unfold Token.quoted at h
  split at h
  · cases h
  · next hnone => exact ⟨(Except.error.inj h).symm, unclosed_of_quotedChars hnone⟩

/-- Where no token is recognised, none starts, or a quote is not closed. -/
theorem lexeme_error (h : Token.lexeme offset c cs = .error e) :
    e = .unexpectedChar c offset ∨
    ∃ item, e = .unterminated item offset ∧ (c, item) ∈ quotes ∧ Unclosed c cs := by
  unfold Token.lexeme at h
  dsimp only at h
  split at h
  case h_12 =>
    obtain ⟨he, hunclosed⟩ := quoted_error h
    exact .inr ⟨_, he, by decide, hunclosed⟩
  case h_13 =>
    obtain ⟨he, hunclosed⟩ := quoted_error h
    exact .inr ⟨_, he, by decide, hunclosed⟩
  all_goals
    repeat' split at h
    all_goals first
      | exact .inl (Except.error.inj h).symm
      | cases h

/-- A scan that fails has gone through layout and whole tokens up to a character at which no token
is recognised. -/
theorem exists_of_scanFrom_error (h : Token.scanFrom 0 offset cs = .error e) :
    ∃ front c rest tokens, cs = front ++ c :: rest ∧ Lexes front tokens ∧
      Token.lexeme (offset + Text.byteWidth front) c rest = .error e := by
  induction offset, cs using scan_induct with
  | nil offset => cases h
  | blank offset c rest hblank ih =>
    rw [Scans.scanFrom_blank hblank] at h
    obtain ⟨front, d, after, tokens, rfl, hfront, herror⟩ := ih h
    refine ⟨c :: front, d, after, tokens, rfl, .blank hblank hfront, ?_⟩
    rwa [Text.byteWidth, ← Nat.add_assoc]
  | comment offset comment rest hcomment hrest ih =>
    rw [Scans.scanFrom_comment hcomment hrest] at h
    obtain ⟨front, d, after, tokens, rfl, hfront, herror⟩ := ih h
    refine ⟨'%' :: (comment ++ front), d, after, tokens, by simp, ?_, ?_⟩
    · refine .comment hcomment (fun b hb => ?_) hfront
      cases front with
      | nil => cases hb
      | cons b' front => simpa using hrest b hb
    · simpa [Text.byteWidth, Text.byteWidth_append, Nat.add_assoc] using herror
  | token offset c tail rest token htoken ih =>
    rw [Scans.scanFrom_token htoken] at h
    obtain ⟨front, d, after, tokens, rfl, hfront, herror⟩ := ih (map_eq_error.mp h)
    -- the token ends at the cut as it ends before the rest of the text
    have halike : Alike (front ++ d :: after) (front ++ []) := .append_left (.inl gap_nil) front
    rw [List.append_nil] at halike
    have hlexes : Lexes (c :: (tail ++ front)) (token :: tokens) :=
      .token (htoken.alike halike) hfront
    refine ⟨c :: (tail ++ front), d, after, _, by simp, hlexes, ?_⟩
    simpa [Text.byteWidth, Text.byteWidth_append, Nat.add_assoc] using herror
  | error offset c rest e' hblank hcomment herror =>
    rw [Scans.scanFrom_error hblank hcomment herror] at h
    obtain rfl : e' = e := Except.error.inj h
    exact ⟨[], c, rest, [], rfl, .nil, herror⟩

/-! ## Errors of the readers -/

/-- An error has no position, or it is about the next token of a cursor. -/
def ParseError.About (c : Cursor) (e : ParseError) : Prop :=
  e.offset? = none ∨ (∃ what, e = c.expected what) ∨ e = .tooDeep c.offset

namespace Cursor

/-- What is left to read of a cursor's tokens. -/
structure Leaves (start c : Cursor) : Prop where
  suffix : c.tokens <:+ start.tokens
  endOffset : c.endOffset = start.endOffset

/-- A reader meets a condition, or fails because of what comes next somewhere after a start. -/
structure Points {α : Type} (start : Cursor) (P : α → Prop) (r : Except ParseError α) : Prop where
  ok : ∀ a, r = .ok a → P a
  error : ∀ e, r = .error e → ∃ c, start.Leaves c ∧ e.About c

/-- What has been read leaves a rest. -/
def LeavesRest {α : Type} (start : Cursor) (p : α × Cursor) : Prop :=
  start.Leaves p.2

variable {start c c' : Cursor} {token : Token}

namespace Points

variable {α β : Type} {P : α → Prop} {Q : β → Prop} {r : Except ParseError α}

theorem of_ok {a : α} (h : P a) : Points start P (.ok a) where
  ok b hb := by
    cases hb
    exact h
  error _ he := nomatch he

theorem of_error (hc : start.Leaves c) (he : e.About c) :
    Points start P (.error e : Except ParseError α) where
  ok _ ha := nomatch ha
  error e' he' := by
    cases he'
    exact ⟨c, hc, he⟩

theorem expected (hc : start.Leaves c) (what : String) :
    Points start P (.error (c.expected what) : Except ParseError α) :=
  of_error hc (.inr (.inl ⟨what, rfl⟩))

theorem bind {f : α → Except ParseError β} (h : Points start P r)
    (hf : ∀ a, P a → Points start Q (f a)) : Points start Q (r >>= f) := by
  cases r with
  | error e =>
    obtain ⟨c, hc, he⟩ := h.error e rfl
    exact of_error hc he
  | ok a => exact hf a (h.ok a rfl)

end Points

/-! ### Single tokens -/

theorem Leaves.refl (start : Cursor) : start.Leaves start :=
  ⟨List.suffix_rfl, rfl⟩

theorem Leaves.eat (hc : start.Leaves c) (h : c.eat token = some c') : start.Leaves c' := by
  unfold Cursor.eat at h
  split at h
  · cases h
  · next heq =>
    split at h
    · cases h
      exact ⟨.trans (heq ▸ List.suffix_cons _ _) hc.suffix, hc.endOffset⟩
    · cases h

theorem Leaves.expect (hc : start.Leaves c) (token : Token) (what : String) :
    Points start start.Leaves (c.expect token what) := by
  unfold Cursor.expect
  split
  · next heat => exact .of_ok (hc.eat heat)
  · exact .expected hc what

theorem Leaves.finish (hc : start.Leaves c) : Points start (fun _ => True) c.finish := by
  unfold Cursor.finish
  split
  · exact .of_ok trivial
  · exact .expected hc _

/-! ### Terms, goals and whole texts -/

section Sequence

variable {α : Type} {item : Cursor → Except ParseError (α × Cursor)}

theorem Leaves.sequenceUpTo (hitem : ∀ c, start.Leaves c → Points start start.LeavesRest (item c))
    (hc : start.Leaves c) (limit : Nat) :
    Points start start.LeavesRest (c.sequenceUpTo item limit) := by
  induction limit generalizing c with
  | zero => exact .expected hc _
  | succ limit ih =>
    unfold Cursor.sequenceUpTo
    have hfirst := hitem c hc
    cases hx : item c with
    | error e =>
      obtain ⟨c', hc', he⟩ := hfirst.error e hx
      exact .of_error hc' he
    | ok p =>
      obtain ⟨x, c₁⟩ := p
      have hc₁ : start.Leaves c₁ := hfirst.ok _ hx
      dsimp only
      cases heat : c₁.eat .comma with
      | none => exact .of_ok hc₁
      | some c₂ =>
        have hmore := ih (hc₁.eat heat)
        dsimp only
        cases hxs : sequenceUpTo item limit c₂ with
        | error e =>
          obtain ⟨c', hc', he⟩ := hmore.error e hxs
          exact .of_error hc' he
        | ok p => exact .of_ok (hmore.ok p hxs)

theorem Leaves.sequence (hitem : ∀ c, start.Leaves c → Points start start.LeavesRest (item c))
    (hc : start.Leaves c) : Points start start.LeavesRest (c.sequence item) :=
  hc.sequenceUpTo hitem _

end Sequence

/-- What stands in brackets is read up to the closing one. -/
theorem Leaves.close {α : Type} (hc : start.Leaves c) (token : Token) (what : String) (a : α) :
    Points start start.LeavesRest (do let c ← c.expect token what; pure (a, c)) :=
  (hc.expect token what).bind fun _ hc => .of_ok hc

theorem Leaves.term (hc : start.Leaves c) (levels : Nat) :
    Points start start.LeavesRest (c.term levels) := by
  induction levels generalizing c with
  | zero => exact .of_error hc (.inr (.inr rfl))
  | succ levels ih =>
    have hitem : ∀ c, start.Leaves c → Points start start.LeavesRest (Cursor.term levels c) :=
      fun c hc => ih hc
    unfold Cursor.term
    split
    · exact .expected hc _
    · next token offset rest heq =>
      have hrest : rest <:+ start.tokens := .trans (heq ▸ List.suffix_cons _ _) hc.suffix
      have hnext {n : Nat} : start.Leaves ⟨rest, c.endOffset, n⟩ := ⟨hrest, hc.endOffset⟩
      dsimp only
      split
      · -- an atom or a compound
        split
        · exact .of_ok hnext
        · next c₁ heat =>
          exact ((hnext.eat heat).sequence hitem).bind fun p hp => Leaves.close hp ..
      · split
        · exact .of_ok hnext
        · exact .of_ok hnext
      · exact .of_ok hnext
      · exact .of_ok hnext
      · -- a list
        split
        · next c₁ heat => exact .of_ok (hnext.eat heat)
        · refine (hnext.sequence hitem).bind fun items hitems => ?_
          split
          · next c₁ heat => exact (ih (Leaves.eat hitems heat)).bind fun p hp => Leaves.close hp ..
          · exact Leaves.close hitems ..
      · -- a term in parentheses
        exact (ih hnext).bind fun p hp => Leaves.close hp ..
      · exact .expected hc _

theorem Leaves.plainGoal (hc : start.Leaves c) (levels : Nat) :
    Points start start.LeavesRest (c.plainGoal levels) := by
  unfold Cursor.plainGoal
  refine (hc.term levels).bind fun left hleft => ?_
  dsimp only
  split
  · next c₁ heat => exact ((Leaves.eat hleft heat).term levels).bind fun p hp => .of_ok hp
  · split
    · next c₁ heat => exact ((Leaves.eat hleft heat).term levels).bind fun p hp => .of_ok hp
    · split
      · exact .of_ok hleft
      · exact .of_error hc (.inl rfl)

theorem Leaves.goal (hc : start.Leaves c) (levels : Nat) :
    Points start start.LeavesRest (c.goal levels) := by
  induction levels generalizing c with
  | zero =>
    unfold Cursor.goal
    split
    · next c₁ heat => exact .of_error (hc.eat heat) (.inr (.inr rfl))
    · exact hc.plainGoal 0
  | succ levels ih =>
    unfold Cursor.goal
    split
    · next c₁ heat => exact (ih (hc.eat heat)).bind fun p hp => .of_ok hp
    · exact hc.plainGoal _

theorem Leaves.goals (hc : start.Leaves c) : Points start start.LeavesRest c.goals :=
  hc.sequence fun _ hc => hc.goal _

theorem Leaves.body (hc : start.Leaves c) : Points start start.LeavesRest c.body := by
  unfold Cursor.body
  split
  · exact .of_ok hc
  · next c₁ heat =>
    split
    · exact .of_error hc (.inl rfl)
    · exact (hc.eat heat).goals

theorem Leaves.period (hc : start.Leaves c) : Points start start.Leaves c.period := by
  unfold Cursor.period
  split
  · exact .of_error hc (.inl rfl)
  · exact hc.expect _ _

theorem Leaves.clause (hc : start.Leaves c) : Points start (fun _ => True) c.clause := by
  unfold Cursor.clause
  refine (hc.term maxNesting).bind fun head hhead => ?_
  dsimp only
  split
  · exact .of_error hc (.inl rfl)
  · refine (Leaves.body hhead).bind fun body hbody => ?_
    refine (Leaves.period hbody).bind fun c₁ hc₁ => ?_
    exact hc₁.finish.bind fun _ _ => .of_ok trivial

theorem Leaves.query (hc : start.Leaves c) : Points start (fun _ => True) c.query := by
  unfold Cursor.query
  refine hc.goals.bind fun goals hgoals => ?_
  have hend : start.Leaves ((goals.2.eat .period).getD goals.2) := by
    cases heat : goals.2.eat .period with
    | none => exact hgoals
    | some c₁ => exact Leaves.eat hgoals heat
  exact hend.finish.bind fun _ _ => .of_ok trivial

end Cursor

/-! ## Culprits -/

/-- A token of the text `before ++ after` starts after `before`. -/
def Token.StartsAt (before after : String) (token : Token) : Prop :=
  (∃ ps, Token.scan (before ++ after) = .ok ps ∧ (token, before.utf8ByteSize) ∈ ps) ∧
  ∃ c tail rest, after.toList = c :: (tail ++ rest) ∧ Lexed c tail rest token

/-- What an error says about the place it points at is true of the text `before ++ after` between
its two parts. -/
def ParseError.Blames (before after : String) : ParseError → Prop
  | .unexpectedChar c _ => after.toList.head? = some c
  | .unterminated item _ => ∃ q cs, (q, item) ∈ quotes ∧ after.toList = q :: cs ∧ Unclosed q cs
  | .expected _ found _ =>
    (∃ token : Token, token.StartsAt before after ∧ token.describe = found) ∨
      found = "end of input" ∧ after = ""
  | .tooDeep _ => (∃ token : Token, token.StartsAt before after) ∨ after = ""
  | .empty | .emptyBody | .missingPeriod | .invalidHead _ | .notCallable _ => False

/-- The text is cut at the position of an error, what stands before can be scanned, and the error
is right about what follows. -/
def ParseError.PointsInto (text : String) (offset : Nat) (e : ParseError) : Prop :=
  ∃ before after, text = before ++ after ∧ before.utf8ByteSize = offset ∧
    (∃ ps, Token.scan before = .ok ps) ∧ e.Blames before after

variable {text : String} {ps : List (Token × Nat)}

theorem Text.byteWidth_ofList (cs : List Char) :
    (String.ofList cs).utf8ByteSize = Text.byteWidth cs := by
  rw [← Text.byteWidth_toList, String.toList_ofList]

/-- An error of the scan points at the character where it has stopped. -/
theorem ParseError.pointsInto_of_scan (h : Token.scan text = .error e)
    (hoffset : e.offset? = some offset) : e.PointsInto text offset := by
  obtain ⟨front, c, rest, tokens, htext, hfront, hlexeme⟩ := exists_of_scanFrom_error h
  have hscan : ∃ ps, Token.scan (.ofList front) = .ok ps := by
    obtain ⟨ps, hps, -⟩ := hfront.scans 0
    exact ⟨ps, by rwa [Token.scan, String.toList_ofList]⟩
  have hcut : text = .ofList front ++ .ofList (c :: rest) := by
    rw [← String.ofList_append, ← htext, String.ofList_toList]
  rw [Nat.zero_add] at hlexeme
  refine ⟨_, _, hcut, ?_, hscan, ?_⟩
  · obtain rfl | ⟨item, rfl, -, -⟩ := lexeme_error hlexeme
    all_goals exact (Text.byteWidth_ofList front).trans (Option.some.inj hoffset)
  · obtain rfl | ⟨item, rfl, hquote, hunclosed⟩ := lexeme_error hlexeme
    · simp [Blames]
    · exact ⟨c, rest, hquote, String.toList_ofList, hunclosed⟩

/-- The tokens that are left to read start with one that starts at the position of the cursor, or
nothing is left and the position is the end of the text. -/
theorem Cursor.exists_cut {c : Cursor} (hscan : Token.scan text = .ok ps)
    (hsuffix : c.tokens <:+ ps) (hend : c.endOffset = text.utf8ByteSize) :
    ∃ before after, text = before ++ after ∧ before.utf8ByteSize = c.offset ∧
      (∃ ps, Token.scan before = .ok ps) ∧
      ((∃ token : Token, token.StartsAt before after ∧ token.describe = c.found) ∨
        c.found = "end of input" ∧ after = "") := by
  obtain ⟨tokens, endOffset, anonymous⟩ := c
  cases tokens with
  | nil => exact ⟨text, "", by simp, hend.symm, ⟨ps, hscan⟩, .inr ⟨rfl, rfl⟩⟩
  | cons p tokens =>
    obtain ⟨token, offset⟩ := p
    have hmem : (token, offset) ∈ ps := hsuffix.subset List.mem_cons_self
    obtain ⟨front, d, tail, back, ts, us, htext, hwidth, htoken, -, -, hbefore⟩ :=
      exists_cut_of_mem hscan hmem
    have hcut : text = .ofList front ++ .ofList (d :: (tail ++ back)) := by
      rw [← String.ofList_append, ← htext, String.ofList_toList]
    have hsize : (String.ofList front).utf8ByteSize = offset :=
      (Text.byteWidth_ofList front).trans hwidth
    have hfront : Scans (String.ofList front).toList ts := by
      simpa using hbefore [] [] (.inl gap_nil) .nil
    obtain ⟨qs, hqs, -⟩ := hfront.scan
    refine ⟨_, _, hcut, hsize, ⟨qs, hqs⟩, .inl ⟨token, ⟨⟨ps, ?_, ?_⟩, ?_⟩, rfl⟩⟩
    · rw [← hcut, hscan]
    · rwa [hsize]
    · exact ⟨d, tail, back, String.toList_ofList, htoken⟩

theorem ParseError.About.pointsInto {c : Cursor} (h : e.About c) (hscan : Token.scan text = .ok ps)
    (hsuffix : c.tokens <:+ ps) (hend : c.endOffset = text.utf8ByteSize)
    (hoffset : e.offset? = some offset) : e.PointsInto text offset := by
  obtain ⟨before, after, htext, hsize, hbefore, hnext⟩ := Cursor.exists_cut hscan hsuffix hend
  obtain hnone | ⟨what, rfl⟩ | rfl := h
  · rw [hnone] at hoffset
    cases hoffset
  · exact ⟨before, after, htext, hsize.trans (Option.some.inj hoffset), hbefore, hnext⟩
  · refine ⟨before, after, htext, hsize.trans (Option.some.inj hoffset), hbefore, ?_⟩
    exact hnext.imp (fun ⟨token, hstarts, _⟩ => ⟨token, hstarts⟩) And.right

/-- A text is read by a reader whose errors are about what comes next. -/
theorem pointsInto_of_read {α : Type} {read : Cursor → Except ParseError α}
    (hread : ∀ start : Cursor, start.Points (fun _ => True) (read start))
    (h : Cursor.ofText text >>= read = .error e) (hoffset : e.offset? = some offset) :
    e.PointsInto text offset := by
  cases hscan : Token.scan text with
  | error e' =>
    simp only [Cursor.ofText, hscan, bind, Except.bind] at h
    obtain rfl : e' = e := Except.error.inj h
    exact ParseError.pointsInto_of_scan hscan hoffset
  | ok ps =>
    let start : Cursor := ⟨ps, text.utf8ByteSize, 0⟩
    have htext : Cursor.ofText text = if ps.isEmpty then .error .empty else .ok start := by
      simp only [Cursor.ofText, hscan, bind, Except.bind]
      split <;> rfl
    rw [htext] at h
    split at h
    · obtain rfl : ParseError.empty = e := Except.error.inj h
      cases hoffset
    · obtain ⟨c, hc, he⟩ := (hread start).error e h
      exact he.pointsInto hscan hc.suffix hc.endOffset hoffset

/-- An error of a clause or a query that has a position points into the text, at a character that
begins there. An unexpected character is the one at that place. An item that is not closed has its
quote there, and none after it closes it. What is found instead of something else is the token that
starts there, or the end of the text. In each case what stands before the place can be scanned. -/
theorem parse_error_points (text : String)
    (h : Clause.parse text = .error e ∨ Query.parse text = .error e)
    (hoffset : e.offset? = some offset) :
    offset ≤ text.utf8ByteSize ∧ e.PointsInto text offset := by
  have hpoints : e.PointsInto text offset := by
    obtain h | h := h
    · exact pointsInto_of_read (fun start => (Cursor.Leaves.refl start).clause) h hoffset
    · exact pointsInto_of_read (fun start => (Cursor.Leaves.refl start).query) h hoffset
  refine ⟨?_, hpoints⟩
  obtain ⟨before, after, rfl, rfl, -⟩ := hpoints
  rw [String.utf8ByteSize_append]
  exact Nat.le_add_right _ _

/-- Three texts with characters of several bytes: a period that ends nothing, an atom whose last
quotes are a doubled one and an escaped one, and an argument that is followed by a string. -/
theorem parse_error_points_dove :
    let period := "taube('Gurré').fliegt(X)"
    let quote := "sagt('Täubchen', 'gurr''\\'"
    let found := "sagt(\"Täubchen\" \"gurr\")."
    Clause.parse period = .error (.unexpectedChar '.' 15) ∧
    (15 ≤ period.utf8ByteSize ∧ (ParseError.unexpectedChar '.' 15).PointsInto period 15) ∧
    Query.parse quote = .error (.unterminated "quoted atom" 18) ∧
    (18 ≤ quote.utf8ByteSize ∧
      (ParseError.unterminated "quoted atom" 18).PointsInto quote 18) ∧
    Clause.parse found = .error (.expected "`,` or `)`" "string \"gurr\"" 17) ∧
    (17 ≤ found.utf8ByteSize ∧
      (ParseError.expected "`,` or `)`" "string \"gurr\"" 17).PointsInto found 17) := by
  intro period quote found
  have hperiod : Clause.parse period = .error (.unexpectedChar '.' 15) := by decide +kernel
  have hquote : Query.parse quote = .error (.unterminated "quoted atom" 18) := by decide +kernel
  have hfound : Clause.parse found = .error (.expected "`,` or `)`" "string \"gurr\"" 17) := by
    decide +kernel
  exact ⟨hperiod, parse_error_points period (.inl hperiod) rfl,
    hquote, parse_error_points quote (.inr hquote) rfl,
    hfound, parse_error_points found (.inl hfound) rfl⟩

end OntoLogic
