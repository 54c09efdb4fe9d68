-- SUMMARY: Blanks and comments that are put between tokens change neither the tokens nor what is read.
import Mathlib.Logic.Relation
import OntoLogic.Proofs.Syntax.Ending
import OntoLogic.Proofs.Syntax.Placement

/-!
# Inserted layout

A text may be loosened: blanks, and comments with the line break that closes them, are put directly
before a token or directly after one. Every token is found again, with the same characters. What
comes before the place ends as before, since layout ends every token and since the first characters
of the next one are where they were. So the text is read as before, or not read because of the same
error, at another position perhaps.
-/

namespace OntoLogic

variable {cs front back rest rest' layout : List Char} {ts us tokens : List Token} {token : Token}

/-! ## Layout -/

/-- Blanks, and comments with the line breaks that close them. -/
inductive IsLayout : List Char → Prop
  | nil : IsLayout []
  | blank {c : Char} {layout : List Char} (hc : Text.isBlank c = true) (h : IsLayout layout) :
    IsLayout (c :: layout)
  | comment {comment layout : List Char} (hcomment : '\n' ∉ comment) (h : IsLayout layout) :
    IsLayout ('%' :: (comment ++ '\n' :: layout))

namespace IsLayout

/-- Layout in front of a text adds no token. -/
theorem lexes_append (h : IsLayout layout) (hrest : Lexes rest tokens) :
    Lexes (layout ++ rest) tokens := by
  induction h with
  | nil => exact hrest
  | blank hc h ih => exact .blank hc ih
  | @comment comment layout hcomment h ih =>
    have hbreak : Lexes ('\n' :: (layout ++ rest)) tokens := .blank (by decide) ih
    simpa using Lexes.comment hcomment (by simp) hbreak

theorem gap_append (h : IsLayout layout) (rest : List Char) :
    layout = [] ∨ Gap (layout ++ rest) := by
  cases h with
  | nil => exact .inl rfl
  | blank hc h => exact .inr (gap_cons.mpr (.inl hc))
  | comment hcomment h => exact .inr (gap_cons.mpr (.inr rfl))

end IsLayout

/-! ## Texts that start alike -/

theorem Alike.refl (rest : List Char) : Alike rest rest := by
  cases rest with
  | nil => exact .inl gap_nil
  | cons d rest => exact .inr ⟨d, rest, rest, rfl, rfl, .inr rfl⟩

theorem IsLayout.alike_append (h : IsLayout layout) (rest : List Char) :
    Alike rest (layout ++ rest) := by
  obtain rfl | hgap := h.gap_append rest
  · exact .refl rest
  · exact .inl hgap

theorem Alike.append_left (h : Alike rest rest') (front : List Char) :
    Alike (front ++ rest) (front ++ rest') := by
  match front with
  | [] => exact h
  | [e] =>
    refine .inr ⟨e, rest, rest', rfl, rfl, ?_⟩
    obtain hgap | ⟨d, ds, ds', rfl, rfl, -⟩ := h
    · exact .inl hgap
    · exact .inr rfl
  | e :: e' :: front => exact .inr ⟨e, _, _, rfl, rfl, .inr rfl⟩

/-! ## A token among others -/

namespace Text

theorem byteWidth_append (front rest : List Char) :
    byteWidth (front ++ rest) = byteWidth front + byteWidth rest := by
  induction front with
  | nil => simp [byteWidth]
  | cons c front ih => simp [byteWidth, ih, Nat.add_assoc]

theorem byteWidth_toList (s : String) : byteWidth s.toList = s.utf8ByteSize := by
  have hwidth (cs : List Char) : byteWidth cs = (String.ofList cs).utf8ByteSize := by
    induction cs with
    | nil => rfl
    | cons c cs ih => simp [byteWidth, ih, String.ofList_cons, String.utf8ByteSize_append]
  rw [hwidth, String.ofList_toList]

/-- What stands before a byte position of a text is determined. -/
theorem eq_of_byteWidth_eq {front front' rest rest' : List Char}
    (h : front ++ rest = front' ++ rest') (hwidth : byteWidth front = byteWidth front') :
    front = front' ∧ rest = rest' := by
  induction front generalizing front' with
  | nil =>
    cases front' with
    | nil => exact ⟨rfl, h⟩
    | cons c front' =>
      have := c.utf8Size_pos
      simp only [byteWidth] at hwidth
      omega
  | cons c front ih =>
    cases front' with
    | nil =>
      have := c.utf8Size_pos
      simp only [byteWidth] at hwidth
      omega
    | cons c' front' =>
      obtain ⟨rfl, htail⟩ := List.cons.inj h
      obtain ⟨rfl, rfl⟩ := ih htail (Nat.add_left_cancel hwidth)
      exact ⟨rfl, rfl⟩

end Text

/-- A text is cut at one of its tokens. What stands before this token is scanned as before where
another text follows that starts alike. -/
theorem Lexes.exists_cut (h : Lexes cs (ts ++ token :: us)) :
    ∃ front c tail back, cs = front ++ c :: (tail ++ back) ∧ Lexed c tail back token ∧
      Lexes back us ∧ ∀ offset, ∃ qs : List (Token × Nat), qs.map Prod.fst = ts ∧
        ∀ rest ps, Alike (c :: (tail ++ back)) rest →
          Token.scanFrom 0 (offset + Text.byteWidth front) rest = .ok ps →
          Token.scanFrom 0 offset (front ++ rest) = .ok (qs ++ ps) := by
  generalize htokens : ts ++ token :: us = tokens at h
  induction h generalizing ts with
  | nil => simp at htokens
  | @blank b cs tokens hb h ih =>
    obtain ⟨front, c, tail, back, rfl, htoken, hback, hscan⟩ := ih htokens
    refine ⟨b :: front, c, tail, back, rfl, htoken, hback, fun offset => ?_⟩
    obtain ⟨qs, hqs, hqs'⟩ := hscan (offset + b.utf8Size)
    refine ⟨qs, hqs, fun rest ps halike hps => ?_⟩
    rw [Text.byteWidth, ← Nat.add_assoc] at hps
    rw [List.cons_append, Scans.scanFrom_blank hb]
    exact hqs' rest ps halike hps
  | @comment comment cs tokens hcomment hcs h ih =>
    obtain ⟨front, c, tail, back, rfl, htoken, hback, hscan⟩ := ih htokens
    refine ⟨'%' :: (comment ++ front), c, tail, back, by simp, htoken, hback, fun offset => ?_⟩
    obtain ⟨qs, hqs, hqs'⟩ := hscan (offset + Text.byteWidth ('%' :: comment))
    refine ⟨qs, hqs, fun rest ps halike hps => ?_⟩
    -- the comment is closed by a line break, which starts no token
    obtain ⟨d, front, rfl⟩ : ∃ d front', front = d :: front' := by
      cases front with
      | nil =>
        obtain rfl : c = '\n' := hcs c rfl
        exact absurd htoken.head_ne.1 (by decide)
      | cons d front => exact ⟨d, front, rfl⟩
    have hclosed : ∀ e ∈ (d :: front ++ rest).head?, e = '\n' := hcs
    rw [List.cons_append, List.append_assoc, Scans.scanFrom_comment hcomment hclosed]
    refine hqs' rest ps halike ?_
    simpa [Text.byteWidth_append, Text.byteWidth, Nat.add_assoc] using hps
  | @token b btail cs btoken tokens hb h ih =>
    cases ts with
    | nil =>
      obtain ⟨rfl, rfl⟩ := List.cons.inj htokens
      refine ⟨[], b, btail, cs, rfl, hb, h, fun offset => ⟨[], rfl, fun rest ps _ hps => hps⟩⟩
    | cons t ts =>
      obtain ⟨rfl, htail⟩ := List.cons.inj htokens
      obtain ⟨front, c, tail, back, rfl, htoken, hback, hscan⟩ := ih htail
      refine ⟨b :: (btail ++ front), c, tail, back, by simp, htoken, hback, fun offset => ?_⟩
      obtain ⟨qs, hqs, hqs'⟩ := hscan (offset + Text.byteWidth (b :: btail))
      refine ⟨(t, offset) :: qs, by simp [hqs], fun rest ps halike hps => ?_⟩
      have hrest := hqs' rest ps halike
        (by simpa [Text.byteWidth_append, Text.byteWidth, Nat.add_assoc] using hps)
      rw [List.cons_append, List.append_assoc,
        Scans.scanFrom_token (hb.alike (halike.append_left front)), hrest]
      rfl

/-- A token has the position at which the text is cut. -/
theorem exists_cut_of_mem {ps : List (Token × Nat)} {offset : Nat}
    (hscan : Token.scanFrom 0 0 cs = .ok ps) (hmem : (token, offset) ∈ ps) :
    ∃ front c tail back ts us, cs = front ++ c :: (tail ++ back) ∧
      Text.byteWidth front = offset ∧ Lexed c tail back token ∧ Lexes back us ∧
      Scans cs (ts ++ token :: us) ∧
      ∀ rest vs, Alike (c :: (tail ++ back)) rest → Lexes rest vs →
        Scans (front ++ rest) (ts ++ vs) := by
  obtain ⟨qs, qs', rfl⟩ := List.append_of_mem hmem
  have hlexes : Lexes cs (qs.map Prod.fst ++ token :: qs'.map Prod.fst) := by
    simpa using lexes_of_scanFrom hscan
  obtain ⟨front, c, tail, back, rfl, htoken, hback, hbefore⟩ := hlexes.exists_cut
  refine ⟨front, c, tail, back, _, _, rfl, ?_, htoken, hback, hlexes.scans, ?_⟩
  · obtain ⟨rs, hrs, hrest⟩ := hbefore 0
    obtain ⟨rs', hrs', -⟩ := hback.scans (Text.byteWidth front + Text.byteWidth (c :: tail))
    have hfound := hrest _ _ (.refl _)
      (by rw [Scans.scanFrom_token htoken, Nat.zero_add, hrs']; rfl)
    have hlength : rs.length = qs.length := by simpa using congrArg List.length hrs
    obtain ⟨-, hcons⟩ := List.append_inj (Except.ok.inj (hfound.symm.trans hscan)) hlength
    exact congrArg Prod.snd (List.cons.inj hcons).1
  · intro rest vs halike hvs offset
    obtain ⟨rs, hrs, hrest⟩ := hbefore offset
    obtain ⟨rs', hrs', rfl⟩ := hvs.scans (offset + Text.byteWidth front)
    exact ⟨rs ++ rs', hrest rest rs' halike hrs', by simp [hrs]⟩

/-! ## Loosened texts -/

/-- The characters `own` of a text are one of its tokens; `front` and `back` are what stands before
and after them. -/
def IsToken (front own back : String) : Prop :=
  ∃ ps token c tail, Token.scan (front ++ own ++ back) = .ok ps ∧
    (token, front.utf8ByteSize) ∈ ps ∧ own.toList = c :: tail ∧
    Token.lexeme front.utf8ByteSize c (tail ++ back.toList) = .ok (token, tail.length)

/-- Layout has been put directly before or directly after a token of a text. -/
inductive Loosens : String → String → Prop
  | before {front own back layout : String} (h : IsToken front own back)
    (hlayout : IsLayout layout.toList) :
    Loosens (front ++ own ++ back) (front ++ layout ++ own ++ back)
  | after {front own back layout : String} (h : IsToken front own back)
    (hlayout : IsLayout layout.toList) :
    Loosens (front ++ own ++ back) (front ++ own ++ layout ++ back)

/-- What stands before a token is scanned as before where what follows starts alike. -/
theorem IsToken.exists_scans {front own back : String} (h : IsToken front own back) :
    ∃ c tail token ts us, own.toList = c :: tail ∧ Lexed c tail back.toList token ∧
      Lexes back.toList us ∧ Scans (front ++ own ++ back).toList (ts ++ token :: us) ∧
      ∀ rest vs, Alike (c :: (tail ++ back.toList)) rest → Lexes rest vs →
        Scans (front.toList ++ rest) (ts ++ vs) := by
  obtain ⟨ps, token, c, tail, hscan, hmem, hown, hlexeme⟩ := h
  obtain ⟨front', c', tail', back', ts, us, hcut, hwidth, htoken, hback, hscans, hbefore⟩ :=
    exists_cut_of_mem hscan hmem
  rw [← Text.byteWidth_toList] at hwidth
  have htext : front' ++ c' :: (tail' ++ back') = front.toList ++ c :: (tail ++ back.toList) := by
    rw [← hcut]
    simp [hown]
  obtain ⟨rfl, hrest⟩ := Text.eq_of_byteWidth_eq htext hwidth
  obtain ⟨rfl, htail⟩ := List.cons.inj hrest
  rw [← htail, htoken.lexeme] at hlexeme
  have hlength : tail'.length = tail.length := congrArg Prod.snd (Except.ok.inj hlexeme)
  obtain ⟨rfl, rfl⟩ := List.append_inj htail hlength
  exact ⟨c', tail', token, ts, us, hown, htoken, hback, hscans, hbefore⟩

/-- A loosened text has the same tokens. -/
theorem Loosens.scans {text text' : String} (h : Loosens text text') :
    ∃ tokens, Scans text.toList tokens ∧ Scans text'.toList tokens := by
  cases h with
  | @before front own back layout h hlayout =>
    obtain ⟨c, tail, token, ts, us, hown, htoken, hback, hscans, hbefore⟩ := h.exists_scans
    refine ⟨ts ++ token :: us, hscans, ?_⟩
    have hloose := hbefore (layout.toList ++ c :: (tail ++ back.toList)) _
      (hlayout.alike_append _) (hlayout.lexes_append (.token htoken hback))
    simpa [hown] using hloose
  | @after front own back layout h hlayout =>
    obtain ⟨c, tail, token, ts, us, hown, htoken, hback, hscans, hbefore⟩ := h.exists_scans
    refine ⟨ts ++ token :: us, hscans, ?_⟩
    have halike := hlayout.alike_append back.toList
    have hloose := hbefore (c :: (tail ++ (layout.toList ++ back.toList))) _
      (halike.append_left (c :: tail))
      (.token (htoken.alike halike) (hlayout.lexes_append hback))
    simpa [hown] using hloose

/-- A text is loosened any number of times. All its tokens are found again, and it is read as the
same clause and as the same query as before, or is not read because of the same error. -/
theorem parse_of_loosens {text text' : String} {ps : List (Token × Nat)}
    (hscan : Token.scan text = .ok ps) (h : Relation.ReflTransGen Loosens text text') :
    (∃ ps', Token.scan text' = .ok ps' ∧ ps'.map Prod.fst = ps.map Prod.fst) ∧
    (Clause.parse text').mapError ParseError.unplaced =
      (Clause.parse text).mapError ParseError.unplaced ∧
    (Query.parse text').mapError ParseError.unplaced =
      (Query.parse text).mapError ParseError.unplaced := by
  have hscans : Scans text'.toList (ps.map Prod.fst) := by
    induction h with
    | refl => exact (lexes_of_scanFrom hscan).scans
    | tail h hlast ih =>
      obtain ⟨tokens, htokens, htokens'⟩ := hlast.scans
      rwa [ih.unique htokens]
  obtain ⟨ps', hscan', htokens⟩ := hscans.scan
  exact ⟨⟨ps', hscan', htokens⟩, Clause.parse_unplaced hscan hscan' htokens,
    Query.parse_unplaced hscan hscan' htokens⟩

/-- A tab before the sign of a number, and then a comment before the period at the end. -/
theorem parse_of_loosens_age :
    let text := "age(X,-3):-p(X)."
    let text' := "age(X,\t-3):-p(X)% why\n."
    Loosens text "age(X,\t-3):-p(X)." ∧ Loosens "age(X,\t-3):-p(X)." text' ∧
    (∃ ps ps', Token.scan text = .ok ps ∧ Token.scan text' = .ok ps' ∧
      ps'.map Prod.fst = ps.map Prod.fst) ∧
    (Clause.parse text').mapError ParseError.unplaced =
      (Clause.parse text).mapError ParseError.unplaced ∧
    (Query.parse text').mapError ParseError.unplaced =
      (Query.parse text).mapError ParseError.unplaced := by
  intro text text'
  have hscan : Token.scan text = .ok ((Token.scan text).toOption.getD []) :=
    eq_ok_getD (by decide +kernel) _
  have hnumber : IsToken "age(X," "-3" "):-p(X)." :=
    ⟨_, .number "-3", '-', ['3'], hscan, by decide +kernel, rfl, by decide +kernel⟩
  have hperiod : IsToken "age(X,\t-3):-p(X)" "." "" :=
    ⟨_, .period, '.', [], eq_ok_getD (by decide +kernel) [], by decide +kernel, rfl,
      by decide +kernel⟩
  have htab : IsLayout "\t".toList := .blank (by decide) .nil
  have hcomment : IsLayout "% why\n".toList := @IsLayout.comment " why".toList [] (by decide) .nil
  have hfirst : Loosens text "age(X,\t-3):-p(X)." := .before hnumber htab
  have hsecond : Loosens "age(X,\t-3):-p(X)." text' := .before hperiod hcomment
  obtain ⟨⟨ps', hscan', htokens⟩, hclause, hquery⟩ :=
    parse_of_loosens hscan (.tail (.single hfirst) hsecond)
  exact ⟨hfirst, hsecond, ⟨_, ps', hscan, hscan', htokens⟩, hclause, hquery⟩

end OntoLogic
