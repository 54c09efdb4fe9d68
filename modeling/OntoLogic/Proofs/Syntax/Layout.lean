-- SUMMARY: Blanks and comments between tokens; what stands after the last token of a text.
import OntoLogic.Proofs.Syntax.RoundTrip
import OntoLogic.Proofs.Text.Trim

/-!
# Layout

A text consists of tokens, blanks and comments. `Lexes` takes it apart in this way and carries what
follows each part, as a token is recognised by it. After the last token stands only layout, and any
other layout may stand there as well. So the blanks at the ends of a text make no difference, and a
trimmed text ends like its last token unless a comment follows it.
-/

namespace OntoLogic

variable {c d : Char} {cs layout layout' rest : List Char} {token : Token} {tokens : List Token}

/-! ## Texts with their layout -/

/-- A text is made of blanks, comments and the given tokens. A comment goes up to a line break or to
the end of the text. -/
inductive Lexes : List Char → List Token → Prop
  | nil : Lexes [] []
  | blank {c : Char} {rest : List Char} {tokens : List Token} (hc : Text.isBlank c = true)
    (h : Lexes rest tokens) : Lexes (c :: rest) tokens
  | comment {comment rest : List Char} {tokens : List Token} (hcomment : '\n' ∉ comment)
    (hrest : ∀ d ∈ rest.head?, d = '\n') (h : Lexes rest tokens) :
    Lexes ('%' :: (comment ++ rest)) tokens
  | token {c : Char} {tail rest : List Char} {token : Token} {tokens : List Token}
    (htoken : Lexed c tail rest token) (h : Lexes rest tokens) :
    Lexes (c :: (tail ++ rest)) (token :: tokens)

theorem Scans.scanFrom_comment {comment : List Char} (hcomment : '\n' ∉ comment)
    (hrest : ∀ d ∈ rest.head?, d = '\n') (offset : Nat) :
    Token.scanFrom 0 offset ('%' :: (comment ++ rest)) =
      Token.scanFrom 0 (offset + Text.byteWidth ('%' :: comment)) rest := by
  have hlength : ((comment ++ rest).takeWhile (· != '\n')).length = comment.length := by
    have hall : ∀ d ∈ comment, (d != '\n') = true := by
      intro d hd
      simpa using fun heq : d = '\n' => hcomment (heq ▸ hd)
    rw [List.takeWhile_append_of_pos hall, takeWhile_eq_nil_iff_head?.mpr, List.append_nil]
    intro d hd
    simpa using hrest d hd
  have hblank : Text.isBlank '%' = false := by decide
  simp [Token.scanFrom, hblank, hlength, scanFrom_append, Text.byteWidth, Nat.add_assoc]

theorem Lexes.scans (h : Lexes cs tokens) : Scans cs tokens := by
  induction h with
  | nil => exact .nil
  | blank hc h ih => exact ih.blank hc
  | comment hcomment hrest h ih =>
    intro offset
    rw [Scans.scanFrom_comment hcomment hrest]
    exact ih _
  | token htoken h ih => exact ih.cons _ htoken

theorem Scans.scanFrom_error {offset : Nat} {e : ParseError} (hblank : Text.isBlank c = false)
    (hcomment : c ≠ '%') (herror : Token.lexeme offset c rest = .error e) :
    Token.scanFrom 0 offset (c :: rest) = .error e := by
  simp [Token.scanFrom, hblank, hcomment, herror]

/-- A text is taken apart from its front as the scan does it: a blank, a comment or a token is taken
off, until no token is recognised. What is left is shorter each time. -/
@[elab_as_elim]
theorem scan_induct {motive : (offset : Nat) → List Char → Prop}
    (nil : ∀ offset, motive offset [])
    (blank : ∀ offset c rest, Text.isBlank c = true → motive (offset + c.utf8Size) rest →
      motive offset (c :: rest))
    (comment : ∀ offset comment rest, '\n' ∉ comment → (∀ d ∈ rest.head?, d = '\n') →
      motive (offset + Text.byteWidth ('%' :: comment)) rest →
      motive offset ('%' :: (comment ++ rest)))
    (token : ∀ offset c tail rest token, Lexed c tail rest token →
      motive (offset + Text.byteWidth (c :: tail)) rest → motive offset (c :: (tail ++ rest)))
    (error : ∀ offset c rest e, Text.isBlank c = false → c ≠ '%' →
      Token.lexeme offset c rest = .error e → motive offset (c :: rest))
    (offset : Nat) (cs : List Char) : motive offset cs := by
  have hshorter (c : Char) (front rest : List Char) :
      rest.length < (c :: (front ++ rest)).length := by
    simp only [List.length_cons, List.length_append]
    omega
  induction hn : cs.length using Nat.strong_induction_on generalizing cs offset with
  | _ n ih =>
  subst hn
  cases cs with
  | nil => exact nil offset
  | cons c cs =>
    cases hblank : Text.isBlank c with
    | true => exact blank _ _ _ hblank (ih _ (by simp) _ _ rfl)
    | false =>
      by_cases hcomment : c = '%'
      · subst hcomment
        obtain ⟨body, rest, rfl, -, hall, hrest⟩ := exists_takeWhile (· != '\n') cs
        refine comment _ _ _ (fun hmem => ?_) (fun d hd => ?_) (ih _ (hshorter _ _ _) _ _ rfl)
        · simpa using hall _ hmem
        · simpa using hrest d hd
      · cases hlexeme : Token.lexeme offset c cs with
        | error e => exact error _ _ _ _ hblank hcomment hlexeme
        | ok p =>
          obtain ⟨tail, rest, rfl, -, htoken⟩ := exists_lexed hlexeme
          exact token _ _ _ _ _ htoken (ih _ (hshorter _ _ _) _ _ rfl)

/-- What is scanned is taken apart. -/
theorem lexes_of_scanFrom {offset : Nat} {ps : List (Token × Nat)}
    (h : Token.scanFrom 0 offset cs = .ok ps) : Lexes cs (ps.map Prod.fst) := by
  induction offset, cs using scan_induct generalizing ps with
  | nil offset =>
    cases h
    exact .nil
  | blank offset c rest hblank ih =>
    rw [Scans.scanFrom_blank hblank] at h
    exact .blank hblank (ih h)
  | comment offset comment rest hcomment hrest ih =>
    rw [Scans.scanFrom_comment hcomment hrest] at h
    exact .comment hcomment hrest (ih h)
  | token offset c tail rest token htoken ih =>
    rw [Scans.scanFrom_token htoken] at h
    obtain ⟨ps', hps', rfl⟩ := map_eq_ok.mp h
    exact .token htoken (ih hps')
  | error offset c rest e hblank hcomment herror =>
    rw [Scans.scanFrom_error hblank hcomment herror] at h
    cases h

theorem scans_iff_lexes : Scans cs tokens ↔ Lexes cs tokens := by
  refine ⟨fun h => ?_, Lexes.scans⟩
  obtain ⟨ps, hps, rfl⟩ := h 0
  exact lexes_of_scanFrom hps

/-! ## Layout -/

/-- Layout begins with a blank or a comment. -/
theorem Lexes.gap (h : Lexes layout []) : Gap layout := by
  cases h with
  | nil => exact gap_nil
  | blank hc h => exact gap_cons.mpr (.inl hc)
  | comment hcomment hrest h => exact gap_cons.mpr (.inr rfl)

/-- Layout without a percent sign is blank. -/
theorem Lexes.isBlank (h : Lexes layout []) (hpercent : '%' ∉ layout) :
    ∀ c ∈ layout, Text.isBlank c = true := by
  induction layout with
  | nil => nofun
  | cons c rest ih =>
    cases h with
    | blank hc h => exact List.forall_mem_cons.mpr ⟨hc, ih h fun hmem => hpercent (.tail _ hmem)⟩
    | comment => exact absurd List.mem_cons_self hpercent

/-- Blanks may stand in front of a text. -/
theorem Lexes.blanks_append (h : Lexes cs tokens) {blanks : List Char}
    (hblanks : ∀ c ∈ blanks, Text.isBlank c = true) : Lexes (blanks ++ cs) tokens := by
  induction blanks with
  | nil => exact h
  | cons c blanks ih =>
    obtain ⟨hc, hrest⟩ := List.forall_mem_cons.mp hblanks
    exact .blank hc (ih hrest)

/-- Blanks may follow layout. A comment at its end goes on with them up to a line break. -/
theorem Lexes.append_blanks (h : Lexes layout []) {blanks : List Char}
    (hblanks : ∀ c ∈ blanks, Text.isBlank c = true) : Lexes (layout ++ blanks) [] := by
  have hlexes {bs : List Char} (hbs : ∀ c ∈ bs, Text.isBlank c = true) : Lexes bs [] := by
    simpa using Lexes.nil.blanks_append hbs
  generalize htokens : ([] : List Token) = tokens at h
  induction h with
  | nil => exact htokens ▸ hlexes hblanks
  | token => cases htokens
  | blank hc h ih => exact .blank hc (ih htokens)
  | @comment comment rest tokens hcomment hrest h ih =>
    subst htokens
    cases rest with
    | nil =>
      obtain ⟨more, after, rfl, -, hall, hafter⟩ := exists_takeWhile (· != '\n') blanks
      have hmore : '\n' ∉ comment ++ more := fun hmem =>
        (List.mem_append.mp hmem).elim hcomment fun hin => by simpa using hall _ hin
      have hextended := Lexes.comment hmore (fun d hd => by simpa using hafter d hd)
        (hlexes fun c hc => hblanks c (List.mem_append_right _ hc))
      simpa using hextended
    | cons d rest =>
      have hstart : ∀ e ∈ (d :: rest ++ blanks).head?, e = '\n' := hrest
      simpa using Lexes.comment hcomment hstart (ih rfl)

/-- A comment that is cut off is a comment, so layout may end anywhere. -/
theorem Lexes.of_append (h : Lexes (layout ++ rest) []) : Lexes layout [] := by
  generalize htext : layout ++ rest = text at h
  generalize htokens : ([] : List Token) = tokens at h
  induction h generalizing layout with
  | nil =>
    rw [(List.append_eq_nil_iff.mp htext).1]
    exact .nil
  | token => cases htokens
  | blank hc h ih =>
    cases htokens
    cases layout with
    | nil => exact .nil
    | cons d layout =>
      obtain ⟨rfl, htail⟩ := List.cons.inj htext
      exact .blank hc (ih htail rfl)
  | comment hcomment hrest h ih =>
    cases htokens
    cases layout with
    | nil => exact .nil
    | cons d layout =>
      obtain ⟨rfl, htail⟩ := List.cons.inj htext
      obtain ⟨more, rfl, rfl⟩ | ⟨more, rfl, rfl⟩ := List.append_eq_append_iff.mp htail
      · -- the text ends in the comment
        have hcut : Lexes ('%' :: (layout ++ [])) [] :=
          .comment (fun hmem => hcomment (List.mem_append_left _ hmem)) (by simp) .nil
        rwa [List.append_nil] at hcut
      · refine .comment hcomment (fun d hd => ?_) (ih rfl rfl)
        cases more with
        | nil => cases hd
        | cons e more => exact hrest d (by simpa using hd)

/-! ## The ends of texts -/

/-- Blanks at the front make no difference. -/
theorem Lexes.dropWhile_isBlank (h : Lexes cs tokens) :
    Lexes (cs.dropWhile Text.isBlank) tokens := by
  induction h with
  | nil => exact .nil
  | blank hc h ih => rwa [List.dropWhile_cons_of_pos hc]
  | comment hcomment hrest h ih =>
    rw [List.dropWhile_cons_of_neg (by decide)]
    exact .comment hcomment hrest h
  | token htoken h ih =>
    rw [List.dropWhile_cons_of_neg (by simp [htoken.head_ne.1])]
    exact .token htoken h

/-- Layout follows the last token of a text, and other layout may stand there. The last character
before it is a period when the last token is. -/
theorem Lexes.exists_append (h : Lexes cs tokens) (hne : tokens ≠ []) :
    ∃ front d layout, cs = front ++ d :: layout ∧ Lexes layout [] ∧ Text.isBlank d = false ∧
      (d = '.' ↔ tokens.getLast? = some .period) ∧
      ∀ layout', Lexes layout' [] → Lexes (front ++ d :: layout') tokens := by
  induction h with
  | nil => exact absurd rfl hne
  | blank hc h ih =>
    obtain ⟨front, d, layout, rfl, hlayout, hd, hperiod, hother⟩ := ih hne
    exact ⟨_ :: front, d, layout, rfl, hlayout, hd, hperiod,
      fun layout' hlayout' => .blank hc (hother layout' hlayout')⟩
  | @comment comment rest tokens hcomment hrest h ih =>
    obtain ⟨front, d, layout, rfl, hlayout, hd, hperiod, hother⟩ := ih hne
    refine ⟨'%' :: comment ++ front, d, layout, by simp, hlayout, hd, hperiod, ?_⟩
    intro layout' hlayout'
    have hhead : ∀ e ∈ (front ++ d :: layout').head?, e = '\n' := by
      cases front <;> simpa using hrest
    simpa using Lexes.comment hcomment hhead (hother layout' hlayout')
  | @token c tail rest token tokens htoken h ih =>
    by_cases htokens : tokens = []
    · subst htokens
      obtain ⟨front, d, hfront, hd, hperiod⟩ := htoken.exists_append
      have hchars (layout : List Char) : c :: (tail ++ layout) = front ++ d :: layout := by
        rw [← List.cons_append, hfront, List.append_assoc, List.singleton_append]
      refine ⟨front, d, rest, hchars rest, h, hd, by simpa using hperiod, ?_⟩
      intro layout' hlayout'
      rw [← hchars]
      exact .token (htoken.alike (.inl hlayout'.gap)) hlayout'
    · obtain ⟨front, d, layout, rfl, hlayout, hd, hperiod, hother⟩ := ih htokens
      have hlast : (token :: tokens).getLast? = tokens.getLast? := by
        cases tokens with
        | nil => exact absurd rfl htokens
        | cons => exact List.getLast?_cons_cons
      refine ⟨c :: tail ++ front, d, layout, by simp, hlayout, hd, by rwa [hlast], ?_⟩
      intro layout' hlayout'
      have halike : Alike (front ++ d :: layout) (front ++ d :: layout') := by
        cases front with
        | nil => exact .inr ⟨d, layout, layout', rfl, rfl, .inl hlayout'.gap⟩
        | cons e front =>
          refine .inr ⟨e, _, _, rfl, rfl, .inr ?_⟩
          cases front <;> rfl
      simpa using Lexes.token (htoken.alike halike) (hother layout' hlayout')

/-- The tokens of a trimmed text are those of the text. -/
theorem Scans.of_trim {text : String} (h : Scans (Text.trim text).toList tokens)
    (hne : tokens ≠ []) : Scans text.toList tokens := by
  obtain ⟨front, d, layout, htrim, hlayout, -, -, hother⟩ :=
    (scans_iff_lexes.mp h).exists_append hne
  let before := text.toList.takeWhile Text.isBlank
  let after := (text.toList.dropWhile Text.isBlank).rtakeWhile Text.isBlank
  have htext : text.toList = before ++ (front ++ d :: (layout ++ after)) := by
    calc text.toList
      _ = before ++ text.toList.dropWhile Text.isBlank := List.takeWhile_append_dropWhile.symm
      _ = before ++ ((Text.trim text).toList ++ after) := by
        rw [Text.trim, String.toList_ofList, Text.trimChars_eq, List.rdropWhile_append_rtakeWhile]
      _ = before ++ (front ++ d :: (layout ++ after)) := by simp [htrim]
  rw [htext]
  refine ((hother _ (hlayout.append_blanks fun c hc => ?_)).blanks_append fun c hc => ?_).scans
  · exact List.mem_rtakeWhile_imp hc
  · exact List.mem_takeWhile_imp hc

/-- A text, when it is trimmed, consists of what goes up to its last token, and comments, if any. -/
theorem Scans.exists_core {text : String} (h : Scans text.toList tokens) (hne : tokens ≠ []) :
    ∃ core layout, (Text.trim text).toList = core ++ layout ∧ Scans layout [] ∧
      (layout = [] ∨ '%' ∈ layout) ∧ Text.trimChars core = core ∧
      (core.getLast? = some '.' ↔ tokens.getLast? = some .period) ∧
      ∀ layout', Scans layout' [] → Scans (core ++ layout') tokens := by
  have hlexes := (scans_iff_lexes.mp h).dropWhile_isBlank
  obtain ⟨front, d, layout, hcs, hlayout, hd, hperiod, hother⟩ := hlexes.exists_append hne
  have hchars (layout : List Char) : front ++ [d] ++ layout = front ++ d :: layout := by simp
  have htrimmed : Lexes (layout.rdropWhile Text.isBlank) [] := by
    obtain ⟨blanks, hblanks⟩ := List.rdropWhile_prefix Text.isBlank (l := layout)
    rw [← hblanks] at hlayout
    exact hlayout.of_append
  refine ⟨front ++ [d], layout.rdropWhile Text.isBlank, ?_, htrimmed.scans, ?_, ?_,
    by simpa using hperiod, ?_⟩
  · rw [Text.trim, String.toList_ofList, Text.trimChars_eq, hcs, Text.rdropWhile_append_cons hd,
      hchars]
  · rw [or_iff_not_imp_right]
    intro hpercent
    rw [← List.rdropWhile_idempotent, List.rdropWhile_eq_nil_iff]
    exact htrimmed.isBlank hpercent
  · have hhead : ∀ e ∈ (front ++ [d]).head?, Text.isBlank e = false := by
      intro e he
      have hnot := List.head?_dropWhile_not Text.isBlank text.toList
      have hfirst : (front ++ d :: layout).head? = (front ++ [d]).head? := by
        cases front <;> rfl
      rw [hcs, hfirst, Option.mem_def.mp he] at hnot
      simpa using hnot
    exact Text.trimChars_eq_self hhead (by simpa using hd)
  · intro layout' hlayout'
    rw [hchars]
    exact (hother layout' (scans_iff_lexes.mp hlayout')).scans

end OntoLogic
