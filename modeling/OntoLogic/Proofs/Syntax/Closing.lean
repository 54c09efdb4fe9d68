-- SUMMARY: A text whose final periods are replaced by one: it has the same tokens, or one period more.
import OntoLogic.Proofs.Syntax.Layout

/-!
# Closing a text with a period

The periods at the end of a text are dropped and one is put there. A text that ends with its final
period stays as it is, and a comment at the end of a text swallows the period. Any other text has a
period as one more token at its end.
-/

namespace OntoLogic

variable {c d : Char} {cs front tail rest : List Char} {token : Token} {tokens : List Token}

/-- The text with one period at its end. -/
def closed (cs : List Char) : List Char :=
  cs.rdropWhile (· == '.') ++ ['.']

/-! ## Characters -/

theorem closed_append_cons (front : List Char) (hc : c ≠ '.') :
    closed (front ++ c :: rest) = front ++ c :: closed rest := by
  rw [closed, Text.rdropWhile_append_cons (by simpa using hc), closed, List.append_assoc,
    List.cons_append]

theorem closed_cons (hc : c ≠ '.') : closed (c :: rest) = c :: closed rest :=
  closed_append_cons [] hc

theorem closed_concat (hd : d ≠ '.') : closed (front ++ [d]) = front ++ [d] ++ ['.'] := by
  rw [closed, List.rdropWhile_concat_neg _ _ _ (by simpa using hd)]

theorem closed_concat_period (front : List Char) : closed (front ++ ['.']) = closed front := by
  rw [closed, List.rdropWhile_concat_pos _ _ _ (by simp), closed]

/-- What stands before other characters than periods is kept. -/
theorem closed_append (front : List Char) (h : ¬∀ d ∈ rest, d = '.') :
    closed (front ++ rest) = front ++ closed rest := by
  push Not at h
  obtain ⟨d, hd, hne⟩ := h
  obtain ⟨before, after, rfl⟩ := List.append_of_mem hd
  rw [closed_append_cons before hne, ← List.append_assoc, closed_append_cons _ hne,
    List.append_assoc]

theorem head?_closed (h : ¬∀ d ∈ rest, d = '.') : (closed rest).head? = rest.head? := by
  push Not at h
  obtain ⟨d, hd, hne⟩ := h
  obtain ⟨before, after, rfl⟩ := List.append_of_mem hd
  rw [closed_append_cons before hne]
  cases before <;> rfl

/-- A closed text begins as the text does, or with its period. -/
theorem eq_of_mem_head?_closed (h : d ∈ (closed cs).head?) : d ∈ cs.head? ∨ d = '.' := by
  obtain ⟨periods, hperiods⟩ := List.rdropWhile_prefix (· == '.') cs
  rw [closed] at h
  cases hfront : cs.rdropWhile (· == '.') with
  | nil =>
    rw [hfront] at h
    exact .inr (Option.some.inj h).symm
  | cons e front =>
    rw [hfront] at h hperiods
    exact .inl (hperiods ▸ h)

/-! ## Tokens -/

theorem not_delimited_eq : ¬Delimited ('=' :: rest) := by
  rintro (h | h | ⟨d, hd, rest', h⟩)
  · cases h
  · cases h
  · cases h
    exact absurd hd (by decide)

/-- A delimiter may stand after any token but a period, and so may the period at the end. -/
theorem Lexed.before_delimited (h : Lexed c tail [] token) (hne : token ≠ .period)
    (hrest : Delimited rest) : Lexed c tail rest token := by
  cases h with
  | symbol h => exact .symbol h
  | eq =>
    refine .eq fun d hd heq => ?_
    obtain ⟨rest, rfl⟩ := List.head?_eq_some_iff.mp hd
    exact not_delimited_eq (heq ▸ hrest)
  | period => exact absurd rfl hne
  | unsigned h => exact .unsigned h hrest.endsNumber
  | negative h => exact .negative h hrest.endsNumber
  | quotedAtom h => exact .quotedAtom h fun d hd => (hrest.head d hd).2.1
  | string h => exact .string h fun d hd => (hrest.head d hd).2.2
  | atom hc htail => exact .atom hc htail fun d hd => (hrest.head d hd).1
  | var hc htail => exact .var hc htail fun d hd => (hrest.head d hd).1

/-- A token is recognised by the next character, unless that is a period. -/
theorem Lexed.before_cons {ds ds' : List Char} (h : Lexed c tail (d :: ds) token) (hd : d ≠ '.') :
    Lexed c tail (d :: ds') token := by
  have hends {cs : List Char} (h : EndsNumber cs (d :: ds)) : EndsNumber cs (d :: ds') :=
    ⟨h.1, fun _ _ _ heq => absurd (List.cons.inj heq).1 hd⟩
  cases h with
  | symbol h => exact .symbol h
  | eq hrest => exact .eq hrest
  | period hrest => exact .period hrest
  | unsigned h hrest => exact .unsigned h (hends hrest)
  | negative h hrest => exact .negative h (hends hrest)
  | quotedAtom h hrest => exact .quotedAtom h hrest
  | string h hrest => exact .string h hrest
  | atom hc htail hrest => exact .atom hc htail hrest
  | var hc htail hrest => exact .var hc htail hrest

theorem Lexed.before_closed (h : Lexed c tail rest token) (hrest : ¬∀ d ∈ rest, d = '.') :
    Lexed c tail (closed rest) token := by
  cases rest with
  | nil => simp at hrest
  | cons d ds =>
    by_cases hd : d = '.'
    · subst hd
      have hds : ¬∀ d ∈ ds, d = '.' := by simpa using hrest
      refine h.alike (.inr ⟨'.', ds, closed ds, rfl, ?_, .inr (head?_closed hds).symm⟩)
      exact closed_append ['.'] hds
    · rw [closed_cons hd]
      exact h.before_cons hd

theorem lexes_period : Lexes ['.'] [.period] :=
  .token (.period gap_nil) .nil

theorem Lexed.eq_of_period (h : Lexed c tail rest .period) : c = '.' ∧ tail = [] ∧ Gap rest := by
  cases h with
  | symbol h => exact absurd h (by simp [symbols])
  | period hrest => exact ⟨rfl, rfl, hrest⟩

theorem Lexed.of_period (h : Lexed '.' tail rest token) :
    tail = [] ∧ token = .period ∧ Gap rest := by
  cases h with
  | symbol h => exact absurd h (by simp [symbols])
  | period hrest => exact ⟨rfl, rfl, hrest⟩
  | unsigned h =>
    obtain ⟨d, ds, heq, hd⟩ := h.exists_cons
    obtain ⟨rfl, -⟩ := List.cons.inj heq
    cases hd
  | atom hc => cases hc
  | var hc => cases hc

/-- Of texts of periods only the shortest have tokens. -/
theorem Lexes.of_periods (h : Lexes cs tokens) (hcs : ∀ d ∈ cs, d = '.') :
    cs = [] ∧ tokens = [] ∨ cs = ['.'] ∧ tokens = [.period] := by
  cases h with
  | nil => exact .inl ⟨rfl, rfl⟩
  | blank hc h =>
    obtain rfl := hcs _ List.mem_cons_self
    cases hc
  | comment => cases hcs _ List.mem_cons_self
  | @token c tail rest token tokens htoken h =>
    obtain ⟨rfl, hrest⟩ := List.forall_mem_cons.mp hcs
    obtain ⟨rfl, rfl, hgap⟩ := htoken.of_period
    cases rest with
    | nil =>
      cases h
      exact .inr ⟨rfl, rfl⟩
    | cons d ds =>
      obtain rfl := hrest _ List.mem_cons_self
      exact absurd (gap_cons.mp hgap) (by decide)

/-- A comment at the end of a text takes up the period. -/
theorem lexes_closed_comment {comment : List Char} (h : '\n' ∉ comment) :
    Lexes (closed ('%' :: comment)) [] := by
  have hcut : '\n' ∉ comment.rdropWhile (· == '.') ++ ['.'] := by
    simpa using fun hmem => h ((List.rdropWhile_prefix _ _).subset hmem)
  rw [closed_cons (by decide), closed, ← List.append_nil (_ ++ _)]
  exact .comment hcut nofun .nil

/-- The last token of a text, with the period that may follow it. -/
theorem Lexed.lexes_closed (htoken : Lexed c tail rest token) (h : Lexes rest tokens)
    (hrest : ∀ d ∈ rest, d = '.') :
    Lexes (closed (c :: (tail ++ rest))) (token :: tokens) ∨
      token ≠ .period ∧ tokens = [] ∧
        Lexes (closed (c :: (tail ++ rest))) (token :: tokens ++ [.period]) := by
  by_cases hne : token = .period
  · subst hne
    obtain ⟨rfl, rfl, hgap⟩ := htoken.eq_of_period
    obtain ⟨rfl, rfl⟩ | ⟨rfl, rfl⟩ := h.of_periods hrest
    · exact .inl lexes_period
    · exact absurd (gap_cons.mp hgap) (by decide)
  · obtain ⟨front, d, hfront, -, hperiod⟩ := htoken.exists_append
    have hd : d ≠ '.' := fun hd => hne (hperiod.mp hd)
    have hclosed : closed (c :: tail) = c :: (tail ++ ['.']) := by
      rw [hfront, closed_concat hd, ← hfront, List.cons_append]
    obtain ⟨rfl, rfl⟩ | ⟨rfl, rfl⟩ := h.of_periods hrest
    · rw [List.append_nil, hclosed]
      exact .inr ⟨hne, rfl, .token (htoken.before_delimited hne (.inr (.inl rfl))) lexes_period⟩
    · rw [← List.cons_append, closed_concat_period, hclosed]
      exact .inl (.token htoken h)

/-- A closed text has the same tokens, or a period more when its last token is none. -/
theorem Lexes.lexes_closed (h : Lexes cs tokens)
    (hlast : ∀ d ∈ cs.getLast?, Text.isBlank d = false) :
    Lexes (closed cs) tokens ∨
      (cs ≠ [] → ∃ token ∈ tokens.getLast?, token ≠ .period) ∧
        Lexes (closed cs) (tokens ++ [.period]) := by
  have hends {c : Char} (front : List Char) {rest : List Char} (hne : rest ≠ [])
      (hlast : ∀ d ∈ (c :: (front ++ rest)).getLast?, Text.isBlank d = false) :
      ∀ d ∈ rest.getLast?, Text.isBlank d = false := by
    rw [← List.cons_append, List.getLast?_append_of_ne_nil _ hne] at hlast
    exact hlast
  induction h with
  | nil => exact .inr ⟨nofun, lexes_period⟩
  | @blank c rest tokens hc h ih =>
    have hc' : c ≠ '.' := by
      rintro rfl
      cases hc
    have hne : rest ≠ [] := by
      rintro rfl
      exact absurd (hlast c rfl) (by simp [hc])
    rw [closed_cons hc']
    exact (ih (hends [] hne hlast)).imp (.blank hc)
      fun ⟨htokens, hrest⟩ => ⟨fun _ => htokens hne, .blank hc hrest⟩
  | @comment comment rest tokens hcomment hrest h ih =>
    cases rest with
    | nil =>
      cases h
      rw [List.append_nil]
      exact .inl (lexes_closed_comment hcomment)
    | cons d rest =>
      have hne : d :: rest ≠ [] := List.cons_ne_nil _ _
      obtain rfl := hrest d rfl
      have hclosed : closed ('%' :: (comment ++ '\n' :: rest)) =
          '%' :: (comment ++ closed ('\n' :: rest)) := by
        rw [closed_cons (by decide), closed_append_cons _ (by decide), closed_cons (by decide)]
      have hhead : ∀ d ∈ (closed ('\n' :: rest)).head?, d = '\n' := by
        rw [closed_cons (by decide)]
        simp
      rw [hclosed]
      exact (ih (hends _ hne hlast)).imp (.comment hcomment hhead)
        fun ⟨htokens, hrest⟩ => ⟨fun _ => htokens hne, .comment hcomment hhead hrest⟩
  | @token c tail rest token tokens htoken h ih =>
    by_cases hperiods : ∀ d ∈ rest, d = '.'
    · obtain hsame | ⟨hne, rfl, hmore⟩ := htoken.lexes_closed h hperiods
      · exact .inl hsame
      · exact .inr ⟨fun _ => ⟨token, rfl, hne⟩, hmore⟩
    · have hne : rest ≠ [] := by
        rintro rfl
        exact hperiods nofun
      have htoken' := htoken.before_closed hperiods
      rw [← List.cons_append, closed_append _ hperiods, List.cons_append]
      refine (ih (hends _ hne hlast)).imp (.token htoken') fun ⟨htokens, hrest⟩ => ?_
      obtain ⟨last, hlast, hperiod⟩ := htokens hne
      refine ⟨fun _ => ⟨last, ?_, hperiod⟩, .token htoken' hrest⟩
      rw [List.getLast?_cons, Option.mem_def.mp hlast]
      rfl

end OntoLogic
