-- SUMMARY: How clauses and queries end, and which texts are taken for a kind that they are not.
import OntoLogic.Proofs.Syntax.Layout
import OntoLogic.Syntax.Kind

/-!
# The ends of clauses and queries

The last token of a clause is its period. A query may have one too, so a fact can be read as a query
and a query that is a single call with a period can be read as a fact. The kind of a text is told by
its last character, which is the period unless comments follow the last token.
-/

namespace OntoLogic

open Grammar

/-! ## Tokens -/

namespace Token

theorem getLast?_numberFrom (n : Nat) (tokens : List Token) :
    (numberFrom n tokens).getLast? = some .period ↔ tokens.getLast? = some .period := by
  rw [List.getLast?_eq_getElem?, List.getLast?_eq_getElem?, length_numberFrom,
    getElem?_numberFrom]
  constructor
  · intro h
    obtain ⟨token, htoken, heq⟩ := Option.map_eq_some_iff.mp h
    split at heq
    · cases heq
    · rw [htoken, heq]
  · intro h
    simp [h]

end Token

/-- No term ends with a period. -/
theorem Grammar.TermTree.getLast?_tokens (t : TermTree) : t.tokens.getLast? ≠ some .period := by
  have hclosed (token : Token) (ts : List Token) (h : token ≠ .period) :
      (ts ++ [token]).getLast? ≠ some .period := by simpa using h
  cases t with
  | atom | var | number | string | nil => exact hclosed _ [] nofun
  | compound name first rest =>
    simpa using hclosed .rightParen (.atom name :: .leftParen :: commas tokens first rest) nofun
  | list first rest =>
    simpa using hclosed .rightBracket (.leftBracket :: commas tokens first rest) nofun
  | listTail first rest tail =>
    simpa using hclosed .rightBracket
      (.leftBracket :: commas tokens first rest ++ .bar :: tail.tokens) nofun
  | paren inner => simpa using hclosed .rightParen (.leftParen :: inner.tokens) nofun

/-! ## Derivations -/

variable {tokens : List Token} {c : Clause} {q : Query} {t : Term}

theorem Clause.Derived.getLast? (h : c.Derived tokens) : tokens.getLast? = some .period := by
  obtain ⟨tree, rfl, -⟩ := h
  cases tree with
  | fact head => exact List.getLast?_eq_some_iff.mpr ⟨head.tokens, rfl⟩
  | rule head first rest =>
    exact List.getLast?_eq_some_iff.mpr
      ⟨head.tokens ++ .neck :: commas GoalTree.tokens first rest, by simp [ClauseTree.tokens]⟩

/-- A fact is a query as well. -/
theorem Clause.Derived.query (h : c.Derived tokens) (hbody : c.body = []) :
    Query.Derived tokens ⟨[.call c.head]⟩ := by
  obtain ⟨tree, rfl, rfl, hcallable, -, hlevels⟩ := h
  cases tree with
  | rule head first rest => simp [ClauseTree.clause] at hbody
  | fact head =>
    refine ⟨⟨.call head, [], true⟩, ?_, rfl, ?_, ?_⟩
    · simp [QueryTree.tokens, ClauseTree.tokens, commas]
    · simpa [ClauseTree.clause, Goal.isCallable] using hcallable
    · simpa [QueryTree.levels, highest, GoalTree.levels, ClauseTree.levels] using hlevels

/-- A query of one call with a period is a fact. -/
theorem Query.Derived.fact (h : q.Derived tokens) (hcall : q.goals = [.call t])
    (hperiod : tokens.getLast? = some .period) : Clause.Derived tokens ⟨t, []⟩ := by
  obtain ⟨⟨first, rest, period⟩, rfl, rfl, hcallable, hlevels⟩ := h
  obtain ⟨hfirst, hrest⟩ := List.cons.inj hcall
  obtain rfl : rest = [] := List.map_eq_nil_iff.mp hrest
  cases first with
  | not | unify | notUnify => cases hfirst
  | call tree =>
    cases hfirst
    cases period with
    | false => exact absurd (by simpa [QueryTree.tokens, commas] using hperiod) tree.getLast?_tokens
    | true =>
      refine ⟨.fact tree, ?_, rfl, ?_, by simp, ?_⟩
      · simp [QueryTree.tokens, ClauseTree.tokens, commas]
      · simpa [QueryTree.query, GoalTree.goal, Goal.isCallable] using hcallable
      · simpa [QueryTree.levels, highest, GoalTree.levels, ClauseTree.levels] using hlevels

/-! ## Texts -/

theorem Scans.unique {cs : List Char} {tokens' : List Token} (h : Scans cs tokens)
    (h' : Scans cs tokens') : tokens = tokens' := by
  obtain ⟨ps, hps, rfl⟩ := h 0
  obtain ⟨ps', hps', rfl⟩ := h' 0
  rw [hps] at hps'
  cases hps'
  rfl

theorem scans_of_scan {text : String} (h : (Token.scan text).map (List.map Prod.fst) = .ok tokens) :
    Scans text.toList tokens := by
  obtain ⟨ps, hscan, rfl⟩ := map_eq_ok.mp h
  exact (lexes_of_scanFrom hscan).scans

theorem exists_scan_iff {text : String} (P : List Token → Prop) :
    (∃ ps, Token.scan text = .ok ps ∧ P (ps.map Prod.fst)) ↔
      ∃ tokens, Scans text.toList tokens ∧ P tokens := by
  constructor
  · rintro ⟨ps, hps, h⟩
    exact ⟨_, (lexes_of_scanFrom hps).scans, h⟩
  · rintro ⟨tokens, hscans, h⟩
    obtain ⟨ps, hps, rfl⟩ := hscans.scan
    exact ⟨ps, hps, h⟩

variable {text text' core : String}

theorem Clause.parse_iff_scans : Clause.parse text = .ok c ↔
    ∃ tokens, Scans text.toList tokens ∧ c.Derived (Token.numberFrom 0 tokens) :=
  parse_iff.trans (exists_scan_iff fun tokens => c.Derived (Token.numberFrom 0 tokens))

theorem Query.parse_iff_scans : Query.parse text = .ok q ↔
    ∃ tokens, Scans text.toList tokens ∧ q.Derived (Token.numberFrom 0 tokens) :=
  parse_iff.trans (exists_scan_iff fun tokens => q.Derived (Token.numberFrom 0 tokens))

/-- Texts with the same tokens are read as the same clause. -/
theorem Clause.parse_congr (h : Scans text.toList tokens) (h' : Scans text'.toList tokens) :
    Clause.parse text = .ok c ↔ Clause.parse text' = .ok c := by
  have hderived {s : String} (hs : Scans s.toList tokens) :
      Clause.parse s = .ok c ↔ c.Derived (Token.numberFrom 0 tokens) := by
    rw [parse_iff_scans]
    constructor
    · rintro ⟨tokens', hs', hc⟩
      rwa [hs.unique hs']
    · exact fun hc => ⟨tokens, hs, hc⟩
  exact (hderived h).trans (hderived h').symm

theorem isWellFormed_iff : isWellFormed text = true ↔
    (∃ c, Clause.parse text = .ok c) ∨ ∃ q, Query.parse text = .ok q := by
  rw [isWellFormed, Bool.or_eq_true_iff, isOk_iff, isOk_iff]

/-- What can be read has a token. -/
theorem exists_scans_of_isWellFormed (h : isWellFormed text = true) :
    ∃ tokens, Scans text.toList tokens ∧ tokens ≠ [] := by
  obtain ⟨c, hclause⟩ | ⟨q, hquery⟩ := isWellFormed_iff.mp h
  · obtain ⟨tokens, hscans, hc⟩ := Clause.parse_iff_scans.mp hclause
    refine ⟨tokens, hscans, ?_⟩
    rintro rfl
    exact c.not_derived_nil hc
  · obtain ⟨tokens, hscans, hq⟩ := Query.parse_iff_scans.mp hquery
    refine ⟨tokens, hscans, ?_⟩
    rintro rfl
    exact q.not_derived_nil hq

/-- A text is `core` with comments after it, apart from blanks at its ends. The comments change none
of the tokens. -/
def Commented (core text : String) : Prop :=
  ∃ tokens comments, Scans core.toList tokens ∧ Scans text.toList tokens ∧
    (Text.trim text).toList = core.toList ++ comments ∧ Scans comments [] ∧ '%' ∈ comments

/-- A text ends like its last token, unless comments stand after that. -/
theorem Scans.ending (h : Scans text.toList tokens) (hne : tokens ≠ []) :
    Scans (Text.trim text).toList tokens ∧
      ∃ core, Text.trim core = core ∧ Scans core.toList tokens ∧
        (core.toList.getLast? = some '.' ↔ tokens.getLast? = some .period) ∧
        (core = Text.trim text ∨ Commented core text) := by
  obtain ⟨core, layout, htrim, hlayout, hcomments, hcore, hperiod, hother⟩ := h.exists_core hne
  have hscans : Scans core tokens := by simpa using hother [] .nil
  refine ⟨htrim ▸ hother layout hlayout, String.ofList core, ?_⟩
  simp only [Text.trim, String.toList_ofList, hcore, true_and]
  refine ⟨hscans, hperiod, ?_⟩
  obtain rfl | hpercent := hcomments
  · rw [List.append_nil] at htrim
    exact .inl (by rw [← htrim, Text.trim, String.toList_ofList])
  · refine .inr ⟨tokens, layout, ?_, h, ?_, hlayout, hpercent⟩
    · rw [String.toList_ofList]
      exact hscans
    · rw [String.toList_ofList]
      exact htrim

/-- The blanks at the ends of a text do not matter to what it says. -/
theorem Clause.parse_trim : Clause.parse (Text.trim text) = .ok c ↔ Clause.parse text = .ok c := by
  have hne {tokens : List Token} (h : c.Derived (Token.numberFrom 0 tokens)) : tokens ≠ [] := by
    rintro rfl
    exact c.not_derived_nil h
  constructor
  · intro h
    obtain ⟨tokens, hscans, hderived⟩ := parse_iff_scans.mp h
    exact parse_iff_scans.mpr ⟨tokens, hscans.of_trim (hne hderived), hderived⟩
  · intro h
    obtain ⟨tokens, hscans, hderived⟩ := parse_iff_scans.mp h
    exact parse_iff_scans.mpr ⟨tokens, (hscans.ending (hne hderived)).1, hderived⟩

/-- A clause is not spelled by blanks. -/
theorem Clause.trim_ne_empty (h : Clause.parse text = .ok c) : Text.trim text ≠ "" := by
  intro hempty
  have hnone : Clause.parse "" = .error .empty := by decide
  rw [← Clause.parse_trim, hempty, hnone] at h
  cases h

/-- Where a clause does not end with a period, comments stand after the one that it has. -/
theorem Clause.exists_commented (h : Clause.parse text = .ok c)
    (hlast : (Text.trim text).toList.getLast? ≠ some '.') :
    ∃ core, Text.trim core = core ∧ Commented core text ∧ Clause.parse core = .ok c ∧
      core.toList.getLast? = some '.' := by
  obtain ⟨tokens, hscans, hderived⟩ := parse_iff_scans.mp h
  have hne : tokens ≠ [] := by
    rintro rfl
    exact c.not_derived_nil hderived
  obtain ⟨-, core, htrim, hcore, hperiod, hends⟩ := hscans.ending hne
  have hcoreLast : core.toList.getLast? = some '.' :=
    hperiod.mpr ((Token.getLast?_numberFrom 0 _).mp hderived.getLast?)
  obtain rfl | hcommented := hends
  · exact absurd hcoreLast hlast
  · exact ⟨core, htrim, hcommented, (parse_congr hcore hscans).mpr h, hcoreLast⟩

/-! ## Kinds -/

theorem Clause.kind_eq_fact : c.kind = .fact ↔ c.body = [] := by
  cases h : c.body <;> simp [kind, h]

theorem Clause.kind_ne_query (c : Clause) : c.kind ≠ .query := by
  cases h : c.body <;> simp [kind, h]

namespace ClauseKind

/-- A text is a query when it does not end with a period. -/
theorem ofText_eq_query (text : String) :
    ofText text = .query ↔ (Text.trim text).toList.getLast? ≠ some '.' := by
  unfold ofText
  dsimp only
  split
  · next h => simpa using h
  · next h =>
    have hlast : (Text.trim text).toList.getLast? = some '.' := by simpa using h
    refine iff_of_false ?_ (not_not_intro hlast)
    split
    · next c _ => exact c.kind_ne_query
    · split <;> nofun

/-- A clause that ends with a period is a fact or a rule by its body. -/
theorem ofText_of_parse (hlast : (Text.trim text).toList.getLast? = some '.')
    (h : Clause.parse (Text.trim text) = .ok c) : ofText text = c.kind := by
  simp [ofText, hlast, h]

/-- A text can be read as what a kind says, apart from texts of another kind that are taken for this
one: a rule with comments after it for a query, and for a fact or a rule a text that is no clause
but a query, and one that is not one call or that has comments after it. -/
structure BorneOut (kind : ClauseKind) (text : String) : Prop where
  query : kind = .query → (∃ q, Query.parse text = .ok q) ∨
    ∃ c core, Clause.parse text = .ok c ∧ c.kind = .rule ∧ Commented core text
  assertion : kind ≠ .query → (∃ c, Clause.parse text = .ok c ∧ c.kind = kind) ∨
    (∀ c, Clause.parse text ≠ .ok c) ∧
      ∃ q, Query.parse text = .ok q ∧ ((∀ t, q.goals ≠ [.call t]) ∨ ∃ core, Commented core text)

/-- What can be read is what its last character says, with these exceptions. -/
theorem borneOut_ofText (h : isWellFormed text = true) : (ofText text).BorneOut text := by
  obtain ⟨tokens, hscans, hne⟩ := exists_scans_of_isWellFormed h
  obtain ⟨htrim, core, -, -, hperiod, hends⟩ := hscans.ending hne
  by_cases hlast : (Text.trim text).toList.getLast? = some '.'
  · refine ⟨fun hquery => absurd hlast ((ofText_eq_query text).mp hquery), fun _ => ?_⟩
    by_cases hclause : ∃ c, Clause.parse text = .ok c
    · obtain ⟨c, hc⟩ := hclause
      have hparse := (Clause.parse_congr htrim hscans).mpr hc
      exact .inl ⟨c, hc, (ofText_of_parse hlast hparse).symm⟩
    · obtain ⟨q, hq⟩ := (isWellFormed_iff.mp h).resolve_left hclause
      refine .inr ⟨not_exists.mp hclause, q, hq, ?_⟩
      obtain rfl | hcommented := hends
      · left
        intro t hcall
        obtain ⟨tokens', hscans', hderived⟩ := Query.parse_iff_scans.mp hq
        obtain rfl := hscans.unique hscans'
        have hfact := hderived.fact hcall
          ((Token.getLast?_numberFrom 0 _).mpr (hperiod.mp hlast))
        exact hclause ⟨_, Clause.parse_iff_scans.mpr ⟨tokens, hscans, hfact⟩⟩
      · exact .inr ⟨core, hcommented⟩
  · have hkind := (ofText_eq_query text).mpr hlast
    refine ⟨fun _ => ?_, fun hne => absurd hkind hne⟩
    by_cases hquery : ∃ q, Query.parse text = .ok q
    · exact .inl hquery
    · obtain ⟨c, hc⟩ := (isWellFormed_iff.mp h).resolve_right hquery
      obtain ⟨tokens', hscans', hderived⟩ := Clause.parse_iff_scans.mp hc
      obtain rfl := hscans.unique hscans'
      refine .inr ⟨c, core, hc, ?_, ?_⟩
      · cases hkind : c.kind with
        | rule => rfl
        | query => exact absurd hkind c.kind_ne_query
        | fact =>
          have hq := hderived.query (Clause.kind_eq_fact.mp hkind)
          exact absurd ⟨_, Query.parse_iff_scans.mpr ⟨tokens, hscans, hq⟩⟩ hquery
      · obtain rfl | hcommented := hends
        · have hend := (Token.getLast?_numberFrom 0 _).mp hderived.getLast?
          exact absurd (hperiod.mpr hend) hlast
        · exact hcommented

end ClauseKind

end OntoLogic
