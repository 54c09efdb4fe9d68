-- SUMMARY: Which texts a session refuses to take for a query.
import OntoLogic.Engine.Memory
import OntoLogic.Generation.Script
import OntoLogic.Proofs.Syntax.Neck
import OntoLogic.Session.Query

/-!
# Rules that are put as queries

A query is refused when it is a rule, with its period or without. The text is closed with a period
for this and read as a clause; when that fails, a look at its characters decides. So no rule is put
to the engine, but a query may be refused whose characters are misread: one with a comment, or with
a backslash before a quote.
-/

namespace OntoLogic

/-- A query is refused because its text is not one. -/
def QueryResult.IsRefused (r : QueryResult) : Prop :=
  ∃ failure, r.verdict.failure = some failure ∧ failure.kind = .notAQuery

namespace Session

variable {σ γ : Type} [Engine σ] [GenerationService γ] {s : Session σ} {text : String}
  {allowFallback : Bool} {env : Environment (Option γ)} {c : Clause}

/-! ## Closed texts -/

theorem withoutPeriods_append (text : String) :
    withoutPeriods text ++ "." = .ofList (closed text.toList) := by
  apply String.toList_injective
  simp [withoutPeriods, closed, List.rdropWhile]

/-- Closing a trimmed text leaves it trimmed. -/
theorem trim_closed (htrim : Text.trim text = text) :
    Text.trim (.ofList (closed text.toList)) = .ofList (closed text.toList) := by
  have hhead : ∀ d ∈ (closed text.toList).head?, Text.isBlank d = false := by
    intro d hd
    obtain hd | rfl := eq_of_mem_head?_closed hd
    · exact Text.head?_trim text d (by rwa [htrim])
    · decide
  have hlast : ∀ d ∈ (closed text.toList).getLast?, Text.isBlank d = false := by
    simp only [closed, List.getLast?_concat, Option.mem_some_iff]
    rintro _ rfl
    decide
  rw [Text.trim, String.toList_ofList, Text.trimChars_eq_self hhead hlast]

/-- A trimmed text is a rule when it is one after it has been closed, or when it cannot be read then
and seems to have a neck. -/
theorem isRuleText_iff (htrim : Text.trim text = text) : isRuleText text = true ↔
    (∃ c, Clause.parse (.ofList (closed text.toList)) = .ok c ∧ c.body ≠ []) ∨
      (∀ c, Clause.parse (.ofList (closed text.toList)) ≠ .ok c) ∧
        ClauseKind.hasNeck text = true := by
  have hneck : ClauseKind.hasNeck (.ofList (closed text.toList)) = ClauseKind.hasNeck text := by
    rw [ClauseKind.hasNeck, String.toList_ofList, hasNeckFrom_closed, ClauseKind.hasNeck]
  have hlast : (closed text.toList).getLast? = some '.' := List.getLast?_concat
  rw [isRuleText, withoutPeriods_append, ClauseKind.ofText, trim_closed htrim, hneck,
    String.toList_ofList, hlast]
  cases hparse : Clause.parse (.ofList (closed text.toList)) with
  | ok c => cases hbody : c.body <;> simp [Clause.kind, hbody]
  | error e => cases ClauseKind.hasNeck text <;> simp

/-- In a text with plain quotes the look at its characters finds a neck exactly if there is one. -/
theorem hasNeck_iff {tokens : List Token} (hscans : Scans text.toList tokens)
    (hplain : isPlainlyQuoted none text.toList = true) :
    ClauseKind.hasNeck text = true ↔ .neck ∈ tokens :=
  (scans_iff_lexes.mp hscans).hasNeckFrom_iff hplain nofun

/-- A query is no clause with a body after it has been closed. -/
theorem isRuleText_iff_of_query {q : Query} (htrim : Text.trim text = text)
    (hq : Query.parse text = .ok q) : isRuleText text = true ↔
      ClauseKind.hasNeck text = true ∧ ∀ c, Clause.parse (withoutPeriods text ++ ".") ≠ .ok c := by
  have hlast := Text.getLast?_trim text
  rw [htrim] at hlast
  obtain ⟨tokens, hscans, hderived⟩ := Query.parse_iff_scans.mp hq
  have hnone : .neck ∉ tokens := fun h =>
    hderived.neck_not_mem ((Token.neck_mem_numberFrom 0).mpr h)
  rw [isRuleText_iff htrim, withoutPeriods_append, and_comm]
  refine or_iff_right ?_
  rintro ⟨c, hc, hbody⟩
  exact hnone ((Clause.body_of_closed hscans hlast hc).mp hbody)

/-- A clause with a body is a rule with its period and without, also when what stands at the place
of the period are comments and the neck is found. -/
theorem isRuleText_of_clause (htrim : Text.trim text = text) (hbody : c.body ≠ [])
    (hclause : Clause.parse text = .ok c ∨ Clause.parse (text ++ ".") = .ok c ∨
      c.LacksPeriod text ∧
        (ClauseKind.hasNeck text = true ∨ isPlainlyQuoted none text.toList = true)) :
    isRuleText text = true := by
  have hlast := Text.getLast?_trim text
  rw [htrim] at hlast
  rw [isRuleText_iff htrim]
  obtain hparse | hparse | ⟨⟨tokens, hscans, hderived⟩, hlooks⟩ := hclause
  · exact .inl ⟨c, Clause.parse_closed hparse hlast, hbody⟩
  · have hblank : Text.isBlank '.' = false := by decide
    have hclosed := Clause.parse_closed hparse (by simp [hblank])
    rw [String.toList_append] at hclosed
    exact .inl ⟨c, closed_concat_period text.toList ▸ hclosed, hbody⟩
  · have hmem : .neck ∈ tokens := by
      have hneck := (Token.neck_mem_numberFrom 0).mp (hderived.neck_mem.mpr hbody)
      simpa using hneck
    by_cases hread : ∃ c, Clause.parse (.ofList (closed text.toList)) = .ok c
    · obtain ⟨c', hc'⟩ := hread
      exact .inl ⟨c', hc', (Clause.body_of_closed hscans hlast hc').mpr hmem⟩
    · refine .inr ⟨not_exists.mp hread, ?_⟩
      exact hlooks.elim (fun h => h) fun hplain => (hasNeck_iff hscans hplain).mpr hmem

/-! ## Refused queries -/

theorem isRefused_failed {query : Option String} {e : SessionError} :
    (QueryResult.failed query e).IsRefused ↔ e.kind = .notAQuery := by
  simp [QueryResult.IsRefused, QueryResult.failed, Verdict.failure, SessionError.failure]

/-- When the generation service has no answer either, there is no solution. -/
theorem kind_of_fallback {failure : Failure}
    (h : (s.fallback text env).1.failure = some failure) : failure.kind = .noSolution := by
  unfold Session.fallback at h
  dsimp only at h
  split at h
  · cases h
    rfl
  · cases h
    rfl
  · split at h
    · cases h
      rfl
    · cases h

theorem query_of_isRuleText (hne : Text.trim text ≠ "") (h : isRuleText (Text.trim text) = true) :
    s.query text allowFallback env =
      (.failed (Text.trim text) (.notAQuery (Text.trim text)), s, env) := by
  simp [query, hne, h]

/-- Only a text that is taken for a rule is refused. -/
theorem isRefused_iff (hne : Text.trim text ≠ "") :
    (s.query text allowFallback env).1.IsRefused ↔ isRuleText (Text.trim text) = true := by
  cases h : isRuleText (Text.trim text) with
  | true => simp [query_of_isRuleText hne h, isRefused_failed, SessionError.kind]
  | false =>
    refine iff_of_false ?_ nofun
    simp only [query, String.isEmpty_iff, hne, h, if_false, Bool.false_eq_true]
    split
    · simp [isRefused_failed, SessionError.kind]
    · next e _ _ _ => cases e <;> simp [isRefused_failed, SessionError.kind]
    · split
      · simp [QueryResult.IsRefused, Verdict.failure]
      split
      · rintro ⟨failure, hfailure, hkind⟩
        rw [kind_of_fallback hfailure] at hkind
        cases hkind
      · simp [isRefused_failed, SessionError.kind]

/-- What a session refuses to take for a query. A text that can be read as a query is refused
exactly when it is no clause after it has been closed and seems to have a neck, which it does not
without comments and without backslashes before closing quotes. A clause with a body is refused at
once, with its period or without, also where comments stand after the place of the missing period,
if the text seems to have the neck that it has. Then neither the engine nor the generation service
is asked. -/
theorem query_refuses_rules (s : Session σ) (text : String) (allowFallback : Bool)
    (env : Environment (Option γ)) :
    let trimmed := Text.trim text
    let plain := isPlainlyQuoted none trimmed.toList = true
    (∀ q, Query.parse trimmed = .ok q →
      ((s.query text allowFallback env).1.IsRefused ↔ ClauseKind.hasNeck trimmed = true ∧
        ∀ c, Clause.parse (withoutPeriods trimmed ++ ".") ≠ .ok c) ∧
      (plain → ¬(s.query text allowFallback env).1.IsRefused)) ∧
    ∀ c, c.body ≠ [] →
      (Clause.parse trimmed = .ok c ∨ Clause.parse (trimmed ++ ".") = .ok c ∨
        c.LacksPeriod trimmed ∧ (ClauseKind.hasNeck trimmed = true ∨ plain)) →
      s.query text allowFallback env = (.failed trimmed (.notAQuery trimmed), s, env) := by
  intro trimmed plain
  have htrim : Text.trim trimmed = trimmed := Text.trim_trim text
  refine ⟨fun q hq => ?_, fun c hbody hclause => ?_⟩
  · obtain ⟨tokens, hscans, hderived⟩ := Query.parse_iff_scans.mp hq
    have hne : trimmed ≠ "" := by
      rintro heq
      rw [heq] at hscans
      obtain rfl := hscans.unique .nil
      exact q.not_derived_nil hderived
    have hrefused : (s.query text allowFallback env).1.IsRefused ↔
        ClauseKind.hasNeck trimmed = true ∧
          ∀ c, Clause.parse (withoutPeriods trimmed ++ ".") ≠ .ok c :=
      (isRefused_iff hne).trans (isRuleText_iff_of_query htrim hq)
    refine ⟨hrefused, fun hplain hr => ?_⟩
    have hneck := (hasNeck_iff hscans hplain).mp (hrefused.mp hr).1
    exact hderived.neck_not_mem ((Token.neck_mem_numberFrom 0).mpr hneck)
  · have hrule : isRuleText trimmed = true := isRuleText_of_clause htrim hbody hclause
    refine query_of_isRuleText ?_ hrule
    rintro heq
    have hempty : isRuleText trimmed = false := by
      rw [show trimmed = "" from heq]
      decide
    exact absurd hrule (by simp [hempty])

/-- A query that mentions a neck in quotes, and a rule that lacks its period before a comment. -/
theorem query_refuses_rules_polly :
    let asked := " says(polly, 'a :- b'), bird(polly) "
    let rule := "flies(X) :- bird(X) % all birds"
    let s := start "s" ⟨[], 1, 0, none⟩ 8 none (MemoryEngine.new {}) (MemoryEngine.new {})
    let env : Environment (Option ScriptedGenerator) := ⟨none, 0, none, false, .placeholder⟩
    let c := (Clause.parse "flies(X) :- bird(X).").toOption.getD ⟨.atom "", []⟩
    (∃ q, Query.parse (Text.trim asked) = .ok q) ∧
    isPlainlyQuoted none (Text.trim asked).toList = true ∧
    ¬(s.query asked true env).1.IsRefused ∧
    c.body ≠ [] ∧ c.LacksPeriod (Text.trim rule) ∧
    ClauseKind.hasNeck (Text.trim rule) = true ∧
    s.query rule true env = (.failed (Text.trim rule) (.notAQuery (Text.trim rule)), s, env) := by
  intro asked rule s env c
  have hparse : ∃ q, Query.parse (Text.trim asked) = .ok q :=
    isOk_iff.mp (by decide +kernel)
  have hplain : isPlainlyQuoted none (Text.trim asked).toList = true := by decide +kernel
  have hbody : c.body ≠ [] := by decide +kernel
  have hclause : Clause.parse "flies(X) :- bird(X)." = .ok c := by rfl
  have hlacks : c.LacksPeriod (Text.trim rule) := by
    obtain ⟨tokens, hscans, hderived⟩ := Clause.parse_iff_scans.mp hclause
    let bare := ((Token.scan (Text.trim rule)).toOption.getD []).map Prod.fst
    have hbare : (Token.scan (Text.trim rule)).map (List.map Prod.fst) = .ok bare := by
      decide +kernel
    have hclosed : (Token.scan "flies(X) :- bird(X).").map (List.map Prod.fst) =
        .ok (bare ++ [.period]) := by
      decide +kernel
    rw [hscans.unique (scans_of_scan hclosed)] at hderived
    exact ⟨bare, scans_of_scan hbare, hderived⟩
  have hneck : ClauseKind.hasNeck (Text.trim rule) = true := by decide +kernel
  obtain ⟨q, hq⟩ := hparse
  have hrefused := (query_refuses_rules s asked true env).1 q hq
  exact ⟨⟨q, hq⟩, hplain, hrefused.2 hplain, hbody, hlacks, hneck,
    (query_refuses_rules s rule true env).2 c hbody (.inr (.inr ⟨hlacks, .inl hneck⟩))⟩

/-- A query whose quoted item has a quote after a backslash is taken for a rule, although the engine
has two solutions for it. -/
theorem query_refused_for_escaped_quote :
    let program := ["says(bob, 'it\\'s :- so').", "says(bob, nothing)."]
    let asked := "says(bob, 'it\\'s :- so'), says(bob, X)"
    let ontology : OntologyConfig := { relationships := ["says"] }
    let s : Session MemoryEngine :=
      let s := start "s" ⟨[], 1, 0, none⟩ 8 (some ontology) (.new {}) (.new {})
      (s.loadInitial program).toOption.getD s
    let env : Environment (Option ScriptedGenerator) := ⟨none, 0, none, false, .placeholder⟩
    Text.trim asked = asked ∧ (Query.parse asked).isOk = true ∧
    (s.engine.solve asked).toOption.map (·.solutions.length) = some 2 ∧
    (s.query asked false env).1.verdict.failure.map Failure.kind = some .notAQuery := by
  decide +kernel

end Session

end OntoLogic
