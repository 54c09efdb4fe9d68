-- SUMMARY: A clause that is described in JSON with terms for arguments is written as this clause.
import OntoLogic.Proofs.Json.Compact
import OntoLogic.Proofs.Syntax.Composition
import OntoLogic.Translation.Structured

/-!
# Described clauses

A description whose arguments are texts is read back from its JSON form, also with other text around
it. Where the predicates are legal names and each argument reads as a term, the clause text that is
put together from them has the kind that the description names and is read as the clause that it
describes: the head and the calls of the body, each with its arguments.
-/

namespace OntoLogic

/-! ## Objects in texts -/

/-- An object is found where no brace stands before or after it. -/
theorem extractObject_eq {raw : String} {before inside after : List Char}
    (h : raw.toList = before ++ '\x7b' :: (inside ++ '\x7d' :: after)) (hbefore : '\x7b' ∉ before)
    (hafter : '\x7d' ∉ after) :
    extractObject raw = some (String.ofList ('\x7b' :: (inside ++ ['\x7d']))) := by
  have hfront : raw.toList.dropWhile (· != '\x7b') = '\x7b' :: (inside ++ '\x7d' :: after) := by
    rw [h, List.dropWhile_append_of_pos]
    · simp
    · intro c hc
      simpa using fun heq : c = '\x7b' => hbefore (heq ▸ hc)
  have hback : ('\x7b' :: (inside ++ '\x7d' :: after)).reverse.dropWhile (· != '\x7d') =
      '\x7d' :: (inside.reverse ++ ['\x7b']) := by
    have hreverse : ('\x7b' :: (inside ++ '\x7d' :: after)).reverse =
        after.reverse ++ '\x7d' :: (inside.reverse ++ ['\x7b']) := by simp
    rw [hreverse, List.dropWhile_append_of_pos]
    · simp
    · intro c hc
      simpa using fun heq : c = '\x7d' => hafter (heq ▸ List.mem_reverse.mp hc)
  rw [extractObject, hfront, hback]
  simp

/-- A text that starts with an opening brace and ends with a closing one. -/
def Braced (json : String) : Prop :=
  ∃ inside, json.toList = '\x7b' :: (inside ++ ['\x7d'])

theorem braced_compact (fields : List (String × Json)) : Braced (Json.object fields).compact :=
  ⟨(Json.compactFields fields).toList, by simp [Json.compact_object]⟩

theorem braced_indented (fields : List (String × Json)) : Braced (Json.object fields).indented := by
  cases fields with
  | nil => exact ⟨[], rfl⟩
  | cons field fields =>
    refine ⟨(Json.indentedFields 1 (field :: fields)).toList ++ (Json.lineAt 0).toList, ?_⟩
    simp [Json.indented, Json.indentedAt_object]

/-- What stands around an object does not change it. -/
theorem Braced.extractObject {before json after : String} (h : Braced json)
    (hbefore : '\x7b' ∉ before.toList) (hafter : '\x7d' ∉ after.toList) :
    extractObject (before ++ json ++ after) = some json := by
  obtain ⟨inside, hjson⟩ := h
  have hchars : (before ++ json ++ after).toList =
      before.toList ++ '\x7b' :: (inside ++ '\x7d' :: after.toList) := by
    simp [String.toList_append, hjson]
  rw [extractObject_eq hchars hbefore hafter, ← hjson, String.ofList_toList]

theorem extractObject_compact (fields : List (String × Json)) :
    extractObject (Json.object fields).compact = some (Json.object fields).compact := by
  have hnone (brace : Char) : brace ∉ "".toList := by simp
  simpa using (braced_compact fields).extractObject (hnone _) (hnone _)

/-! ## The JSON form -/

/-- All arguments are texts. -/
def StructuredAtom.IsTextual (a : StructuredAtom) : Prop :=
  ∃ texts : List String, a.args = texts.map .string

theorem StructuredAtom.exists_source {a : StructuredAtom} (h : a.IsTextual) :
    ∃ source, a.toJson.ReadsCompact source ∧ ∀ levels, ofSource? (levels + 2) source = some a := by
  obtain ⟨predicate, args⟩ := a
  obtain ⟨texts, rfl⟩ := h
  refine ⟨.object [(some "predicate", .string (some predicate)), (some "args", .texts texts)],
    .object (.cons ⟨rfl, .string _⟩ (.cons ⟨rfl, Json.readsCompact_strings _⟩ .nil)), ?_⟩
  intro levels
  have hargs : (Json.Source.texts texts).toList? Json.Source.toJson? (levels + 1) =
      some (texts.map .string) := by
    have hitem (x : String) :
        Json.Source.toJson? levels (.string (some x)) = some (.string x) := by
      simp [Json.Source.toJson?]
    exact Json.mapM_map_eq_map hitem texts
  simp [ofSource?, Json.Source.toFields?, Json.Source.uniqueField?, Json.Source.toText?, hargs]

theorem StructuredAtom.exists_sources {atoms : List StructuredAtom}
    (h : ∀ a ∈ atoms, a.IsTextual) :
    ∃ sources, List.Forall₂ Json.ReadsCompact (atoms.map toJson) sources ∧
      ∀ levels, sources.mapM (ofSource? (levels + 2)) = some atoms := by
  induction atoms with
  | nil => exact ⟨[], .nil, fun _ => rfl⟩
  | cons a atoms ih =>
    obtain ⟨ha, hatoms⟩ := List.forall_mem_cons.mp h
    obtain ⟨source, hreads, hsource⟩ := StructuredAtom.exists_source ha
    obtain ⟨sources, hall, hsources⟩ := ih hatoms
    refine ⟨source :: sources, .cons hreads hall, fun levels => ?_⟩
    rw [List.mapM_cons, hsource, hsources]
    rfl

namespace StructuredClause

theorem kindOfName?_name (kind : ClauseKind) : kindOfName? kind.name = some kind := by
  cases kind <;> rfl

theorem exists_bodySource {body : Option (List StructuredAtom)}
    (h : ∀ a ∈ body.getD [], a.IsTextual) :
    ∃ source, (match body with
        | none => Json.null
        | some body => .array (body.map StructuredAtom.toJson)).ReadsCompact source ∧
      ∀ levels, source.toOption?
        (fun levels => Json.Source.toList? StructuredAtom.ofSource? levels) (levels + 3) =
          some body := by
  cases body with
  | none => exact ⟨.null, .null, fun _ => rfl⟩
  | some body =>
    obtain ⟨sources, hreads, hsources⟩ := StructuredAtom.exists_sources h
    refine ⟨.array sources, .array hreads, fun levels => ?_⟩
    simp [Json.Source.toOption?, Json.Source.toList?, hsources]

/-- A description with textual arguments is read back from its JSON form. -/
theorem read_compact {c : StructuredClause} (hhead : c.head.IsTextual)
    (hbody : ∀ a ∈ c.body.getD [], a.IsTextual) (messages : JsonMessages) :
    read c.toJson.compact messages = .ok c := by
  obtain ⟨head, hheadReads, hheadSource⟩ := StructuredAtom.exists_source hhead
  obtain ⟨body, hbodyReads, hbodySource⟩ := exists_bodySource hbody
  let source : Json.Source := .object
    [(some "type", .string (some c.kind.name)), (some "head", head), (some "body", body)]
  have hreads : c.toJson.ReadsCompact source :=
    .object (.cons ⟨rfl, .string _⟩ (.cons ⟨rfl, hheadReads⟩ (.cons ⟨rfl, hbodyReads⟩ .nil)))
  have hsource (levels : Nat) : ofSource? (levels + 4) source = some c := by
    simp [source, ofSource?, Json.Source.toFields?, Json.Source.uniqueField?,
      Json.Source.toChoice?, kindOfName?_name, hheadSource, hbodySource]
  have hobject : extractObject c.toJson.compact = some c.toJson.compact := extractObject_compact _
  have hread : (Json.Source.read c.toJson.compact).bind (ofSource? Json.maxLevels) = some c := by
    rw [hreads.read_compact, Option.bind_some]
    exact hsource 123
  rw [read, hobject]
  dsimp only
  rw [hread]
  rfl

end StructuredClause

/-! ## Texts of terms -/

/-- Without blanks at its ends, a text reads as a term, nested at most 255 levels deep, and has no
comments. -/
structure SpellsTerm (text : String) (t : Term) : Prop where
  parse : Term.parse 255 (Text.trim text) = .ok t
  comment : Token.hasComment (Text.trim text) = false

/-- A predicate with a legal name and with arguments that read as terms stands for the name, applied
to these terms. -/
structure StructuredAtom.Spells (a : StructuredAtom) (t : Term) : Prop where
  predicate : isPlainName (Text.trim a.predicate) = true
  args : ∃ (texts : List String) (terms : List Term), a.args = texts.map .string ∧
    List.Forall₂ SpellsTerm texts terms ∧ t = .applied (Text.trim a.predicate) terms

/-- A description stands for a head and, with its body, for calls; a rule has a body. -/
structure StructuredClause.Spells (c : StructuredClause) (head : Term) (calls : List Term) :
    Prop where
  head : c.head.Spells head
  body : List.Forall₂ StructuredAtom.Spells (c.body.getD []) calls
  rule : c.kind = .rule → c.body.getD [] ≠ []

theorem SpellsTerm.trim_ne_empty {text : String} {t : Term} (h : SpellsTerm text t) :
    (Text.trim text).isEmpty = false := by
  refine String.isEmpty_eq_false_iff.mpr fun hempty => ?_
  have hparse := h.parse
  rw [hempty] at hparse
  cases hparse

theorem SpellsTerm.exists_termTexts {texts : List String} {terms : List Term}
    (h : List.Forall₂ SpellsTerm texts terms) :
    ∃ args : List (TermText 255), args.map TermText.text = texts.map Text.trim ∧
      args.map TermText.term = terms := by
  induction h with
  | nil => exact ⟨[], rfl, rfl⟩
  | cons hterm hterms ih =>
    obtain ⟨arg, htext, hterm⟩ := TermText.exists_of_parse hterm.parse hterm.comment
    obtain ⟨args, htexts, hterms⟩ := ih
    exact ⟨arg :: args, by simp [htext, htexts], by simp [hterm, hterms]⟩

theorem SpellsTerm.mapM_argText {texts : List String} {terms : List Term}
    (h : List.Forall₂ SpellsTerm texts terms) :
    (texts.map Json.string).mapM StructuredAtom.argText = .ok (texts.map Text.trim) := by
  induction h with
  | nil => rfl
  | cons hterm hterms ih =>
    rw [List.map_cons, List.mapM_cons, ih, StructuredAtom.argText, hterm.trim_ne_empty]
    rfl

theorem isEmpty_of_isPlainName {name : String} (h : isPlainName name = true) :
    name.isEmpty = false := by
  refine String.isEmpty_eq_false_iff.mpr fun hempty => ?_
  rw [hempty] at h
  cases h

/-- A predicate is written as the text of the term for which it stands. -/
theorem StructuredAtom.Spells.exists_text {a : StructuredAtom} {t : Term} (h : a.Spells t) :
    ∃ call : TermText maxNesting, call.IsCall ∧ call.term = t ∧ a.text = .ok call.text := by
  obtain ⟨texts, terms, hargs, hterms, rfl⟩ := h.args
  obtain ⟨args, htexts, rfl⟩ := SpellsTerm.exists_termTexts hterms
  have hwritten := SpellsTerm.mapM_argText hterms
  rw [← htexts] at hwritten
  refine ⟨.applied _ h.predicate args, TermText.isCall_applied, TermText.term_applied, ?_⟩
  rw [text, hargs]
  simp only [isEmpty_of_isPlainName h.predicate, List.isEmpty_map, hwritten, Bool.false_eq_true,
    if_false]
  cases args with
  | nil =>
    obtain rfl : texts = [] := by simpa using htexts
    rfl
  | cons first rest =>
    have hne : texts.isEmpty = false := by
      cases texts with
      | nil => cases htexts
      | cons => rfl
    rw [hne]
    rfl

theorem StructuredAtom.Spells.exists_texts {atoms : List StructuredAtom} {terms : List Term}
    (h : List.Forall₂ StructuredAtom.Spells atoms terms) :
    ∃ calls : List (TermText maxNesting), (∀ call ∈ calls, call.IsCall) ∧
      calls.map TermText.term = terms ∧
      atoms.mapM StructuredAtom.text = .ok (calls.map TermText.text) := by
  induction h with
  | nil => exact ⟨[], nofun, rfl, rfl⟩
  | cons hatom hatoms ih =>
    obtain ⟨call, hcall, rfl, htext⟩ := hatom.exists_text
    obtain ⟨calls, hcalls, rfl, htexts⟩ := ih
    refine ⟨call :: calls, List.forall_mem_cons.mpr ⟨hcall, hcalls⟩, rfl, ?_⟩
    rw [List.mapM_cons, htext, htexts]
    rfl

/-! ## Clause texts -/

/-- A text has a kind, and it is read as a head with some calls as this kind says: only a rule has a
body, and a query asks for the head. -/
structure ClauseKind.Reads (kind : ClauseKind) (text : String) (head : Term) (calls : List Term) :
    Prop where
  announced : ofText text = kind
  fact : kind = .fact → Clause.parse text = .ok (.ofTerms head [])
  rule : kind = .rule → Clause.parse text = .ok (.ofTerms head calls)
  query : kind = .query → Query.parse text = .ok ⟨[.call (head.renumberFrom 0)]⟩

namespace TermText

variable {p : TermText maxNesting} {calls : List Term}

/-- What starts with a call and reads as a clause when a period follows has the kind of the
clause. -/
theorem IsCall.ofText_eq {text : String} {c : Clause} (hp : p.IsCall)
    (hstart : p.text.toList <+: text.toList) (h : Clause.parse (text ++ ".") = .ok c) :
    ClauseKind.ofText (text ++ ".") = c.kind := by
  obtain ⟨d, hfirst, hblank⟩ := hp.first
  obtain ⟨rest, hrest⟩ := hstart
  have hlast : (text ++ ".").toList.getLast? = some '.' := by
    rw [String.toList_append]
    exact List.getLast?_concat
  have htrim : Text.trim (text ++ ".") = text ++ "." := by
    refine Text.trim_eq_self ?_ ?_
    · simpa [← hrest, hfirst] using hblank
    · rw [hlast]
      rintro c ⟨⟩
      decide
  exact ClauseKind.ofText_of_parse (by rwa [htrim]) (by rwa [htrim])

theorem IsCall.reads_fact (hp : p.IsCall) :
    ClauseKind.Reads .fact (p.text ++ ".") p.term calls := by
  have hparse := parse_fact hp.callable
  exact ⟨hp.ofText_eq List.prefix_rfl hparse, fun _ => hparse, nofun, nofun⟩

theorem IsCall.reads_query (hp : p.IsCall) :
    ClauseKind.Reads .query p.text p.term calls := by
  refine ⟨?_, nofun, nofun, fun _ => parse_query hp.callable⟩
  obtain ⟨d, hfirst, hblank⟩ := hp.first
  have htrim : Text.trim p.text = p.text :=
    Text.trim_eq_self (by simpa [hfirst] using hblank) fun c hc => (hp.last c hc).1
  rw [ClauseKind.ofText_eq_query, htrim]
  exact fun hperiod => (hp.last '.' hperiod).2 rfl

theorem IsCall.reads_rule {goal : TermText maxNesting} {goals : List (TermText maxNesting)}
    (hp : p.IsCall) (hgoals : ∀ q ∈ goal :: goals, q.IsCall) :
    ClauseKind.Reads .rule
      (p.text ++ " :- " ++ ", ".intercalate ((goal :: goals).map TermText.text) ++ ".") p.term
      ((goal :: goals).map TermText.term) := by
  have hparse := parse_rule hp.callable fun q hq => (hgoals q hq).callable
  refine ⟨hp.ofText_eq ?_ hparse, nofun, fun _ => hparse, nofun⟩
  simp [String.toList_append]

end TermText

/-- What is written for a clause of a kind from the texts of its head and its goals. -/
def ClauseKind.written (kind : ClauseKind) (head : String) (goals : List String) : String :=
  match kind with
  | .fact => head ++ "."
  | .query => head
  | .rule => head ++ " :- " ++ ", ".intercalate goals ++ "."

/-- Calls are read as the kind says. -/
theorem TermText.IsCall.reads {kind : ClauseKind} {p : TermText maxNesting}
    {goals : List (TermText maxNesting)} (hp : p.IsCall) (hgoals : ∀ q ∈ goals, q.IsCall)
    (hrule : kind = .rule → goals ≠ []) :
    kind.Reads (kind.written p.text (goals.map TermText.text)) p.term
      (goals.map TermText.term) := by
  cases kind with
  | fact => exact hp.reads_fact
  | query => exact hp.reads_query
  | rule =>
    obtain ⟨goal, goals, rfl⟩ := List.exists_cons_of_ne_nil (hrule rfl)
    exact hp.reads_rule hgoals

namespace StructuredClause

variable {c : StructuredClause} {head : Term} {calls : List Term}

/-- The text of a description is written from those of its head and, for a rule, of its body. -/
theorem text_eq {head : String} {goals : List String} (hhead : c.head.text = .ok head)
    (hbody : c.kind = .rule → ∃ atom atoms, c.body = some (atom :: atoms) ∧
      (atom :: atoms).mapM StructuredAtom.text = .ok goals) :
    c.text = .ok (c.kind.written head goals) := by
  unfold text
  rw [hhead]
  cases hkind : c.kind with
  | fact | query => rfl
  | rule =>
    obtain ⟨atom, atoms, hatoms, hgoals⟩ := hbody hkind
    rw [hatoms]
    dsimp only [bind, Except.bind]
    rw [hgoals]
    rfl

theorem Spells.read_compact (h : c.Spells head calls) (messages : JsonMessages) :
    read c.toJson.compact messages = .ok c := by
  have htextual {a : StructuredAtom} {t : Term} (ha : a.Spells t) : a.IsTextual := by
    obtain ⟨texts, -, hargs, -⟩ := ha.args
    exact ⟨texts, hargs⟩
  refine StructuredClause.read_compact (htextual h.head) (fun a ha => ?_) messages
  obtain ⟨i, hi, rfl⟩ := List.getElem_of_mem ha
  exact htextual (h.body.get hi (h.body.length_eq ▸ hi))

theorem Spells.exists_body (h : c.Spells head calls) (hkind : c.kind = .rule) :
    ∃ atom atoms, c.body = some (atom :: atoms) := by
  have hne := h.rule hkind
  cases hbody : c.body with
  | none => exact absurd rfl (hbody ▸ hne)
  | some atoms =>
    rw [hbody] at hne
    obtain ⟨atom, atoms, rfl⟩ := List.exists_cons_of_ne_nil hne
    exact ⟨atom, atoms, rfl⟩

theorem clauseText_eq_ok {raw text : String} {messages : JsonMessages} :
    clauseText raw messages = .ok text ↔ ∃ c, read raw messages = .ok c ∧ c.text = .ok text := by
  unfold clauseText
  cases read raw messages with
  | error fault => simp [bind, Except.bind]
  | ok c => cases hc : c.text <;> simp [bind, Except.bind, hc]

/-- A description is read from a text whatever would be said of texts that cannot be read. -/
theorem read_eq_ok {raw : String} {messages : JsonMessages} (h : read raw messages = .ok c)
    (messages' : JsonMessages) : read raw messages' = .ok c := by
  unfold read at h ⊢
  cases hobject : extractObject raw with
  | none =>
    rw [hobject] at h
    cases h
  | some object =>
    rw [hobject] at h
    dsimp only at h ⊢
    cases hclause : (Json.Source.read object).bind (ofSource? Json.maxLevels) with
    | none =>
      rw [hclause] at h
      cases h
    | some clause =>
      rw [hclause] at h
      exact h

theorem clauseText_of_read {raw : String} {messages : JsonMessages}
    (h : read raw messages = .ok c) {text : String} (htext : c.text = .ok text) :
    clauseText raw messages = .ok text :=
  clauseText_eq_ok.mpr ⟨c, h, htext⟩

theorem Spells.exists_text (h : c.Spells head calls) :
    ∃ text, c.text = .ok text ∧ c.kind.Reads text head calls := by
  obtain ⟨p, hp, rfl, hhead⟩ := h.head.exists_text
  obtain ⟨goals, hgoals, rfl, htexts⟩ := StructuredAtom.Spells.exists_texts h.body
  have hbody (hkind : c.kind = .rule) : ∃ atom atoms, c.body = some (atom :: atoms) ∧
      (atom :: atoms).mapM StructuredAtom.text = .ok (goals.map TermText.text) := by
    obtain ⟨atom, atoms, hatoms⟩ := h.exists_body hkind
    rw [hatoms, Option.getD_some] at htexts
    exact ⟨atom, atoms, hatoms, htexts⟩
  refine ⟨_, text_eq hhead hbody, hp.reads hgoals fun hkind hnil => h.rule hkind ?_⟩
  exact List.eq_nil_of_length_eq_zero (by simpa [hnil] using h.body.length_eq)

/-- The clause text that is put together from a description keeps its structure: the text is read as
the clause or the query that the description spells, and it has the kind that the description
names. The description may be given in its own JSON form or in any text from which it is read. -/
theorem clauseText_keeps_structure (h : c.Spells head calls) :
    ∃ text, (∀ messages, clauseText c.toJson.compact messages = .ok text) ∧
      (∀ raw messages, read raw messages = .ok c → clauseText raw messages = .ok text) ∧
      c.kind.Reads text head calls := by
  obtain ⟨text, htext, hreads⟩ := h.exists_text
  have hraw (raw : String) (messages : JsonMessages) (hread : read raw messages = .ok c) :
      clauseText raw messages = .ok text := clauseText_of_read hread htext
  exact ⟨text, fun messages => hraw _ messages (h.read_compact messages), hraw, hreads⟩

/-- A rule with quotes, a percent sign, a decimal point and anonymous variables at the seams. -/
theorem clauseText_keeps_structure_plovers :
    let c : StructuredClause :=
      { kind := .rule
        head := ⟨" seen ", [.string " pair(_, [A|_])", .string "'50%, \"x'"]⟩
        body := some [⟨"at", [.string "_", .string "-2.5 "]⟩, ⟨"dawn", []⟩] }
    let head := Term.compound "seen"
      [.compound "pair" [.var "_#1", .list [.var "A"] (.var "_#2")], .atom "50%, \"x"]
    let calls := [Term.compound "at" [.var "_#1", .number "-2.5"], .atom "dawn"]
    let numbered := [Goal.call (.compound "at" [.var "_#3", .number "-2.5"]), .call (.atom "dawn")]
    let text := "seen(pair(_, [A|_]), '50%, \"x') :- at(_, -2.5), dawn."
    c.Spells head calls ∧ (∀ messages, clauseText c.toJson.compact messages = .ok text) ∧
    (∀ raw messages, read raw messages = .ok c → clauseText raw messages = .ok text) ∧
    ClauseKind.ofText text = .rule ∧ Clause.parse text = .ok { head, body := numbered } := by
  intro c head calls numbered text
  have hpair : SpellsTerm " pair(_, [A|_])"
      (.compound "pair" [.var "_#1", .list [.var "A"] (.var "_#2")]) :=
    ⟨by decide +kernel, by decide +kernel⟩
  have hshare : SpellsTerm "'50%, \"x'" (.atom "50%, \"x") := ⟨by decide +kernel, by decide +kernel⟩
  have hunknown : SpellsTerm "_" (.var "_#1") := ⟨by decide +kernel, by decide +kernel⟩
  have hbelow : SpellsTerm "-2.5 " (.number "-2.5") := ⟨by decide +kernel, by decide +kernel⟩
  have hseen : c.head.Spells head :=
    ⟨by decide +kernel, _, _, rfl, .cons hpair (.cons hshare .nil), by decide +kernel⟩
  have hat : StructuredAtom.Spells ⟨"at", [.string "_", .string "-2.5 "]⟩
      (.compound "at" [.var "_#1", .number "-2.5"]) :=
    ⟨by decide +kernel, _, _, rfl, .cons hunknown (.cons hbelow .nil), by decide +kernel⟩
  have hdawn : StructuredAtom.Spells ⟨"dawn", []⟩ (.atom "dawn") :=
    ⟨by decide +kernel, [], [], rfl, .nil, by decide +kernel⟩
  have h : c.Spells head calls := ⟨hseen, .cons hat (.cons hdawn .nil), fun _ => nofun⟩
  obtain ⟨text', hcompact, hraw, hreads⟩ := clauseText_keeps_structure h
  have htext : c.text = .ok text :=
    (eq_ok_getD (by decide +kernel) "").trans (congrArg _ (by decide +kernel))
  obtain rfl : text = text' := by
    have hwritten := clauseText_of_read (h.read_compact .placeholder) htext
    exact Except.ok.inj (hwritten.symm.trans (hcompact .placeholder))
  have hclause : Clause.ofTerms head calls = { head, body := numbered } := by decide +kernel
  have hparse := hreads.rule rfl
  rw [hclause] at hparse
  exact ⟨h, hcompact, hraw, hreads.announced, hparse⟩

end StructuredClause

end OntoLogic
