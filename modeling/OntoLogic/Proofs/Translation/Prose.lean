-- SUMMARY: Actions and descriptions of clauses are read in the same way whatever stands around their JSON form.
import OntoLogic.Proofs.Translation.Structured
import OntoLogic.Translation.Action

/-!
# JSON among other text

A generated text may have prose or code fences around an object. What stands before the object must
not have an opening brace and what stands after it no closing one; the strings of the object itself
may have any characters, since only the first and the last brace of the whole text are looked for.
So an action is read back from its JSON form, and a description of a clause is read as it is where
its JSON form stands alone. Both written forms of JSON will do.
-/

namespace OntoLogic

/-! ## Written forms -/

/-- The written forms of JSON values. -/
def Json.forms : List (Json → String) := [compact, indented]

variable {before after : String} {write : Json → String}

/-- An object is found among other text in either of its written forms. -/
theorem extractObject_form (hbefore : '\x7b' ∉ before.toList) (hafter : '\x7d' ∉ after.toList)
    (hwrite : write ∈ Json.forms) {j : Json} (hj : ∃ fields, j = .object fields) :
    extractObject (before ++ write j ++ after) = some (write j) := by
  obtain ⟨fields, rfl⟩ := hj
  obtain rfl | rfl := List.mem_pair.mp hwrite
  · exact (braced_compact fields).extractObject hbefore hafter
  · exact (braced_indented fields).extractObject hbefore hafter

/-! ## Actions -/

namespace AgentAction

theorem exists_fields (a : AgentAction) : ∃ fields, a.toJson = .object fields := by
  cases a <;> exact ⟨_, rfl⟩

def source : AgentAction → Json.Source
  | .query content =>
    .object [(some "type", .string (some "query")), (some "content", .string (some content))]
  | .assert content =>
    .object [(some "type", .string (some "assert")), (some "content", .string (some content))]
  | .conclude answer explanation =>
    .object [(some "type", .string (some "conclude")), (some "answer", .string (some answer)),
      (some "explanation", match explanation with
        | none => .null
        | some text => .string (some text))]

/-- An action is written as its tree in every form in which texts, `null` and objects of them are
written as their trees. -/
theorem reads_toJson {Reads : Json → Json.Source → Prop} (hnull : Reads .null .null)
    (hstring : ∀ text, Reads (.string text) (.string (some text)))
    (hobject : ∀ {fields : List (String × Json)} {sources : List (Option String × Json.Source)},
      List.Forall₂ (fun field source => source.1 = some field.1 ∧ Reads field.2 source.2)
        fields sources → Reads (.object fields) (.object sources)) (a : AgentAction) :
    Reads a.toJson a.source := by
  cases a with
  | query content | assert content =>
    exact hobject (.cons ⟨rfl, hstring _⟩ (.cons ⟨rfl, hstring _⟩ .nil))
  | conclude answer explanation =>
    refine hobject (.cons ⟨rfl, hstring _⟩ (.cons ⟨rfl, hstring _⟩ (.cons ⟨rfl, ?_⟩ .nil)))
    cases explanation with
    | none => exact hnull
    | some text => exact hstring text

theorem read_form (hwrite : write ∈ Json.forms) (a : AgentAction) :
    Json.Source.read (write a.toJson) = some a.source := by
  obtain rfl | rfl := List.mem_pair.mp hwrite
  · have hreads : a.toJson.ReadsCompact a.source := a.reads_toJson .null .string .object
    exact hreads.read_compact
  · have hreads : a.toJson.Reads a.source := a.reads_toJson .null .string .object
    exact hreads.read_indented

theorem ofSource?_source (levels : Nat) (a : AgentAction) :
    ofSource? (levels + 1) a.source = some a := by
  cases a with
  | query content | assert content =>
    simp [source, ofSource?, Json.Source.toJson?, Json.Source.toJsonFields?, textField?,
      Json.Source.uniqueField?, Json.Source.toText?]
  | conclude answer explanation =>
    cases explanation <;>
      simp [source, ofSource?, Json.Source.toJson?, Json.Source.toJsonFields?, textField?,
        Json.Source.uniqueField?, Json.Source.toText?]

/-- An action is read back from among other text; only its content can be missing. -/
theorem read_form_among (hbefore : '\x7b' ∉ before.toList) (hafter : '\x7d' ∉ after.toList)
    (hwrite : write ∈ Json.forms) (a : AgentAction) (messages : JsonMessages) :
    readFault (before ++ write a.toJson ++ after) messages =
      if a.isEmpty then .error (.emptyAction a.name) else .ok a := by
  have hobject := extractObject_form hbefore hafter hwrite a.exists_fields
  have hread : (Json.Source.read (write a.toJson)).bind (ofSource? Json.maxLevels) = some a := by
    rw [read_form hwrite, Option.bind_some]
    exact ofSource?_source 126 a
  rw [readFault, hobject]
  dsimp only
  rw [hread]
  dsimp only
  split <;> rfl

end AgentAction

/-! ## Descriptions -/

namespace StructuredClause

/-- A description among other text is read as it is where it stands alone. -/
theorem read_form_among (hbefore : '\x7b' ∉ before.toList) (hafter : '\x7d' ∉ after.toList)
    (hwrite : write ∈ Json.forms) (c : StructuredClause) (messages : JsonMessages) :
    read (before ++ write c.toJson ++ after) messages = read (write c.toJson) messages := by
  have hobject : ∃ fields, c.toJson = .object fields := ⟨_, rfl⟩
  have hamong := extractObject_form hbefore hafter hwrite hobject
  have hnone (brace : Char) : brace ∉ "".toList := by simp
  have halone := extractObject_form (hnone _) (hnone _) hwrite hobject
  rw [String.empty_append, String.append_empty] at halone
  rw [read, read, hamong, halone]

end StructuredClause

/-- With text around it that has no opening brace before and no closing brace after it, an action is
read back from its JSON form, unless it needs content and has none, and a description of a clause
gives the same clause text as its JSON form alone, or none where that gives none. -/
theorem read_among_prose (hbefore : '\x7b' ∉ before.toList) (hafter : '\x7d' ∉ after.toList)
    (hwrite : write ∈ Json.forms) (messages : JsonMessages) :
    (∀ a : AgentAction, a.isEmpty = false →
      AgentAction.read (before ++ write a.toJson ++ after) messages = .ok a) ∧
    (∀ a : AgentAction, a.isEmpty = true →
      AgentAction.read (before ++ write a.toJson ++ after) messages =
        .error (.malformedOutput (.emptyAction a.name) (before ++ write a.toJson ++ after))) ∧
    ∀ (c : StructuredClause) (text : String),
      StructuredClause.clauseText (before ++ write c.toJson ++ after) messages = .ok text ↔
        StructuredClause.clauseText (write c.toJson) messages = .ok text := by
  refine ⟨fun a ha => ?_, fun a ha => ?_, fun c text => ?_⟩
  · rw [AgentAction.read, AgentAction.read_form_among hbefore hafter hwrite, ha]
    rfl
  · rw [AgentAction.read, AgentAction.read_form_among hbefore hafter hwrite, ha]
    rfl
  · rw [StructuredClause.clauseText_eq_ok, StructuredClause.clauseText_eq_ok,
      StructuredClause.read_form_among hbefore hafter hwrite]

/-- Braces, quotes and control characters in a string and braces on the other sides of an object. -/
theorem read_among_prose_tweety :
    let before := "Sure \x7d, here it is: "
    let after := " \x7b as asked."
    let action := AgentAction.assert "says(tweety, '\x7b\\ \"hi\"\x7d\n')."
    let c : StructuredClause := ⟨.query, ⟨"bird", [.string "X\t"]⟩, none⟩
    AgentAction.read (before ++ action.toJson.compact ++ after) = .ok action ∧
    action.toJson.compact =
      "\x7b\"type\":\"assert\",\"content\":\"says(tweety, '\x7b\\\\ \\\"hi\\\"\x7d\\n').\"\x7d" ∧
    StructuredClause.clauseText (before ++ c.toJson.compact ++ after) = .ok "bird(X)" := by
  intro before after action c
  have hbefore : '\x7b' ∉ before.toList := by decide
  have hafter : '\x7d' ∉ after.toList := by decide
  have hwrite : Json.compact ∈ Json.forms := by simp [Json.forms]
  have hread := read_among_prose hbefore hafter hwrite .placeholder
  have hbare : StructuredClause.clauseText c.toJson.compact = .ok "bird(X)" :=
    (eq_ok_getD (by decide +kernel) "").trans (congrArg _ (by decide +kernel))
  exact ⟨hread.1 action (by decide +kernel), by decide +kernel, (hread.2.2 c _).mpr hbare⟩

end OntoLogic
