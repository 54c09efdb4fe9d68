-- SUMMARY: The knowledge graph of a session splits its program, by the kinds of the texts.
import OntoLogic.Proofs.Json.Compact
import OntoLogic.Proofs.Session.Consistency
import OntoLogic.Proofs.Syntax.Ending
import OntoLogic.Session.Graph

/-!
# The knowledge graph of a session

The JSON form of the graph is read as the graph. Its facts and its rules are the program, split by
the kinds of the texts. Every text of a reachable session spells a clause, and its kind is that of
the clause when the text ends with a period. A clause with comments after its period is the
exception: it counts as a fact, also when it has a body.
-/

namespace OntoLogic

/-! ## The JSON form -/

namespace KnowledgeGraph

def source (g : KnowledgeGraph) : Json.Source :=
  .object [(some "facts", .texts g.facts), (some "rules", .texts g.rules),
    (some "entities", .texts g.entities), (some "relationships", .texts g.relationships),
    (some "constraints", .texts g.constraints)]

theorem readsCompact_toJson (g : KnowledgeGraph) : g.toJson.ReadsCompact g.source := by
  refine .object ?_
  exact .cons ⟨rfl, Json.readsCompact_strings _⟩ (.cons ⟨rfl, Json.readsCompact_strings _⟩
    (.cons ⟨rfl, Json.readsCompact_strings _⟩ (.cons ⟨rfl, Json.readsCompact_strings _⟩
      (.cons ⟨rfl, Json.readsCompact_strings _⟩ .nil))))

end KnowledgeGraph

/-! ## Facts and rules -/

/-- Whether a text spells a clause with a body. -/
def spellsRule (text : String) : Bool :=
  match Clause.parse text with
  | .ok c => !c.body.isEmpty
  | .error _ => false

def endsWithPeriod (text : String) : Bool :=
  text.toList.getLast? == some '.'

variable {text : String} {texts : List String} {c : Clause}

theorem spellsRule_iff (h : Clause.parse text = .ok c) :
    spellsRule text = true ↔ c.kind = .rule := by
  rw [spellsRule, h]
  cases hbody : c.body <;> simp [Clause.kind, hbody]

/-- A text that spells a clause is taken for a rule when it spells one and ends with a period. -/
theorem ofText_eq_rule_iff (htrim : Text.trim text = text) (h : Clause.parse text = .ok c) :
    ClauseKind.ofText text = .rule ↔ (spellsRule text && endsWithPeriod text) = true := by
  rw [Bool.and_eq_true, spellsRule_iff h, endsWithPeriod, beq_iff_eq]
  by_cases hlast : text.toList.getLast? = some '.'
  · rw [ClauseKind.ofText_of_parse (by rwa [htrim]) (by rwa [htrim]), and_iff_left hlast]
  · rw [(ClauseKind.ofText_eq_query text).mpr (by rwa [htrim])]
    exact iff_of_false nofun fun hand => hlast hand.2

/-- A filter that asks for more keeps as much when what is asked for is there. -/
theorem filter_and_eq_filter_iff {α : Type} {p q : α → Bool} {xs : List α} :
    (xs.filter fun x => p x && q x) = xs.filter p ↔ ∀ x ∈ xs, p x = true → q x = true := by
  constructor
  · intro h x hx hp
    have hmem : x ∈ xs.filter fun x => p x && q x := h ▸ List.mem_filter.mpr ⟨hx, hp⟩
    exact (Bool.and_eq_true_iff.mp (List.mem_filter.mp hmem).2).2
  · intro h
    refine List.filter_congr fun x hx => ?_
    cases hp : p x with
    | false => rfl
    | true => simp [h x hx hp]

namespace Session

variable {bounds : Bounds} {s : Session MemoryEngine}

theorem Consistent.graph_rules (h : s.Consistent bounds) :
    s.graph.rules = s.program.filter fun text => spellsRule text && endsWithPeriod text := by
  refine List.filter_congr fun text htext => ?_
  obtain ⟨htrim, c, hc⟩ := h.allowed text htext
  rw [Bool.eq_iff_iff, decide_eq_true_iff]
  exact ofText_eq_rule_iff htrim (Ontology.validate_iff.mp hc).1

theorem Consistent.graph_facts (h : s.Consistent bounds) :
    s.graph.facts = s.program.filter fun text => !(spellsRule text && endsWithPeriod text) := by
  refine List.filter_congr fun text htext => ?_
  obtain ⟨htrim, c, hc⟩ := h.allowed text htext
  have hrule := ofText_eq_rule_iff htrim (Ontology.validate_iff.mp hc).1
  rw [Bool.eq_iff_iff, decide_eq_true_iff, Bool.not_eq_true', ← Bool.not_eq_true, ← hrule]

theorem facts_append_rules_perm (s : Session MemoryEngine) :
    (s.graph.facts ++ s.graph.rules).Perm s.program := by
  have hsplit :=
    List.filter_append_perm (fun text => decide (ClauseKind.ofText text = .rule)) s.program
  refine .trans ?_ (List.perm_append_comm.trans hsplit)
  refine .append (.of_eq (List.filter_congr fun text _ => ?_)) (.refl _)
  simp

/-- The program of a session is what its engine gives back, and its graph splits the program: every
text spells a clause and is listed once, in the order of the program. The rules are the texts that
spell a clause with a body and end with a period, and the facts are the others. These are the
clauses with a body and without exactly when every text that spells a rule ends with a period; one
that does not has comments after the rule. -/
theorem graph_splits_program (h : Reachable bounds s) :
    s.programText = Engine.render s.engine ∧
    Json.Source.read s.graph.toJson.compact = some s.graph.source ∧
    (∀ text ∈ s.program, ∃ c, Clause.parse text = .ok c) ∧
    (s.graph.facts ++ s.graph.rules).Perm s.program ∧
    s.graph.rules = (s.program.filter fun text => spellsRule text && endsWithPeriod text) ∧
    s.graph.facts = (s.program.filter fun text => !(spellsRule text && endsWithPeriod text)) ∧
    (s.graph.rules = s.program.filter spellsRule ∧
        s.graph.facts = (s.program.filter fun text => !spellsRule text) ↔
      ∀ text ∈ s.program, spellsRule text = true → endsWithPeriod text = true) ∧
    ∀ text ∈ s.program, spellsRule text = true → endsWithPeriod text = false →
      ∃ core, Commented core text ∧ Clause.parse core = Clause.parse text := by
  have hs := h.consistent
  have hparse : ∀ text ∈ s.program, ∃ c, Clause.parse text = .ok c := fun text htext =>
    (hs.allowed text htext).exists_parse
  refine ⟨?_, s.graph.readsCompact_toJson.read_compact, hparse, facts_append_rules_perm s,
    hs.graph_rules, hs.graph_facts, ?_, ?_⟩
  · exact (engine_holds_program h).2.2.1.symm
  · rw [hs.graph_rules, hs.graph_facts]
    constructor
    · exact fun hmeaning => filter_and_eq_filter_iff.mp hmeaning.1
    · intro hperiod
      refine ⟨filter_and_eq_filter_iff.mpr hperiod, List.filter_congr fun text htext => ?_⟩
      cases hrule : spellsRule text with
      | false => rfl
      | true => rw [hperiod text htext hrule]; rfl
  · intro text htext _ hlast
    obtain ⟨c, hc⟩ := hparse text htext
    have hlast' : (Text.trim text).toList.getLast? ≠ some '.' := by
      rw [(hs.allowed text htext).1]
      simpa [endsWithPeriod] using hlast
    obtain ⟨core, -, hcommented, hcore, -⟩ := Clause.exists_commented hc hlast'
    exact ⟨core, hcommented, hcore.trans hc.symm⟩

/-- A rule and a fact with a comment after it, of which one was loaded and one asserted. -/
theorem graph_splits_program_tweety :
    let fact := "canary(tweety). % seen today"
    let rule := "bird(X) :- canary(X)."
    let ontology : OntologyConfig := { types := ["bird", "canary"] }
    let s₀ : Session MemoryEngine :=
      start "s" ⟨[], 1, 0, none⟩ 8 (some ontology) (.new {}) (.new {})
    let s₁ := (s₀.loadInitial [fact]).toOption.getD s₀
    let env : Environment (Option ScriptedGenerator) := ⟨none, 0, none, false, .placeholder⟩
    let s := (s₁.perform (.assert rule) env).2.1
    Reachable {} s ∧ s.program = [fact, rule] ∧
      s.programText = Engine.render s.engine ∧
      Json.Source.read s.graph.toJson.compact = some s.graph.source ∧
      (∀ text ∈ s.program, spellsRule text = true → endsWithPeriod text = true) ∧
      s.graph.rules = s.program.filter spellsRule ∧
      s.graph.facts = (s.program.filter fun text => !spellsRule text) := by
  intro fact rule ontology s₀ s₁ env s
  have hreach : Reachable {} s := .perform _ env (.create (eq_ok_getD (by decide +kernel) _))
  have hperiod : ∀ text ∈ s.program, spellsRule text = true → endsWithPeriod text = true := by
    decide +kernel
  obtain ⟨hrender, hread, -, -, -, -, hmeaning, -⟩ := graph_splits_program hreach
  exact ⟨hreach, by decide +kernel, hrender, hread, hperiod, hmeaning.mpr hperiod⟩

/-- A rule with a comment after it is listed among the facts, although it has a body. -/
theorem rule_listed_as_fact :
    let fact := "canary(tweety). % seen today"
    let rule := "bird(X) :- canary(X). % all canaries"
    let ontology : OntologyConfig := { types := ["bird", "canary"] }
    let s₀ : Session MemoryEngine :=
      start "s" ⟨[], 1, 0, none⟩ 8 (some ontology) (.new {}) (.new {})
    let s := (s₀.loadInitial [fact, rule]).toOption.getD s₀
    Reachable {} s ∧ s.program = [fact, rule] ∧ spellsRule rule = true ∧
      s.graph.facts = [fact, rule] ∧ s.graph.rules = [] := by
  intro fact rule ontology s₀ s
  exact ⟨.create (eq_ok_getD (by decide +kernel) _), by decide +kernel, by decide +kernel,
    by decide +kernel, by decide +kernel⟩

end Session

end OntoLogic
