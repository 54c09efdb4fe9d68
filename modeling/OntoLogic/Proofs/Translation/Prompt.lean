-- SUMMARY: The prompts put what they are given under fixed titles, in a fixed order.
import OntoLogic.Proofs.Text.Trim
import OntoLogic.Translation.Error
import OntoLogic.Translation.Prompt

/-!
# What prompts show

A prompt is a row of parts: what is asked for, the parts that depend on what it is given, and the
input. A part that has nothing to show is left out. Feedback that is blank shows nothing either, but
no failure of a translation has a blank wording.
-/

namespace OntoLogic

/-! ## Wordings of failures -/

theorem TranslationError.beginsPlain_message (e : TranslationError) :
    Text.BeginsPlain e.message := by
  cases e with
  | generation e =>
    cases e with
    | request reason => exact .append ⟨'f', rfl, rfl⟩ _
    | emptyResponse => exact ⟨'p', rfl, rfl⟩
    | provider reason => exact .append ⟨'p', rfl, rfl⟩ _
  | malformedOutput fault raw => exact .append (.append (.append ⟨'m', rfl, rfl⟩ _) _) _
  | unsupported strategy => exact .append (.append ⟨'s', rfl, rfl⟩ _) _
  | exhausted attempts last => exact .append (.append (.append ⟨'n', rfl, rfl⟩ _) _) _
  | cancelled => exact ⟨'t', rfl, rfl⟩
  | missingGenerator => exact ⟨'n', rfl, rfl⟩

namespace Prompt

/-! ## Parts -/

/-- A part of a prompt with a title, left out when there is nothing to show. -/
def line (title : String) : Option String → String
  | none => ""
  | some content => "\n\n" ++ title ++ content

theorem line_eq_empty_iff {title : String} {content : Option String} :
    line title content = "" ↔ content = none := by
  cases content <;> simp [line]

/-- A part of a prompt with a title and lines below it, left out when there are none. -/
def underTitle (title : String) (lines : List String) : String :=
  if lines = [] then "" else "\n\n" ++ title ++ String.join (lines.map ("\n" ++ ·))

theorem join_map_append (separator x : String) (xs : List String) :
    String.join ((x :: xs).map (separator ++ ·)) =
      separator ++ separator.intercalate (x :: xs) := by
  induction xs generalizing x with
  | nil => simp
  | cons y ys ih =>
    rw [List.map_cons, String.join_cons, ih, String.intercalate_cons_cons, String.append_assoc,
      String.append_assoc]

theorem titledLines_eq (title : String) (lines : List String) :
    titledLines title lines = underTitle title lines := by
  cases lines with
  | nil => rfl
  | cons x xs =>
    rw [underTitle, if_neg (List.cons_ne_nil x xs), join_map_append]
    simp [titledLines, String.append_assoc]

def vocabulary (terms : List String) : Option String :=
  if terms = [] then none else some (", ".intercalate terms)

theorem ontologyHint_eq (terms : List String) :
    ontologyHint terms = line "Available ontology terms: " (vocabulary terms) := by
  cases terms <;> rfl

variable {feedback : Option String}

theorem nonBlank_eq (h : ∀ m ∈ feedback, Text.BeginsPlain m) : nonBlank feedback = feedback := by
  cases feedback with
  | none => rfl
  | some m =>
    have hm := (h m rfl).isEmpty_trim
    simp only [nonBlank, Option.filter_some, hm, Bool.not_false, if_true]

/-! ## Translation -/

/-- What a translation prompt shows. -/
def Form.parts (form : Form) (text : String) (terms : List String) (feedback : Option String) :
    List String :=
  [form.instructions, line "Available ontology terms: " (vocabulary terms),
    line "Your previous answer was rejected: "
      (feedback.map (· ++ "\nFix the problem in your new answer.")),
    form.examples, "\n\nInput: ", text, "\nOutput:"]

theorem feedbackHint_eq (feedback : Option String) :
    feedbackHint feedback = line "Your previous answer was rejected: "
      ((nonBlank feedback).map (· ++ "\nFix the problem in your new answer.")) := by
  unfold feedbackHint
  cases nonBlank feedback <;> simp [line, String.append_assoc]

/-- The line about the answer before is left out exactly when there is nothing to say in it. -/
theorem feedbackHint_eq_empty_iff :
    feedbackHint feedback = "" ↔ ∀ m ∈ feedback, (Text.trim m).isEmpty = true := by
  rw [feedbackHint_eq, line_eq_empty_iff, Option.map_eq_none_iff, nonBlank,
    Option.filter_eq_none_iff]
  simp

theorem Form.prompt_eq (form : Form) (text : String) (terms : List String)
    (feedback : Option String) :
    form.prompt text terms feedback = String.join (form.parts text terms (nonBlank feedback)) := by
  simp [prompt, parts, ontologyHint_eq, feedbackHint_eq, String.append_assoc]

/-! ## Reasoning -/

/-- What the prompt of a reasoning step shows. -/
def AgenticContext.parts (context : AgenticContext) : List String :=
  [agenticInstructions, underTitle "Current Knowledge Base:" context.program,
    underTitle "Previous Reasoning Steps:" context.previousSteps,
    line "Accumulated Bindings: " (if context.bindings = "" then none else some context.bindings),
    line "Available ontology terms: " (vocabulary context.terms),
    line "Result of the last step: " context.feedback,
    "\n\nOriginal Task: \"", context.task, "\"\n\n", agenticExamples]

theorem outcomeHint_eq (feedback : Option String) :
    outcomeHint feedback = line "Result of the last step: " (nonBlank feedback) := by
  unfold outcomeHint
  cases nonBlank feedback <;> rfl

theorem bindingsHint_eq (bindings : String) :
    (if bindings = "" then "" else "\n\nAccumulated Bindings: " ++ bindings) =
      line "Accumulated Bindings: " (if bindings = "" then none else some bindings) := by
  by_cases h : bindings = "" <;> simp [h, line]

theorem agentic_eq (context : AgenticContext) :
    agentic context =
      String.join { context with feedback := nonBlank context.feedback }.parts := by
  simp [agentic, agenticHints, AgenticContext.parts, titledLines_eq, ontologyHint_eq,
    bindingsHint_eq, outcomeHint_eq, String.append_assoc]

end Prompt

end OntoLogic
