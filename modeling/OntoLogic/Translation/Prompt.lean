-- SUMMARY: The prompts that are sent to a generation service.
import OntoLogic.Text.Blank

/-!
# Prompts

Every prompt states the task, the vocabulary to keep to, what was wrong with the answer before, and
the input. Parts that have nothing to say are left out.
-/

namespace OntoLogic.Prompt

/-! ## Hints -/

/-- The vocabulary to keep to. -/
def ontologyHint (terms : List String) : String :=
  if terms.isEmpty then "" else "\n\nAvailable ontology terms: " ++ ", ".intercalate terms

def nonBlank (text : Option String) : Option String :=
  text.filter fun text => !(Text.trim text).isEmpty

/-- Why the answer before was rejected. -/
def feedbackHint (feedback : Option String) : String :=
  match nonBlank feedback with
  | none => ""
  | some feedback =>
    "\n\nYour previous answer was rejected: " ++ feedback ++
      "\nFix the problem in your new answer."

/-! ## Translation -/

/-- What stays the same in all translation prompts of one kind. -/
structure Form where
  instructions : String
  /-- What stands between the hints and the input. -/
  examples : String := ""

def Form.prompt (form : Form) (text : String) (terms : List String) (feedback : Option String) :
    String :=
  form.instructions ++ ontologyHint terms ++ feedbackHint feedback ++ form.examples ++
    "\n\nInput: " ++ text ++ "\nOutput:"

/-- Asks for clause text. -/
def directForm : Form where
  instructions :=
    "Translate the following into a Prolog fact, rule or query. Only output the Prolog code.\n" ++
    "A fact or rule must end with a period. A query must not end with a period.\n" ++
    "Example: \"All men are mortal.\" becomes \"mortal(X) :- man(X).\""

/-- Asks for clause text and gives examples. -/
def fewShotForm : Form where
  instructions :=
    "Translate to a Prolog fact, rule or query. Only output valid Prolog.\n" ++
    "Do NOT include any extra text, comments, or explanations, just the Prolog.\n" ++
    "A fact or rule must end with a single period. A query must NOT end with a period."
  examples :=
    "\n\nExamples:\n" ++
    "1. \"All birds fly\" -> \"flies(X) :- bird(X).\"\n" ++
    "2. \"Socrates is mortal\" -> \"mortal(socrates).\"\n" ++
    "3. \"Does tweety fly?\" -> \"flies(tweety)\"\n" ++
    "4. \"Is Tweety a bird?\" -> \"bird(tweety)\"\n" ++
    "5. \"What is the color of the car?\" -> \"has_color(car, Color)\""

/-- Asks for a description of a clause in JSON. -/
def structuredForm : Form where
  instructions :=
    "Translate the following into a JSON representation of a Prolog clause.\n" ++
    "Output ONLY valid JSON with:\n" ++
    "- \"type\" (\"fact\", \"rule\" or \"query\")\n" ++
    "- \"head\" with \"predicate\" and \"args\" array\n" ++
    "- \"body\" array (for rules only) with elements having \"predicate\" and \"args\"\n\n" ++
    "Examples:\n" ++
    "\x7b\"type\":\"fact\",\"head\":\x7b\"predicate\":\"bird\",\"args\":[\"tweety\"]\x7d\x7d\n" ++
    "\x7b\"type\":\"rule\",\"head\":\x7b\"predicate\":\"has_wings\",\"args\":[\"X\"]\x7d," ++
    "\"body\":[\x7b\"predicate\":\"bird\",\"args\":[\"X\"]\x7d]\x7d\n" ++
    "\x7b\"type\":\"query\",\"head\":\x7b\"predicate\":\"bird\",\"args\":[\"X\"]\x7d\x7d"

def direct : String → List String → Option String → String :=
  directForm.prompt

def fewShot : String → List String → Option String → String :=
  fewShotForm.prompt

def structured : String → List String → Option String → String :=
  structuredForm.prompt

/-! ## Reasoning -/

/-- What a reasoning step is told. -/
structure AgenticContext where
  task : String
  terms : List String := []
  program : List String := []
  previousSteps : List String := []
  bindings : String := ""
  feedback : Option String := none

/-- A part of a prompt under a title, unless it is empty. -/
def titledLines (title : String) (lines : List String) : String :=
  if lines.isEmpty then "" else "\n\n" ++ title ++ "\n" ++ "\n".intercalate lines

/-- What came of the last step. -/
def outcomeHint (feedback : Option String) : String :=
  match nonBlank feedback with
  | none => ""
  | some feedback => "\n\nResult of the last step: " ++ feedback

/-- What a reasoning step is told besides its task. -/
def agenticHints (context : AgenticContext) : String :=
  titledLines "Current Knowledge Base:" context.program ++
  titledLines "Previous Reasoning Steps:" context.previousSteps ++
  (if context.bindings.isEmpty then "" else "\n\nAccumulated Bindings: " ++ context.bindings) ++
  ontologyHint context.terms ++ outcomeHint context.feedback

def agenticInstructions : String :=
  "You are an expert Prolog reasoner and agent. Break the task down into discrete Prolog " ++
  "queries or assertions, or reach a conclusion.\n" ++
  "Your output must be a JSON object with a \"type\" field (\"query\", \"assert\", or " ++
  "\"conclude\") and a \"content\" field (a Prolog query or clause for query/assert), or " ++
  "\"answer\" and \"explanation\" fields for conclude."

/-- What stands after the task. -/
def agenticExamples : String :=
  "Examples:\n" ++
  "- To query: \x7b\"type\": \"query\", \"content\": \"can_fly(X)\"\x7d\n" ++
  "- To assert: \x7b\"type\": \"assert\", \"content\": \"bird(tweety).\"\x7d\n" ++
  "- To conclude: \x7b\"type\": \"conclude\", \"answer\": \"Yes, Tweety can fly.\", " ++
  "\"explanation\": \"Tweety is a canary and canaries are birds.\"\x7d\n\n" ++
  "If you have sufficient information to answer the task, use \"conclude\" with a clear, " ++
  "concise answer and a brief explanation.\n\n" ++
  "What is the next logical step to address the original task?\nOutput:"

/-- Asks for the next action of a chain of reasoning. -/
def agentic (context : AgenticContext) : String :=
  agenticInstructions ++ agenticHints context ++
    "\n\nOriginal Task: \"" ++ context.task ++ "\"\n\n" ++ agenticExamples

/-! ## Fallback -/

/-- Asks for an answer where the program gives none. -/
def fallback (question knowledge : String) : String :=
  "The following Prolog knowledge base could not prove the query below.\n" ++
  "Answer the question as well as you can from the knowledge base, in one or two sentences.\n\n" ++
  "Knowledge Base:\n" ++ (if (Text.trim knowledge).isEmpty then "(empty)" else knowledge) ++
  "\n\nQuestion: " ++ question ++ "\nAnswer:"

end OntoLogic.Prompt
