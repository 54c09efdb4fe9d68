-- SUMMARY: The written form of terms, goals, clauses and queries.
import OntoLogic.Clause
import OntoLogic.Text.Blank

/-!
# Written forms

An atom is written plain when it is a lower-case letter followed by letters, digits and underscores,
or when it is the empty list; any other name is quoted. A list is written in brackets, with a bar
before a tail that is not the empty list. A variable that stands for `_` in the text is written `_`.
-/

namespace OntoLogic

/-! ## Names -/

/-- A character that can follow the first one of a plain atom or a variable. -/
def isNameChar (c : Char) : Bool :=
  c.isAlphanum || c == '_'

/-- A lower-case letter followed by letters, digits and underscores, all of them ASCII. -/
def isPlainName (name : String) : Bool :=
  match name.toList with
  | [] => false
  | c :: cs => c.isLower && cs.all isNameChar

/-- The written form of the name of an atom or a compound. -/
def atomText (name : String) : String :=
  if isPlainName name || name == Term.nilName then name
  else "'" ++ Text.escape '\'' name ++ "'"

/-- The written form of a variable: one that stands for `_` has a name that starts with `_#`. -/
def varText (name : String) : String :=
  match name.toList with
  | '_' :: '#' :: _ => "_"
  | _ => name

/-! ## Terms -/

namespace Term

/-- Where a term stands: on its own, or as the rest of a list whose bracket is open. -/
inductive Place where
  | whole
  | rest

/-- What precedes a term that is not a list cell. -/
def Place.opening : Place → String
  | .whole => ""
  | .rest => "|"

mutual

/-- The written form of a term at a place. The rest of a list supplies its own separator, and
nothing is written for the empty list there. -/
def textAt : Place → Term → String
  | .whole, .atom name => atomText name
  | .rest, .atom name => if name == nilName then "" else "|" ++ atomText name
  | place, .var name => place.opening ++ varText name
  | place, .number spelling => place.opening ++ spelling
  | place, .string text => place.opening ++ "\"" ++ Text.escape '"' text ++ "\""
  | place, .compound name args =>
    match args with
    | [head, tail] =>
      if name == consName then
        match place with
        | .whole => "[" ++ textAt .whole head ++ textAt .rest tail ++ "]"
        | .rest => ", " ++ textAt .whole head ++ textAt .rest tail
      else
        place.opening ++ atomText name ++ "(" ++ textAt .whole head ++ ", " ++ textAt .whole tail
          ++ ")"
    | args => place.opening ++ atomText name ++ "(" ++ argsText args ++ ")"

/-- The written form of arguments: a comma and a space between each two. -/
def argsText : List Term → String
  | [] => ""
  | [t] => textAt .whole t
  | t :: ts => textAt .whole t ++ ", " ++ argsText ts

end

def text (t : Term) : String :=
  t.textAt .whole

end Term

instance : ToString Term := ⟨Term.text⟩

/-! ## Goals, clauses and queries -/

def Goal.text : Goal → String
  | .call t => t.text
  | .not g => "\\+ " ++ g.text
  | .unify l r => l.text ++ " = " ++ r.text
  | .notUnify l r => l.text ++ " \\= " ++ r.text

def Goal.conjunctionText (goals : List Goal) : String :=
  ", ".intercalate (goals.map Goal.text)

/-- The written form of a clause, which ends with a period. -/
def Clause.text (c : Clause) : String :=
  match c.body with
  | [] => c.head.text ++ "."
  | body => c.head.text ++ " :- " ++ Goal.conjunctionText body ++ "."

/-- The written form of a query, without a period. -/
def Query.text (q : Query) : String :=
  Goal.conjunctionText q.goals

end OntoLogic
