-- SUMMARY: Solutions of a query.
import OntoLogic.Resolution.Search

/-!
# Solutions

A solution gives every visible variable of the query the written form of its value. Variables that
are left in a value are written `_`.
-/

namespace OntoLogic

/-- The value of one variable. -/
structure Binding where
  name : String
  value : String
  deriving Inhabited, DecidableEq

/-- The values of the visible variables, in the order of the query. -/
structure Solution where
  bindings : List Binding
  deriving Inhabited, DecidableEq

namespace Solution

def get? (s : Solution) (name : String) : Option String :=
  (s.bindings.find? (·.name == name)).map Binding.value

/-- The written form of a solution; one without variables only says that the query holds. -/
def text (s : Solution) : String :=
  if s.bindings.isEmpty then "true"
  else ", ".intercalate (s.bindings.map fun b => b.name ++ " = " ++ b.value)

/-- The solution that an answer of the search stands for. -/
def ofAnswer (names : List String) (s : Substitution) : Solution where
  bindings := names.map fun name => ⟨name, (s.resolve (.var name)).anonymize.text⟩

end Solution

/-- The solutions that a search found. -/
structure Solutions where
  solutions : List Solution
  /-- Whether a bound has cut the search short, so that there may be more solutions. -/
  truncated : Bool
  deriving Inhabited, DecidableEq

/-- The solutions of a query within bounds, in the order in which they are found. -/
def Theory.solve (theory : Theory) (bounds : Bounds) (query : Query) : Solutions :=
  let (flow, st) := Search.run theory bounds query
  { solutions := st.answers.reverse.map (Solution.ofAnswer query.visibleVars)
    truncated := st.truncated || flow == .stop }

end OntoLogic
