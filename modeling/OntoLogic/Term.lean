-- SUMMARY: First-order terms: construction, variables, substitution, renaming.

/-!
# Terms

A term is an atom, a variable, a number in the spelling it was written with, a quoted string, or a
compound of a name and arguments. A list is not a constructor of its own: the list with items
`t₁, …, tₙ` and tail `t` is a chain of compounds named `[|]` with two arguments each, and the
proper list ends in the atom `[]`.

Functions that walk a term come in pairs, one for a term and one for a list of arguments.
-/

namespace OntoLogic

/-- A first-order term. -/
inductive Term where
  | atom (name : String)
  | var (name : String)
  | number (spelling : String)
  | string (text : String)
  | compound (name : String) (args : List Term)
  deriving Inhabited

namespace Term

/-! ## Equality -/

mutual

def decEq : (s t : Term) → Decidable (s = t)
  | .atom a, .atom b => if h : a = b then isTrue (h ▸ rfl) else isFalse (by simp [h])
  | .var a, .var b => if h : a = b then isTrue (h ▸ rfl) else isFalse (by simp [h])
  | .number a, .number b => if h : a = b then isTrue (h ▸ rfl) else isFalse (by simp [h])
  | .string a, .string b => if h : a = b then isTrue (h ▸ rfl) else isFalse (by simp [h])
  | .compound f ss, .compound g ts =>
    if h : f = g then
      match decEqList ss ts with
      | isTrue h' => isTrue (by simp [h, h'])
      | isFalse h' => isFalse (by simp [h'])
    else isFalse (by simp [h])
  | .atom _, .var _ | .atom _, .number _ | .atom _, .string _ | .atom _, .compound _ _
  | .var _, .atom _ | .var _, .number _ | .var _, .string _ | .var _, .compound _ _
  | .number _, .atom _ | .number _, .var _ | .number _, .string _ | .number _, .compound _ _
  | .string _, .atom _ | .string _, .var _ | .string _, .number _ | .string _, .compound _ _
  | .compound _ _, .atom _ | .compound _ _, .var _ | .compound _ _, .number _
  | .compound _ _, .string _ => isFalse (by simp)

def decEqList : (ss ts : List Term) → Decidable (ss = ts)
  | [], [] => isTrue rfl
  | s :: ss, t :: ts =>
    match decEq s t with
    | isTrue h =>
      match decEqList ss ts with
      | isTrue h' => isTrue (by simp [h, h'])
      | isFalse h' => isFalse (by simp [h'])
    | isFalse h => isFalse (by simp [h])
  | [], _ :: _ | _ :: _, [] => isFalse (by simp)

end

instance : DecidableEq Term := decEq

/-! ## Lists -/

/-- The name of a list cell. -/
def consName : String := "[|]"

/-- The name of the empty list. -/
def nilName : String := "[]"

def nil : Term := .atom nilName

/-- The list of `items` that ends in `tail`. -/
def list (items : List Term) (tail : Term) : Term :=
  items.foldr (fun item rest => .compound consName [item, rest]) tail

/-! ## Functor and arguments -/

/-- The name and arity of an atom or a compound; other terms cannot be called. -/
def functor? : Term → Option (String × Nat)
  | .atom name => some (name, 0)
  | .compound name args => some (name, args.length)
  | _ => none

/-- The arguments of a compound; other terms have none. -/
def args : Term → List Term
  | .compound _ args => args
  | _ => []

/-! ## Size -/

mutual

/-- The number of constructors of a term. -/
def size : Term → Nat
  | .compound _ args => sizeList args + 1
  | _ => 1

def sizeList : List Term → Nat
  | [] => 0
  | t :: ts => size t + sizeList ts

end

/-! ## Variables -/

mutual

/-- The variable occurrences of a term, left to right. -/
def occurrences : Term → List String
  | .var name => [name]
  | .compound _ args => occurrencesList args
  | _ => []

def occurrencesList : List Term → List String
  | [] => []
  | t :: ts => occurrences t ++ occurrencesList ts

end

/-- The variables of a term, each once, in order of first appearance. -/
def vars (t : Term) : List String :=
  t.occurrences.eraseDups

/-! ## Substitution -/

mutual

/-- Replaces every variable of a term. -/
def subst (f : String → Term) : Term → Term
  | .var name => f name
  | .compound name args => .compound name (substList f args)
  | .atom name => .atom name
  | .number spelling => .number spelling
  | .string text => .string text

def substList (f : String → Term) : List Term → List Term
  | [] => []
  | t :: ts => subst f t :: substList f ts

end

/-- The name of a variable in the copy of a clause with the number `suffix`. -/
def suffixed (name : String) (suffix : Nat) : String :=
  name ++ "#" ++ toString suffix

/-- Gives every variable of a term the number `suffix`. -/
def rename (suffix : Nat) (t : Term) : Term :=
  t.subst fun name => .var (suffixed name suffix)

/-- Replaces every variable of a term by the anonymous one. -/
def anonymize (t : Term) : Term :=
  t.subst fun _ => .var "_"

end Term

end OntoLogic
