-- SUMMARY: Variable bindings and unification.
import OntoLogic.Term
import Std.Data.TreeMap

/-!
# Substitutions and unification

A substitution binds variables to terms. Bindings are kept as they were made: a bound term may hold
variables that are bound themselves, so looking at a term through the substitution follows bindings
until it meets an unbound variable. Because a variable is never bound to a term that contains it, no
binding is met twice on one path, and the number of bindings limits how often a path can be
followed.

Unification goes through two terms side by side and binds variables where they differ. When it
fails, the bindings made before the failure stay.
-/

namespace OntoLogic

structure Substitution where
  /-- The bindings as they were made. -/
  bindings : Std.TreeMap String Term
  /-- The total size of the bound terms. -/
  weight : Nat

namespace Substitution

/-! ## Bindings -/

def empty : Substitution where
  bindings := ∅
  weight := 0

instance : EmptyCollection Substitution := ⟨empty⟩

instance : Inhabited Substitution := ⟨empty⟩

/-- The term that a variable is bound to. -/
def get? (s : Substitution) (x : String) : Option Term :=
  s.bindings[x]?

def size (s : Substitution) : Nat :=
  s.bindings.size

/-- Adds a binding of a variable that has none. -/
def insert (s : Substitution) (x : String) (t : Term) : Substitution where
  bindings := s.bindings.insert x t
  weight := s.weight + t.size

/-! ## Looking through the bindings -/

/-- Follows at most `steps` bindings from a term. -/
def walkUpTo (s : Substitution) : (steps : Nat) → Term → Term
  | steps + 1, .var x =>
    match s.get? x with
    | none => .var x
    | some t => walkUpTo s steps t
  | _, t => t

/-- Follows bindings from a term to an unbound variable or to a term that is no variable. -/
def walk (s : Substitution) (t : Term) : Term :=
  s.walkUpTo s.size t

/-- Replaces bound variables on paths through at most `steps` bindings. -/
def resolveUpTo (s : Substitution) : (steps : Nat) → Term → Term
  | 0, t => t
  | steps + 1, t =>
    t.subst fun x =>
      match s.get? x with
      | none => .var x
      | some t => resolveUpTo s steps t

/-- Replaces every bound variable of a term. -/
def resolve (s : Substitution) (t : Term) : Term :=
  s.resolveUpTo s.size t

/-- Whether a variable occurs in a term seen through at most `steps` bindings on a path. -/
def occursUpTo (s : Substitution) (x : String) : (steps : Nat) → Term → Bool
  | 0, t => t.occurrences.contains x
  | steps + 1, t =>
    t.occurrences.any fun y =>
      match s.get? y with
      | none => y == x
      | some t => occursUpTo s x steps t

/-- Whether a variable occurs in a term seen through the bindings. -/
def occurs (s : Substitution) (x : String) (t : Term) : Bool :=
  s.occursUpTo x s.size t

/-! ## Unification -/

/-- Binds an unbound variable, unless it occurs in the term. -/
def bind (s : Substitution) (x : String) (t : Term) : Bool × Substitution :=
  if s.occurs x t then (false, s) else (true, s.insert x t)

/-- Unifies two lists of arguments from left to right and stops at the first failure. -/
def unifyArgs (unify : Substitution → Term → Term → Bool × Substitution) :
    Substitution → List Term → List Term → Bool × Substitution
  | s, l :: ls, r :: rs =>
    match unify s l r with
    | (true, s) => unifyArgs unify s ls rs
    | (false, s) => (false, s)
  | s, _, _ => (true, s)

/-- Unifies two terms that differ in at most `levels` nested compounds. -/
def unifyUpTo : (levels : Nat) → Substitution → Term → Term → Bool × Substitution
  | 0, s, _, _ => (false, s)
  | levels + 1, s, l, r =>
    match s.walk l, s.walk r with
    | .var x, .var y => if x = y then (true, s) else s.bind x (.var y)
    | .var x, r => s.bind x r
    | l, .var y => s.bind y l
    | .compound f ls, .compound g rs =>
      if f = g ∧ ls.length = rs.length then unifyArgs (unifyUpTo levels) s ls rs else (false, s)
    | l, r => (l == r, s)

/-- Unifies two terms: whether they unify, and the bindings afterwards.

Every level of nesting meets another subterm of the two terms or of a bound term, so their total
size is a limit for the levels. -/
def unify (s : Substitution) (l r : Term) : Bool × Substitution :=
  unifyUpTo (s.weight + l.size + r.size + 1) s l r

end Substitution

end OntoLogic
