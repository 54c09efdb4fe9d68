-- SUMMARY: Tokens by which operations are called off.

/-!
# Cancellation

An operation watches a token and is called off when the token is cancelled. A token can have
children. They are cancelled with it, and a child of a cancelled token is cancelled from the start.
-/

namespace OntoLogic

/-- A token by its number, with the numbers of the tokens that it descends from. -/
structure CancellationToken where
  number : Nat
  ancestors : List Nat := []
  deriving Inhabited, DecidableEq

structure Cancellations where
  /-- How many tokens have been made. -/
  made : Nat := 0
  /-- The numbers of the tokens that have been cancelled themselves. -/
  cancelled : List Nat := []
  deriving Inhabited, DecidableEq

namespace Cancellations

/-- A new token without ancestors. -/
def make (c : Cancellations) : CancellationToken × Cancellations :=
  (⟨c.made, []⟩, { c with made := c.made + 1 })

def child (parent : CancellationToken) (c : Cancellations) : CancellationToken × Cancellations :=
  (⟨c.made, parent.number :: parent.ancestors⟩, { c with made := c.made + 1 })

def cancel (token : CancellationToken) (c : Cancellations) : Cancellations :=
  { c with cancelled := token.number :: c.cancelled }

/-- Whether a token has been cancelled, itself or with one that it descends from. -/
def isCancelled (token : CancellationToken) (c : Cancellations) : Bool :=
  (token.number :: token.ancestors).any c.cancelled.contains

end Cancellations

end OntoLogic
