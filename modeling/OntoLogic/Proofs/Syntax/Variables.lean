-- SUMMARY: The variables and calls of texts that have been read, and the names of copies of variables.
import Mathlib.Data.List.TakeWhile
import OntoLogic.Proofs.Term.Basic
import OntoLogic.Syntax.Parser
import Std.Data.String.ToNat

/-!
# What is read from a text

A variable that is read has the name that stands in the text, which has no `#` and is not `_`, or it
is one of the anonymous variables of the text. So it is not the copy of any such variable. Heads of
clauses and goals that are calls can be called.

A condition on the result of a reader is carried through its steps; what is left to read keeps the
names of the text.
-/

namespace OntoLogic

/-! ## Results -/

/-- A result is an error or meets a condition. -/
def Ensures {ε α : Type} (post : α → Prop) (r : Except ε α) : Prop :=
  ∀ a, r = .ok a → post a

namespace Ensures

variable {ε α β : Type} {P : α → Prop} {Q : β → Prop} {r : Except ε α}

theorem error (e : ε) : Ensures P (.error e : Except ε α) := nofun

theorem ok {a : α} (h : P a) : Ensures P (.ok a : Except ε α) := by
  rintro _ ⟨⟩
  exact h

theorem bind {f : α → Except ε β} (h : Ensures P r) (hf : ∀ a, P a → Ensures Q (f a)) :
    Ensures Q (r >>= f) := by
  cases r with
  | error e => exact error e
  | ok a => exact hf a (h a rfl)

end Ensures

theorem isOk_iff {ε α : Type} {r : Except ε α} : r.isOk = true ↔ ∃ a, r = .ok a := by
  cases r <;> simp [Except.isOk, Except.toBool]

theorem eq_ok_getD {ε α : Type} {r : Except ε α} (h : r.isOk = true) (fallback : α) :
    r = .ok (r.toOption.getD fallback) := by
  obtain ⟨a, rfl⟩ := isOk_iff.mp h
  rfl

theorem map_eq_ok {ε α β : Type} {r : Except ε α} {f : α → β} {b : β} :
    r.map f = .ok b ↔ ∃ a, r = .ok a ∧ f a = b := by
  cases r <;> simp [Except.map]

theorem map_eq_error {ε α β : Type} {r : Except ε α} {f : α → β} {e : ε} :
    r.map f = .error e ↔ r = .error e := by
  cases r <;> simp [Except.map]

/-! ## Tokens -/

/-- A name without the sign that numbers copies. -/
def IsPlain (name : String) : Prop :=
  '#' ∉ name.toList

namespace Token

/-- A token that is no variable with a numbered name. -/
def Plain (token : Token) : Prop :=
  ∀ name, token = .var name → IsPlain name

theorem quoted_plain {quote : Char} {item : String} {make : String → Token} {offset : Nat}
    {cs : List Char} (hmake : ∀ text, (make text).Plain) :
    Ensures (fun p => p.1.Plain) (quoted quote item make offset cs) := by
  unfold quoted
  split
  · exact .ok (hmake _)
  · exact .error _

theorem isPlain_name {c : Char} {cs : List Char} (hc : c ≠ '#') :
    IsPlain (String.ofList (c :: cs.takeWhile isNameChar)) := by
  simp only [IsPlain, String.toList_ofList, List.mem_cons, not_or]
  refine ⟨hc.symm, ?_⟩
  intro hmem
  exact absurd (List.mem_takeWhile_imp hmem) (by decide)

theorem lexeme_plain (offset : Nat) (c : Char) (cs : List Char) :
    Ensures (fun p => p.1.Plain) (lexeme offset c cs) := by
  have hother : ∀ {token : Token} {n : Nat}, (∀ name, token ≠ .var name) →
      Ensures (fun p : Token × Nat => p.1.Plain) (.ok (token, n) : Except ParseError _) :=
    fun h => .ok fun name hname => absurd hname (h name)
  have hunexpected : Ensures (fun p : Token × Nat => p.1.Plain)
      (.error (ParseError.unexpectedChar c offset)) := .error _
  unfold lexeme
  dsimp only
  split
  case h_12 | h_13 => exact quoted_plain fun text name => nofun
  case h_14 =>
    split
    · exact hother nofun
    split
    · exact hother nofun
    split
    · next hupper =>
      refine .ok ?_
      intro name hname
      cases hname
      exact isPlain_name fun hc => by subst hc; exact absurd hupper (by decide)
    · exact hunexpected
  all_goals
    repeat' split
    all_goals first
      | exact hunexpected
      | exact hother nofun

/-- What holds of every token that can be recognised holds of all tokens of a text. -/
theorem scanFrom_forall {P : Token → Prop}
    (h : ∀ offset c cs, Ensures (fun p => P p.1) (lexeme offset c cs)) (skip offset : Nat)
    (cs : List Char) : Ensures (fun tokens => ∀ p ∈ tokens, P p.1) (scanFrom skip offset cs) := by
  induction cs generalizing skip offset with
  | nil => exact .ok (by simp)
  | cons c cs ih =>
    unfold scanFrom
    split
    · next heq => cases heq
    · next heq => cases heq; exact ih _ _
    · next heq =>
      cases heq
      split
      · exact ih _ _
      split
      · exact ih _ _
      split
      · exact .error _
      · next htoken =>
        split
        · exact .error _
        · next hrest =>
          have htokens := ih _ _ _ hrest
          exact .ok (List.forall_mem_cons.mpr ⟨(h _ _ _ _ htoken :), htokens⟩)

theorem scanFrom_plain (skip offset : Nat) (cs : List Char) :
    Ensures (fun tokens => ∀ p ∈ tokens, p.1.Plain) (scanFrom skip offset cs) :=
  scanFrom_forall lexeme_plain skip offset cs

end Token

/-! ## Terms and goals -/

/-- The name of a variable of a text: one that stands in the text or an anonymous one. -/
def IsSource (name : String) : Prop :=
  (IsPlain name ∧ name ≠ "_") ∨ ∃ n, name = Cursor.anonymousName n

/-- All variables of a term are variables of a text. -/
def Term.FromText (t : Term) : Prop :=
  ∀ x ∈ t.occurrences, IsSource x

/-- Whether the term of a call has a predicate. -/
def Goal.isCallable : Goal → Bool
  | .call t => t.functor?.isSome
  | .not g => g.isCallable
  | .unify _ _ | .notUnify _ _ => true

/-- A goal whose variables are those of a text and whose calls have a predicate. -/
structure Goal.FromText (g : Goal) : Prop where
  isCallable : g.isCallable = true
  isSource : ∀ x ∈ g.occurrences, IsSource x

theorem Goal.isCallable_subst {f : String → Term} {g : Goal} (h : g.isCallable = true) :
    (g.subst f).isCallable = true := by
  induction g with
  | call t => exact (congrArg Option.isSome (Term.isSome_functor?_subst h)).trans h
  | not g ih => exact ih h
  | unify l r | notUnify l r => rfl

theorem Term.FromText.compound {name : String} {args : List Term} (h : ∀ a ∈ args, a.FromText) :
    (Term.compound name args).FromText := by
  intro x hx
  obtain ⟨a, ha, hxa⟩ := List.mem_flatMap.mp (Term.occurrences_compound name args ▸ hx)
  exact h a ha x hxa

theorem Term.FromText.list {items : List Term} {tail : Term} (h : ∀ a ∈ items, a.FromText)
    (htail : tail.FromText) : (Term.list items tail).FromText := by
  induction items with
  | nil => exact htail
  | cons item items ih =>
    obtain ⟨hitem, hitems⟩ := List.forall_mem_cons.mp h
    refine .compound ?_
    intro a ha
    rcases List.mem_pair.mp ha with rfl | rfl
    · exact hitem
    · exact ih hitems

namespace Cursor

/-- No numbered name is left to read. -/
def Plain (c : Cursor) : Prop :=
  ∀ p ∈ c.tokens, p.1.Plain

/-- Something that meets a condition has been read, and no numbered name is left. -/
def Reads {α : Type} (P : α → Prop) (p : α × Cursor) : Prop :=
  P p.1 ∧ p.2.Plain

variable {c c' : Cursor} {token : Token}

theorem Plain.eat (hc : c.Plain) (h : c.eat token = some c') : c'.Plain := by
  unfold Cursor.eat at h
  split at h
  · cases h
  · next heq =>
    split at h
    · cases h
      exact fun p hp => hc p (heq ▸ List.mem_cons_of_mem _ hp)
    · cases h

theorem Plain.expect (hc : c.Plain) (what : String) : Ensures Plain (c.expect token what) := by
  unfold Cursor.expect
  split
  · next heq => exact .ok (hc.eat heq)
  · exact .error _

section Sequence

variable {α : Type} {P : α → Prop} {item : Cursor → Except ParseError (α × Cursor)}

theorem Plain.sequenceUpTo (hitem : ∀ c, c.Plain → Ensures (Reads P) (item c)) (hc : c.Plain)
    (limit : Nat) : Ensures (Reads fun xs => ∀ x ∈ xs, P x) (c.sequenceUpTo item limit) := by
  induction limit generalizing c with
  | zero => exact .error _
  | succ limit ih =>
    unfold Cursor.sequenceUpTo
    split
    · exact .error _
    · next x c₁ hx =>
      obtain ⟨hp, hc₁⟩ : P x ∧ c₁.Plain := hitem c hc _ hx
      split
      · exact .ok ⟨by simpa using hp, hc₁⟩
      · next c₂ heat =>
        split
        · exact .error _
        · next xs c₃ hxs =>
          obtain ⟨hps, hc₃⟩ := ih (hc₁.eat heat) _ hxs
          exact .ok ⟨List.forall_mem_cons.mpr ⟨hp, hps⟩, hc₃⟩

theorem Plain.sequence (hitem : ∀ c, c.Plain → Ensures (Reads P) (item c)) (hc : c.Plain) :
    Ensures (Reads fun xs => ∀ x ∈ xs, P x) (c.sequence item) :=
  hc.sequenceUpTo hitem _

end Sequence

theorem Plain.term (hc : c.Plain) (levels : Nat) :
    Ensures (Reads Term.FromText) (c.term levels) := by
  induction levels generalizing c with
  | zero => exact .error _
  | succ levels ih =>
    unfold Cursor.term
    split
    · exact .error _
    · next token offset rest heq =>
      have htokens : ∀ p ∈ (token, offset) :: rest, p.1.Plain := fun p hp => hc p (heq ▸ hp)
      obtain ⟨htoken, hrest⟩ := List.forall_mem_cons.mp htokens
      have hnext : Plain { c with tokens := rest } := hrest
      dsimp only
      split
      · -- an atom or a compound
        split
        · exact .ok ⟨nofun, hnext⟩
        · next c₁ heat =>
          refine ((hnext.eat heat).sequence fun c hc => ih hc).bind ?_
          intro p hp
          refine (hp.2.expect _).bind fun c₂ hc₂ => .ok ⟨.compound hp.1, hc₂⟩
      · next name =>
        split
        · exact .ok ⟨by simpa [Term.FromText] using .inr ⟨_, rfl⟩, hrest⟩
        · next hne => exact .ok ⟨by simpa [Term.FromText] using .inl ⟨htoken _ rfl, hne⟩, hnext⟩
      · exact .ok ⟨nofun, hnext⟩
      · exact .ok ⟨nofun, hnext⟩
      · -- a list
        split
        · next c₁ heat => exact .ok ⟨nofun, hnext.eat heat⟩
        · refine (hnext.sequence fun c hc => ih hc).bind ?_
          intro items hitems
          split
          · next c₁ heat =>
            refine (ih (hitems.2.eat heat)).bind ?_
            intro tail htail
            exact (htail.2.expect _).bind fun c₂ hc₂ => .ok ⟨.list hitems.1 htail.1, hc₂⟩
          · exact (hitems.2.expect _).bind fun c₂ hc₂ => .ok ⟨.list hitems.1 nofun, hc₂⟩
      · -- a term in parentheses
        refine (ih hnext).bind ?_
        intro inner hinner
        exact (hinner.2.expect _).bind fun c₂ hc₂ => .ok ⟨hinner.1, hc₂⟩
      · exact .error _

theorem Plain.plainGoal (hc : c.Plain) (levels : Nat) :
    Ensures (Reads Goal.FromText) (c.plainGoal levels) := by
  unfold Cursor.plainGoal
  refine (hc.term levels).bind ?_
  intro left hleft
  dsimp only
  split
  · next c₁ heat =>
    refine ((hleft.2.eat heat).term levels).bind ?_
    intro right hright
    exact .ok ⟨⟨rfl, List.forall_mem_append.mpr ⟨hleft.1, hright.1⟩⟩, hright.2⟩
  · split
    · next c₁ heat =>
      refine ((hleft.2.eat heat).term levels).bind ?_
      intro right hright
      exact .ok ⟨⟨rfl, List.forall_mem_append.mpr ⟨hleft.1, hright.1⟩⟩, hright.2⟩
    · split
      · next hcallable => exact .ok ⟨⟨hcallable, hleft.1⟩, hleft.2⟩
      · exact .error _

theorem Plain.goal (hc : c.Plain) (levels : Nat) :
    Ensures (Reads Goal.FromText) (c.goal levels) := by
  induction levels generalizing c with
  | zero =>
    unfold Cursor.goal
    split
    · exact .error _
    · exact hc.plainGoal 0
  | succ levels ih =>
    unfold Cursor.goal
    split
    · next c₁ heat =>
      exact (ih (hc.eat heat)).bind fun inner hinner => .ok ⟨⟨hinner.1.1, hinner.1.2⟩, hinner.2⟩
    · exact hc.plainGoal _

theorem Plain.goals (hc : c.Plain) : Ensures (Reads fun gs => ∀ g ∈ gs, g.FromText) c.goals :=
  hc.sequence fun _ hc => hc.goal _

/-! ## Whole texts -/

theorem ofText_plain (text : String) : Ensures Plain (ofText text) := by
  unfold ofText Token.scan
  refine (Token.scanFrom_plain 0 0 text.toList).bind ?_
  intro tokens htokens
  dsimp only
  split
  · exact .error _
  · exact .ok htokens

end Cursor

/-- A clause whose head can be called and whose variables and body are those of a text. -/
structure Clause.FromText (c : Clause) : Prop where
  callable : c.head.functor?.isSome
  head : c.head.FromText
  body : ∀ g ∈ c.body, g.FromText

theorem Clause.parse_fromText (text : String) : Ensures Clause.FromText (Clause.parse text) := by
  refine (Cursor.ofText_plain text).bind ?_
  intro c hc
  unfold Cursor.clause
  refine (hc.term maxNesting).bind ?_
  intro head hhead
  dsimp only
  split
  · exact .error _
  · next hcallable =>
    have hbody : Ensures (Cursor.Reads fun gs => ∀ g ∈ gs, g.FromText) head.2.body := by
      unfold Cursor.body
      split
      · exact .ok ⟨by simp, hhead.2⟩
      · next heat =>
        split
        · exact .error _
        · exact (hhead.2.eat heat).goals
    refine hbody.bind ?_
    intro body hbody
    refine .bind (P := fun _ => True) (fun _ _ => trivial) ?_
    intro _ _
    refine .bind (P := fun _ => True) (fun _ _ => trivial) ?_
    intro _ _
    exact .ok ⟨by simpa [Option.isSome_iff_ne_none] using hcallable, hhead.1, hbody.1⟩

theorem Query.parse_fromText (text : String) :
    Ensures (fun q => ∀ g ∈ q.goals, g.FromText) (Query.parse text) := by
  refine (Cursor.ofText_plain text).bind ?_
  intro c hc
  unfold Cursor.query
  refine hc.goals.bind ?_
  intro goals hgoals
  exact .bind (P := fun _ => True) (fun _ _ => trivial) fun _ _ => .ok hgoals.1

/-! ## Names of copies -/

theorem isPlain_repr (n : Nat) : IsPlain (Nat.repr n) := by
  intro h
  rw [Nat.toList_repr] at h
  exact absurd (Nat.isDigit_of_mem_toDigits (by decide) (by decide) h) (by decide)

/-- The last `#` of a list says where the list is cut. -/
theorem append_cons_inj {α : Type} {a : α} {xs ys us vs : List α} (hxs : a ∉ xs) (hys : a ∉ ys)
    (h : us ++ a :: xs = vs ++ a :: ys) : us = vs ∧ xs = ys := by
  rcases List.append_eq_append_iff.mp h with ⟨ws, rfl, hws⟩ | ⟨ws, rfl, hws⟩
  · cases ws with
    | nil => simp_all
    | cons w ws =>
      obtain ⟨rfl, rfl⟩ := List.cons_eq_cons.mp (List.cons_append ▸ hws)
      exact absurd (List.mem_append_right ws List.mem_cons_self) hxs
  · cases ws with
    | nil => simp_all
    | cons w ws =>
      obtain ⟨rfl, rfl⟩ := List.cons_eq_cons.mp (List.cons_append ▸ hws)
      exact absurd (List.mem_append_right ws List.mem_cons_self) hys

theorem toList_suffixed (x : String) (k : Nat) :
    (Term.suffixed x k).toList = x.toList ++ '#' :: (Nat.repr k).toList := by
  simp [Term.suffixed, String.toList_append]

/-- Copies of variables with one name are copies of one variable. -/
theorem suffixed_inj {x y : String} {j k : Nat} (h : Term.suffixed x j = Term.suffixed y k) :
    x = y ∧ j = k := by
  have hlist := congrArg String.toList h
  rw [toList_suffixed, toList_suffixed] at hlist
  obtain ⟨hname, hnumber⟩ := append_cons_inj (isPlain_repr j) (isPlain_repr k) hlist
  exact ⟨String.toList_inj.mp hname, Nat.repr_injective (String.toList_inj.mp hnumber)⟩

theorem not_isPlain_suffixed (x : String) (k : Nat) : ¬IsPlain (Term.suffixed x k) := by
  simp [IsPlain, toList_suffixed]

theorem IsSource.ne_underscore {x : String} (h : IsSource x) : x ≠ "_" := by
  rcases h with ⟨-, h⟩ | ⟨n, rfl⟩
  · exact h
  · intro heq
    refine not_isPlain_suffixed "_" n ?_
    show IsPlain (Cursor.anonymousName n)
    rw [heq]
    simp [IsPlain]

/-- A variable of a text is not the copy of one. -/
theorem IsSource.ne_suffixed {x y : String} (h : IsSource x) (hy : IsSource y) (k : Nat) :
    x ≠ Term.suffixed y k := by
  rintro rfl
  rcases h with ⟨h, -⟩ | ⟨n, h⟩
  · exact not_isPlain_suffixed y k h
  · exact hy.ne_underscore (suffixed_inj (k := n) h).1

end OntoLogic
