-- SUMMARY: What is read depends on the tokens alone; their positions only show in errors.
import OntoLogic.Proofs.Syntax.Derivation

/-!
# Reading without positions

A cursor knows where each of its tokens starts and how long the text is, and a reader uses this for
the position of an error and for nothing else. So each reader commutes with taking the positions
away, and texts with the same tokens are read as the same clause or query, or not read because of
the same error at places that correspond.
-/

namespace OntoLogic

/-- The error without the position it points at. -/
def ParseError.unplaced : ParseError → ParseError
  | .unexpectedChar c _ => .unexpectedChar c 0
  | .unterminated item _ => .unterminated item 0
  | .expected what found _ => .expected what found 0
  | .tooDeep _ => .tooDeep 0
  | e => e

/-- A result with the position taken from its error, and something else taken from its value. -/
def unplacing {α β : Type} (f : α → β) : Except ParseError α → Except ParseError β
  | .ok a => .ok (f a)
  | .error e => .error e.unplaced

section Results

variable {α β γ δ : Type} {f : α → β} {g : γ → δ} {r : Except ParseError α}

@[simp] theorem unplacing_ok (a : α) : unplacing f (.ok a) = .ok (f a) := rfl

@[simp] theorem unplacing_error (e : ParseError) : unplacing f (.error e) = .error e.unplaced := rfl

theorem unplacing_bind {k : α → Except ParseError γ} {k' : β → Except ParseError δ}
    (h : ∀ a, k' (f a) = unplacing g (k a)) : unplacing f r >>= k' = unplacing g (r >>= k) := by
  cases r with
  | error e => rfl
  | ok a => exact h a

theorem unplacing_id : unplacing id r = r.mapError ParseError.unplaced := by
  cases r <;> rfl

end Results

namespace Cursor

/-- A cursor whose tokens stand nowhere. -/
def unplaced (c : Cursor) : Cursor where
  tokens := c.tokens.map fun p => (p.1, 0)
  endOffset := 0
  anonymous := c.anonymous

/-- What has been read, and what is left without positions. -/
def unplacedRest {α : Type} (p : α × Cursor) : α × Cursor :=
  (p.1, p.2.unplaced)

variable {c c' : Cursor}

/-! ## Single tokens -/

theorem offset_unplaced (c : Cursor) : c.unplaced.offset = 0 := by
  unfold offset unplaced
  cases c.tokens <;> rfl

theorem found_unplaced (c : Cursor) : c.unplaced.found = c.found := by
  unfold found unplaced
  cases c.tokens <;> rfl

theorem expected_unplaced (c : Cursor) (what : String) :
    c.unplaced.expected what = (c.expected what).unplaced := by
  rw [expected, expected, offset_unplaced, found_unplaced]
  rfl

theorem isEmpty_unplaced (c : Cursor) : c.unplaced.tokens.isEmpty = c.tokens.isEmpty :=
  List.isEmpty_map

theorem eat_unplaced (c : Cursor) (token : Token) :
    c.unplaced.eat token = (c.eat token).map unplaced := by
  obtain ⟨tokens, endOffset, anonymous⟩ := c
  cases tokens with
  | nil => rfl
  | cons p tokens =>
    simp only [eat, unplaced, List.map_cons]
    split <;> rfl

theorem expect_unplaced (c : Cursor) (token : Token) (what : String) :
    c.unplaced.expect token what = unplacing unplaced (c.expect token what) := by
  rw [expect, expect, eat_unplaced, expected_unplaced]
  cases c.eat token <;> rfl

theorem finish_unplaced (c : Cursor) : c.unplaced.finish = unplacing id c.finish := by
  rw [finish, finish, isEmpty_unplaced, expected_unplaced]
  split <;> rfl

/-! ## Readers -/

/-- A reader uses positions for errors only. -/
def Unplaced {α : Type} (item : Cursor → Except ParseError (α × Cursor)) : Prop :=
  ∀ c, item c.unplaced = unplacing unplacedRest (item c)

section Sequence

variable {α : Type} {item : Cursor → Except ParseError (α × Cursor)}

theorem Unplaced.sequenceUpTo (h : Unplaced item) (limit : Nat) :
    Unplaced (Cursor.sequenceUpTo item limit) := by
  induction limit with
  | zero => exact fun c => congrArg Except.error (expected_unplaced c "a term")
  | succ limit ih =>
    intro c
    unfold Cursor.sequenceUpTo
    rw [h c]
    cases item c with
    | error e => rfl
    | ok p =>
      obtain ⟨x, c₁⟩ := p
      simp only [unplacing_ok, unplacedRest, eat_unplaced]
      cases c₁.eat .comma with
      | none => rfl
      | some c₂ =>
        simp only [Option.map_some, ih c₂]
        cases Cursor.sequenceUpTo item limit c₂ <;> rfl

theorem Unplaced.sequence (h : Unplaced item) : Unplaced (Cursor.sequence item) := by
  intro c
  have hlength : c.unplaced.tokens.length = c.tokens.length := List.length_map ..
  rw [Cursor.sequence, hlength]
  exact h.sequenceUpTo _ c

end Sequence

/-! ## Terms and goals -/

/-- What stands in brackets is read up to the closing one. -/
theorem close_unplaced {α : Type} (c : Cursor) (token : Token) (what : String) (a : α) :
    (do let c ← c.unplaced.expect token what; pure (a, c)) =
      unplacing unplacedRest (do let c ← c.expect token what; pure (a, c)) := by
  rw [expect_unplaced]
  exact unplacing_bind fun _ => rfl

theorem term_unplaced (levels : Nat) : Unplaced (term levels) := by
  induction levels with
  | zero =>
    intro c
    rw [term, term, offset_unplaced]
    rfl
  | succ levels ih =>
    intro c
    have hitems := ih.sequence
    have hexpected := expected_unplaced c "a term"
    obtain ⟨tokens, endOffset, anonymous⟩ := c
    cases tokens with
    | nil => rfl
    | cons p tokens =>
      obtain ⟨token, offset⟩ := p
      -- the same token is next, and `next` without positions is what is left without positions
      let next : Cursor := ⟨tokens, endOffset, anonymous⟩
      have heat (token : Token) : eat ⟨tokens.map fun p => (p.1, 0), 0, anonymous⟩ token =
        (next.eat token).map unplaced := eat_unplaced next token
      cases token with
      | atom name =>
        simp only [term, unplaced, List.map_cons]
        rw [heat]
        cases next.eat .leftParen with
        | none => rfl
        | some c₁ =>
          dsimp only [Option.map_some]
          rw [hitems c₁]
          exact unplacing_bind fun p => close_unplaced p.2 ..
      | leftBracket =>
        simp only [term, unplaced, List.map_cons]
        rw [heat]
        cases next.eat .rightBracket with
        | some c₁ => rfl
        | none =>
          dsimp only [Option.map_none]
          change (Cursor.sequence (term levels) next.unplaced >>= _) = _
          rw [hitems next]
          refine unplacing_bind fun p => ?_
          obtain ⟨items, c₁⟩ := p
          simp only [unplacedRest, eat_unplaced]
          cases c₁.eat .bar with
          | none => exact close_unplaced c₁ ..
          | some c₂ =>
            dsimp only [Option.map_some]
            rw [ih c₂]
            exact unplacing_bind fun p => close_unplaced p.2 ..
      | leftParen =>
        simp only [term, unplaced, List.map_cons]
        change (term levels next.unplaced >>= _) = _
        rw [ih next]
        exact unplacing_bind fun p => close_unplaced p.2 ..
      | var name =>
        simp only [term, unplaced, List.map_cons]
        split <;> rfl
      | number spelling | string text => rfl
      | _ => exact congrArg Except.error hexpected

/-- What has been read before a term makes a goal of it. -/
theorem make_unplaced (levels : Nat) (c : Cursor) (make : Term → Goal) :
    (do let (right, c) ← c.unplaced.term levels; pure (make right, c)) =
      unplacing unplacedRest (do let (right, c) ← c.term levels; pure (make right, c)) := by
  rw [term_unplaced levels c]
  exact unplacing_bind fun _ => rfl

/-- No error of a goal has a position but those of its terms. -/
theorem plainGoal_unplaced (levels : Nat) : Unplaced (plainGoal levels) := by
  intro c
  rw [plainGoal, plainGoal, term_unplaced levels c]
  refine unplacing_bind fun p => ?_
  obtain ⟨left, c₁⟩ := p
  simp only [unplacedRest, eat_unplaced]
  cases c₁.eat .eq with
  | some c₂ => exact make_unplaced levels c₂ (.unify left)
  | none =>
    cases c₁.eat .notEq with
    | some c₂ => exact make_unplaced levels c₂ (.notUnify left)
    | none =>
      by_cases hcallable : left.functor?.isSome = true
      · simp [hcallable, pure, Except.pure, unplacedRest]
      · simp [hcallable, throw, throwThe, MonadExceptOf.throw, ParseError.unplaced]

theorem goal_unplaced (levels : Nat) : Unplaced (goal levels) := by
  induction levels with
  | zero =>
    intro c
    rw [goal, goal, eat_unplaced]
    cases c.eat .not with
    | some c₁ =>
      dsimp only [Option.map_some]
      rw [offset_unplaced]
      rfl
    | none => exact plainGoal_unplaced 0 c
  | succ levels ih =>
    intro c
    rw [goal, goal, eat_unplaced]
    cases c.eat .not with
    | some c₁ =>
      dsimp only [Option.map_some]
      rw [ih c₁]
      exact unplacing_bind fun _ => rfl
    | none => exact plainGoal_unplaced (levels + 1) c

theorem goals_unplaced : Unplaced goals :=
  (goal_unplaced maxNesting).sequence

/-! ## Whole texts -/

theorem body_unplaced : Unplaced body := by
  intro c
  rw [body, body, eat_unplaced]
  cases c.eat .neck with
  | none => rfl
  | some c₁ =>
    simp only [Option.map_some, isEmpty_unplaced, eat_unplaced, Option.isSome_map]
    split
    · rfl
    · exact goals_unplaced c₁

theorem period_unplaced (c : Cursor) : c.unplaced.period = unplacing unplaced c.period := by
  rw [period, period, isEmpty_unplaced, expect_unplaced]
  split <;> rfl

theorem clause_unplaced (c : Cursor) : c.unplaced.clause = unplacing id c.clause := by
  rw [clause, clause, term_unplaced maxNesting c]
  refine unplacing_bind fun p => ?_
  obtain ⟨head, c₁⟩ := p
  simp only [unplacedRest, body_unplaced c₁]
  by_cases hcallable : head.functor?.isNone = true
  · rw [if_pos hcallable, if_pos hcallable]
    rfl
  · rw [if_neg hcallable, if_neg hcallable]
    refine unplacing_bind fun p => ?_
    simp only [unplacedRest, period_unplaced]
    refine unplacing_bind fun c₂ => ?_
    rw [finish_unplaced]
    exact unplacing_bind fun _ => rfl

theorem query_unplaced (c : Cursor) : c.unplaced.query = unplacing id c.query := by
  rw [query, query, goals_unplaced c]
  refine unplacing_bind fun p => ?_
  obtain ⟨gs, c₁⟩ := p
  simp only [unplacedRest, eat_unplaced]
  have hend : ((c₁.eat .period).map unplaced).getD c₁.unplaced =
      ((c₁.eat .period).getD c₁).unplaced := by
    cases c₁.eat .period <;> rfl
  rw [hend, finish_unplaced]
  exact unplacing_bind fun _ => rfl

end Cursor

section Texts

variable {α : Type} {text text' : String} {ps ps' : List (Token × Nat)}

/-- The start of a text is determined by the tokens, apart from positions. -/
theorem Cursor.ofText_unplaced (h : Token.scan text = .ok ps) (h' : Token.scan text' = .ok ps')
    (htokens : ps'.map Prod.fst = ps.map Prod.fst) :
    unplacing unplaced (ofText text') = unplacing unplaced (ofText text) := by
  have hunplaced (qs : List (Token × Nat)) :
      qs.map (fun p => (p.1, 0)) = (qs.map Prod.fst).map fun token => (token, 0) := by
    rw [List.map_map]
    rfl
  have hempty : ps'.isEmpty = ps.isEmpty := by
    rw [← List.isEmpty_map (f := Prod.fst), htokens, List.isEmpty_map]
  simp only [ofText, h, h', bind, Except.bind, hempty]
  split
  · rfl
  · simp [unplaced, pure, Except.pure, hunplaced, htokens]

/-- What reads a text without regard to positions reads texts with the same tokens alike. -/
theorem mapError_unplaced_congr {read : Cursor → Except ParseError α}
    (hread : ∀ c : Cursor, read c.unplaced = unplacing id (read c)) (h : Token.scan text = .ok ps)
    (h' : Token.scan text' = .ok ps') (htokens : ps'.map Prod.fst = ps.map Prod.fst) :
    (Cursor.ofText text' >>= read).mapError ParseError.unplaced =
      (Cursor.ofText text >>= read).mapError ParseError.unplaced := by
  rw [← unplacing_id, ← unplacing_id, ← unplacing_bind hread, ← unplacing_bind hread,
    Cursor.ofText_unplaced h h' htokens]

/-- Texts with the same tokens are read as the same clause, or not because of the same error. -/
theorem Clause.parse_unplaced (h : Token.scan text = .ok ps) (h' : Token.scan text' = .ok ps')
    (htokens : ps'.map Prod.fst = ps.map Prod.fst) :
    (Clause.parse text').mapError ParseError.unplaced =
      (Clause.parse text).mapError ParseError.unplaced :=
  mapError_unplaced_congr Cursor.clause_unplaced h h' htokens

/-- Texts with the same tokens are read as the same query, or not because of the same error. -/
theorem Query.parse_unplaced (h : Token.scan text = .ok ps) (h' : Token.scan text' = .ok ps')
    (htokens : ps'.map Prod.fst = ps.map Prod.fst) :
    (Query.parse text').mapError ParseError.unplaced =
      (Query.parse text).mapError ParseError.unplaced :=
  mapError_unplaced_congr Cursor.query_unplaced h h' htokens

end Texts

end OntoLogic
