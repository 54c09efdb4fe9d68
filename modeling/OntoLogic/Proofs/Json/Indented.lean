-- SUMMARY: What the indented form of a JSON value is read as.
import Mathlib.Data.List.DropRight
import Mathlib.Data.List.Forall2
import Mathlib.Tactic.Common
import OntoLogic.Json.Decode
import OntoLogic.Proofs.Text.Names

/-!
# Reading indented JSON

A text spells a tree when it is read as this tree whatever follows it. The texts of a tree are put
together from the texts of its parts, with blanks in between, so that a value in its indented form
is read as the tree of its parts.
-/

namespace OntoLogic.Json

namespace Source

/-! ## Strings -/

theorem hexValue_digitChar : ∀ d < 16, hexValue (Nat.digitChar d) = some d := by
  decide

/-- A text that is read as one part of a string. -/
def SpellsPiece (text : List Char) (p : Piece) : Prop :=
  ∀ cs pieces rest, readPieces cs = some (pieces, rest) →
    readPieces (text ++ cs) = some (p :: pieces, rest)

theorem SpellsPiece.simple {e c : Char} (h : simpleEscape e = some c) :
    SpellsPiece ['\\', e] (.char c) := by
  intro cs pieces rest hcs
  have he : e ≠ 'u' := fun he => by simp [he, simpleEscape] at h
  simp [readPieces, he, h, hcs]

theorem SpellsPiece.unicode {n : Nat} (h : n < 256) :
    SpellsPiece ['\\', 'u', '0', '0', Nat.digitChar (n / 16), Nat.digitChar (n % 16)]
      (.escape n) := by
  intro cs pieces rest hcs
  have hzero : hexValue '0' = some 0 := rfl
  have hhigh := hexValue_digitChar (n / 16) (by omega)
  have hlow := hexValue_digitChar (n % 16) (by omega)
  have hn : 16 * (n / 16) + n % 16 = n := Nat.div_add_mod n 16
  simp [readPieces, hzero, hhigh, hlow, hn, hcs]

theorem SpellsPiece.plain {c : Char} (hcontrol : 0x20 ≤ c.toNat) (hquote : c ≠ '"')
    (hslash : c ≠ '\\') : SpellsPiece [c] (.char c) := by
  intro cs pieces rest hcs
  simp [readPieces, hslash, Nat.not_lt.mpr hcontrol, hcs]

theorem spell_escape_of_lt {n : Nat} (h : n < 0x20) (pieces : List Piece) :
    spell (.escape n :: pieces) = (spell pieces).map (Char.ofNat n :: ·) := by
  have hhigh : (0xD800 ≤ n && n < 0xDC00) = false := by simp; omega
  have hlow : (0xDC00 ≤ n && n < 0xE000) = false := by simp; omega
  rw [spell.eq_def]
  simp [hhigh, hlow]

/-- What stands for a character in a string is read as one part, and the part spells it. -/
theorem exists_spellsPiece (c : Char) : ∃ p, SpellsPiece (escapeChar c) p ∧
    ∀ pieces, spell (p :: pieces) = (spell pieces).map (c :: ·) := by
  have hchar : ∀ pieces, spell (.char c :: pieces) = (spell pieces).map (c :: ·) :=
    fun pieces => by rw [spell]
  unfold escapeChar
  split
  · exact ⟨_, .simple rfl, hchar⟩
  · exact ⟨_, .simple rfl, hchar⟩
  · exact ⟨_, .simple rfl, hchar⟩
  · exact ⟨_, .simple rfl, hchar⟩
  · exact ⟨_, .simple rfl, hchar⟩
  · next hquote hslash _ _ _ =>
    -- The escapes of the remaining control characters go by the numbers of the characters.
    have hc : Char.ofNat c.toNat = c := Char.ofNat_toNat c
    split
    · next h =>
      rw [h] at hc
      exact ⟨.char c, hc ▸ .simple rfl, hchar⟩
    split
    · next h =>
      rw [h] at hc
      exact ⟨.char c, hc ▸ .simple rfl, hchar⟩
    split
    · next h =>
      have hspell := spell_escape_of_lt h
      rw [hc] at hspell
      exact ⟨.escape c.toNat, .unicode (by omega), hspell⟩
    · next h => exact ⟨.char c, .plain (Nat.not_lt.mp h) hquote hslash, hchar⟩

/-- The written form of a string is read as the string. -/
theorem readString_quoted (s : String) (rest : List Char) :
    readString (s.toList.flatMap escapeChar ++ '"' :: rest) = some (some s, rest) := by
  have hread : ∀ cs : List Char, ∃ pieces,
      readPieces (cs.flatMap escapeChar ++ '"' :: rest) = some (pieces, rest) ∧
      spell pieces = some cs := by
    intro cs
    induction cs with
    | nil => exact ⟨[], rfl, rfl⟩
    | cons c cs ih =>
      obtain ⟨p, hp, hspell⟩ := exists_spellsPiece c
      obtain ⟨pieces, hpieces, hcs⟩ := ih
      exact ⟨p :: pieces, by simpa using hp _ _ _ hpieces, by simp [hspell, hcs]⟩
  obtain ⟨pieces, hpieces, hspell⟩ := hread s.toList
  simp [readString, hpieces, hspell]

/-! ## Blanks -/

def Blank (bs : List Char) : Prop :=
  skipBlanks bs = []

theorem blank_lineAt (depth : Nat) : Blank (lineAt depth).toList := by
  simp [Blank, skipBlanks, lineAt]

variable {bs cs : List Char}

theorem skipBlanks_append (h : Blank bs) : skipBlanks (bs ++ cs) = skipBlanks cs := by
  unfold Blank skipBlanks at *
  rw [List.dropWhile_append, h]
  rfl

theorem skipBlanks_cons {c : Char} (h : c ∉ [' ', '\n', '\t', '\r']) :
    skipBlanks (c :: cs) = c :: cs := by
  simp only [List.mem_cons, List.not_mem_nil, or_false, not_or] at h
  simp [skipBlanks, h]

theorem skipBlanks_skipBlanks : skipBlanks (skipBlanks cs) = skipBlanks cs :=
  List.dropWhile_idempotent _ _

theorem readValue_congr {cs cs' : List Char} (h : skipBlanks cs = skipBlanks cs') (fuel : Nat) :
    readValue fuel cs = readValue fuel cs' := by
  cases fuel with
  | zero => rfl
  | succ fuel => rw [readValue, readValue, h]

theorem readItems_congr {cs cs' : List Char} (h : skipBlanks cs = skipBlanks cs') (fuel : Nat) :
    readItems fuel cs = readItems fuel cs' := by
  cases fuel with
  | zero => rfl
  | succ fuel => rw [readItems, readItems, readValue_congr h]

theorem readFields_congr {cs cs' : List Char} (h : skipBlanks cs = skipBlanks cs') (fuel : Nat) :
    readFields fuel cs = readFields fuel cs' := by
  cases fuel with
  | zero => rfl
  | succ fuel => rw [readFields, readFields, h]

/-! ## Texts of trees -/

/-- A text that is read as a tree, whatever follows it. Of two steps of the recursion one reads a
character, so twice its length is enough fuel. -/
def Spells (cs : List Char) (s : Source) : Prop :=
  ∀ fuel rest, 2 * cs.length ≤ fuel → readValue fuel (cs ++ rest) = some (s, rest)

/-- A text that is read as items up to the bracket at its end. -/
def SpellsItems (cs : List Char) (items : List Source) : Prop :=
  ∀ fuel rest, 2 * cs.length < fuel → readItems fuel (cs ++ rest) = some (items, rest)

/-- A text that is read as fields up to the brace at its end. -/
def SpellsFields (cs : List Char) (fields : List (Option String × Source)) : Prop :=
  ∀ fuel rest, 2 * cs.length < fuel → readFields fuel (cs ++ rest) = some (fields, rest)

variable {s : Source} {items : List Source} {fields : List (Option String × Source)}
  {cs' : List Char}

theorem Spells.intro (hne : cs ≠ []) (h : ∀ fuel rest, 2 * cs.length ≤ fuel + 1 →
    readValue (fuel + 1) (cs ++ rest) = some (s, rest)) : Spells cs s := by
  intro fuel rest hfuel
  have hpos := List.length_pos_of_ne_nil hne
  obtain ⟨fuel, rfl⟩ := Nat.exists_eq_succ_of_ne_zero (show fuel ≠ 0 by omega)
  exact h fuel rest hfuel

theorem SpellsItems.intro (h : ∀ fuel rest, 2 * cs.length ≤ fuel →
    readItems (fuel + 1) (cs ++ rest) = some (items, rest)) : SpellsItems cs items := by
  intro fuel rest hfuel
  obtain ⟨fuel, rfl⟩ := Nat.exists_eq_succ_of_ne_zero (show fuel ≠ 0 by omega)
  exact h fuel rest (Nat.le_of_lt_succ hfuel)

theorem SpellsFields.intro (h : ∀ fuel rest, 2 * cs.length ≤ fuel →
    readFields (fuel + 1) (cs ++ rest) = some (fields, rest)) : SpellsFields cs fields := by
  intro fuel rest hfuel
  obtain ⟨fuel, rfl⟩ := Nat.exists_eq_succ_of_ne_zero (show fuel ≠ 0 by omega)
  exact h fuel rest (Nat.le_of_lt_succ hfuel)

theorem Spells.blanks (hb : Blank bs) (h : Spells cs s) : Spells (bs ++ cs) s := by
  intro fuel rest hfuel
  rw [List.append_assoc, readValue_congr (skipBlanks_append hb)]
  exact h fuel rest (by rw [List.length_append] at hfuel; omega)

theorem Spells.null : Spells "null".toList .null :=
  .intro (List.cons_ne_nil _ _) fun _ _ _ => rfl

theorem readValue_quote (fuel : Nat) : readValue (fuel + 1) ('"' :: cs) =
    (readString cs).map fun (text, rest) => (.string text, rest) := rfl

theorem Spells.string (text : String) : Spells (quote text).toList (.string (some text)) := by
  refine .intro (by simp [quote]) fun fuel rest _ => ?_
  have hquote : (quote text).toList ++ rest =
      '"' :: (text.toList.flatMap escapeChar ++ '"' :: rest) := by simp [quote]
  rw [hquote, readValue_quote, readString_quoted, Option.map_some]

/-! ### Arrays -/

theorem SpellsItems.one (h : Spells cs s) (hb : Blank bs) :
    SpellsItems (cs ++ (bs ++ [']'])) [s] := by
  refine .intro fun fuel rest hfuel => ?_
  have hread := h fuel (bs ++ ']' :: rest) (by rw [List.length_append] at hfuel; omega)
  simp [readItems, hread, skipBlanks_append hb, skipBlanks_cons]

theorem SpellsItems.cons (h : Spells cs s) (hs : SpellsItems cs' items) :
    SpellsItems (cs ++ ',' :: cs') (s :: items) := by
  refine .intro fun fuel rest hfuel => ?_
  simp only [List.length_append, List.length_cons] at hfuel
  have hread := h fuel (',' :: (cs' ++ rest)) (by omega)
  simp [readItems, hread, skipBlanks_cons, hs fuel rest (by omega)]

theorem readItems_bracket (fuel : Nat) : readItems fuel (']' :: cs) = none := by
  cases fuel with
  | zero => rfl
  | succ fuel => cases fuel <;> rfl

theorem readValue_leftBracket (fuel : Nat) (cs : List Char) :
    readValue (fuel + 1) ('[' :: cs) = match skipBlanks cs with
      | ']' :: cs => some (.array [], cs)
      | cs => (readItems fuel cs).map fun (items, rest) => (.array items, rest) := rfl

theorem readValue_bracket {fuel : Nat} {rest : List Char}
    (h : readItems fuel cs = some (items, rest)) :
    readValue (fuel + 1) ('[' :: cs) = some (.array items, rest) := by
  rw [readValue_leftBracket]
  rw [← readItems_congr skipBlanks_skipBlanks] at h
  split
  · -- A bracket after the blanks would close an empty array, but no item starts with one.
    next hcs => simp [hcs, readItems_bracket] at h
  · rw [h, Option.map_some]

theorem Spells.array (h : SpellsItems cs items) : Spells ('[' :: cs) (.array items) := by
  refine .intro (List.cons_ne_nil _ _) fun fuel rest hfuel => readValue_bracket (h fuel rest ?_)
  rw [List.length_cons] at hfuel
  omega

theorem Spells.emptyArray : Spells ['[', ']'] (.array []) :=
  .intro (List.cons_ne_nil _ _) fun _ _ _ => rfl

/-! ### Objects -/

theorem SpellsFields.blanks (hb : Blank bs) (h : SpellsFields cs fields) :
    SpellsFields (bs ++ cs) fields := by
  intro fuel rest hfuel
  rw [List.append_assoc, readFields_congr (skipBlanks_append hb)]
  exact h fuel rest (by rw [List.length_append] at hfuel; omega)

theorem SpellsFields.one (name : String) (h : Spells cs s) (hb : Blank bs) :
    SpellsFields ((quote name).toList ++ ':' :: (cs ++ (bs ++ ['\x7d']))) [(some name, s)] := by
  refine .intro fun fuel rest hfuel => ?_
  simp only [List.length_append, List.length_cons] at hfuel
  have hread := h fuel (bs ++ '\x7d' :: rest) (by omega)
  simp [quote, readFields, skipBlanks_cons, readString_quoted, hread, skipBlanks_append hb]

theorem SpellsFields.cons (name : String) (h : Spells cs s) (hs : SpellsFields cs' fields) :
    SpellsFields ((quote name).toList ++ ':' :: (cs ++ ',' :: cs')) ((some name, s) :: fields) := by
  refine .intro fun fuel rest hfuel => ?_
  simp only [List.length_append, List.length_cons] at hfuel
  have hread := h fuel (',' :: (cs' ++ rest)) (by omega)
  simp [quote, readFields, skipBlanks_cons, readString_quoted, hread, hs fuel rest (by omega)]

theorem readFields_brace (fuel : Nat) : readFields fuel ('\x7d' :: cs) = none := by
  cases fuel <;> rfl

theorem readValue_leftBrace (fuel : Nat) (cs : List Char) :
    readValue (fuel + 1) ('\x7b' :: cs) = match skipBlanks cs with
      | '\x7d' :: cs => some (.object [], cs)
      | cs => (readFields fuel cs).map fun (fields, rest) => (.object fields, rest) := rfl

theorem readValue_brace {fuel : Nat} {rest : List Char}
    (h : readFields fuel cs = some (fields, rest)) :
    readValue (fuel + 1) ('\x7b' :: cs) = some (.object fields, rest) := by
  rw [readValue_leftBrace]
  rw [← readFields_congr skipBlanks_skipBlanks] at h
  split
  · next hcs => simp [hcs, readFields_brace] at h
  · rw [h, Option.map_some]

theorem Spells.object (h : SpellsFields cs fields) : Spells ('\x7b' :: cs) (.object fields) := by
  refine .intro (List.cons_ne_nil _ _) fun fuel rest hfuel => readValue_brace (h fuel rest ?_)
  rw [List.length_cons] at hfuel
  omega

theorem Spells.emptyObject : Spells ['\x7b', '\x7d'] (.object []) :=
  .intro (List.cons_ne_nil _ _) fun _ _ _ => rfl

/-! ### Whole texts -/

theorem Spells.read {text : String} (h : Spells text.toList s) : read text = some s := by
  have hread := h (2 * text.toList.length + 2) [] (by omega)
  rw [List.append_nil] at hread
  simp [Source.read, hread, skipBlanks]

end Source

/-! ## Indented values -/

open Source

theorem indentedAt_array (depth : Nat) (j : Json) (js : List Json) :
    (array (j :: js)).indentedAt depth =
      "[" ++ indentedItems (depth + 1) (j :: js) ++ lineAt depth ++ "]" := rfl

theorem indentedAt_object (depth : Nat) (field : String × Json) (fields : List (String × Json)) :
    (object (field :: fields)).indentedAt depth =
      "\x7b" ++ indentedFields (depth + 1) (field :: fields) ++ lineAt depth ++ "\x7d" := rfl

theorem indentedItems_singleton (depth : Nat) (j : Json) :
    indentedItems depth [j] = lineAt depth ++ j.indentedAt depth := rfl

theorem indentedItems_cons (depth : Nat) (j j' : Json) (js : List Json) :
    indentedItems depth (j :: j' :: js) =
      lineAt depth ++ j.indentedAt depth ++ "," ++ indentedItems depth (j' :: js) := rfl

theorem indentedFields_singleton (depth : Nat) (field : String × Json) :
    indentedFields depth [field] =
      lineAt depth ++ quote field.1 ++ ": " ++ field.2.indentedAt depth := rfl

theorem indentedFields_cons (depth : Nat) (field field' : String × Json)
    (fields : List (String × Json)) :
    indentedFields depth (field :: field' :: fields) =
      lineAt depth ++ quote field.1 ++ ": " ++ field.2.indentedAt depth ++ "," ++
        indentedFields depth (field' :: fields) := rfl

/-- The indented form of a value, at whatever depth it stands, spells a tree. -/
def Reads (j : Json) (s : Source) : Prop :=
  ∀ depth, Spells (j.indentedAt depth).toList s

theorem Reads.read_indented {j : Json} {s : Source} (h : j.Reads s) : read j.indented = some s :=
  (h 0).read

theorem Reads.null : Json.null.Reads .null :=
  fun _ => Spells.null

theorem Reads.string (text : String) : (Json.string text).Reads (.string (some text)) :=
  fun _ => .string text

/-- The indented items of an array and its closing bracket are read as the items. -/
theorem spellsItems_indentedItems {items : List Json} {sources : List Source} (depth depth' : Nat)
    (h : List.Forall₂ Reads items sources) (hne : items ≠ []) :
    SpellsItems ((indentedItems depth items).toList ++ ((lineAt depth').toList ++ [']']))
      sources := by
  induction h with
  | nil => exact absurd rfl hne
  | @cons j s items sources hj hitems ih =>
    -- Only the last item has no comma after it.
    have hitem : Spells ((lineAt depth).toList ++ (j.indentedAt depth).toList) s :=
      (hj depth).blanks (blank_lineAt depth)
    cases hitems with
    | nil => simpa [indentedItems_singleton] using SpellsItems.one hitem (blank_lineAt depth')
    | cons hj' hitems =>
      simpa [indentedItems_cons] using SpellsItems.cons hitem (ih (List.cons_ne_nil _ _))

theorem Reads.array {items : List Json} {sources : List Source}
    (h : List.Forall₂ Reads items sources) : (Json.array items).Reads (.array sources) := by
  intro depth
  cases h with
  | nil => simpa [indentedAt] using Spells.emptyArray
  | cons hj hitems =>
    have hspells := spellsItems_indentedItems (depth + 1) depth (.cons hj hitems)
      (List.cons_ne_nil _ _)
    simpa [indentedAt_array] using Spells.array hspells

/-- A field that is read as a field of a tree. -/
def ReadsField (field : String × Json) (source : Option String × Source) : Prop :=
  source.1 = some field.1 ∧ field.2.Reads source.2

/-- The indented fields of an object and its closing brace are read as the fields. -/
theorem spellsFields_indentedFields {fields : List (String × Json)}
    {sources : List (Option String × Source)} (depth depth' : Nat)
    (h : List.Forall₂ ReadsField fields sources) (hne : fields ≠ []) :
    SpellsFields ((indentedFields depth fields).toList ++ ((lineAt depth').toList ++ ['\x7d']))
      sources := by
  induction h with
  | nil => exact absurd rfl hne
  | @cons field source fields sources hfield hfields ih =>
    obtain ⟨name, j⟩ := field
    obtain ⟨_, s⟩ := source
    obtain ⟨rfl, hj⟩ := hfield
    have hblank : Blank [' '] := rfl
    have hvalue := Spells.blanks hblank (hj depth)
    cases hfields with
    | nil =>
      have hone := SpellsFields.one name hvalue (blank_lineAt depth')
      simpa [indentedFields_singleton] using hone.blanks (blank_lineAt depth)
    | cons hfield' hfields =>
      have hcons := SpellsFields.cons name hvalue (ih (List.cons_ne_nil _ _))
      simpa [indentedFields_cons] using hcons.blanks (blank_lineAt depth)

theorem Reads.object {fields : List (String × Json)} {sources : List (Option String × Source)}
    (h : List.Forall₂ ReadsField fields sources) :
    (Json.object fields).Reads (.object sources) := by
  intro depth
  cases h with
  | nil => simpa [indentedAt] using Spells.emptyObject
  | cons hfield hfields =>
    have hspells := spellsFields_indentedFields (depth + 1) depth (.cons hfield hfields)
      (List.cons_ne_nil _ _)
    simpa [indentedAt_object] using Spells.object hspells

/-! ## Lists and maps of texts -/

/-- A list is read item by item. -/
theorem mapM_map_eq_map {α β γ : Type} {write : α → β} {read : β → Option γ} {f : α → γ}
    (h : ∀ x, read (write x) = some (f x)) (xs : List α) :
    (xs.map write).mapM read = some (xs.map f) := by
  induction xs with
  | nil => rfl
  | cons x xs ih => simp only [List.map_cons, List.mapM_cons, h, ih]; rfl

/-- A list whose items are written and read one by one is read as it was. -/
theorem mapM_map_of_forall {α β : Type} {write : α → β} {read : β → Option α}
    (h : ∀ x, read (write x) = some x) (xs : List α) : (xs.map write).mapM read = some xs := by
  rw [mapM_map_eq_map h, List.map_id']

def Source.texts (xs : List String) : Source :=
  .array (xs.map fun x => .string (some x))

theorem reads_strings (xs : List String) : (strings xs).Reads (.texts xs) := by
  refine .array ?_
  rw [List.forall₂_map_left_iff, List.forall₂_map_right_iff]
  exact List.forall₂_same.mpr fun x _ => .string x

theorem Source.toTexts?_texts (levels : Nat) (xs : List String) :
    (Source.texts xs).toTexts? (levels + 1) = some xs := by
  rw [texts, toTexts?, toList?, mapM_map_of_forall]
  exact fun _ => rfl

def Source.textMap (m : NameMap String) : Source :=
  .object (m.toList.map fun entry => (some entry.1, .string (some entry.2)))

theorem reads_textMap (m : NameMap String) :
    (object (m.toList.map fun entry => (entry.1, .string entry.2))).Reads (.textMap m) := by
  refine .object ?_
  rw [List.forall₂_map_left_iff, List.forall₂_map_right_iff]
  exact List.forall₂_same.mpr fun entry _ => ⟨rfl, .string entry.2⟩

theorem Source.toTextMap?_textMap (levels : Nat) (m : NameMap String) :
    (Source.textMap m).toTextMap? (levels + 1) = some m := by
  rw [textMap, toTextMap?, mapM_map_of_forall]
  · exact congrArg some (NameMap.ofList_toList m)
  · exact fun _ => rfl

end OntoLogic.Json
