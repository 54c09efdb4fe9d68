-- SUMMARY: What the compact form of a JSON value is read as.
import OntoLogic.Proofs.Json.Indented

/-!
# Reading compact JSON

The compact form of a value has nothing between its parts, so that it is put together from the forms
of the parts like the indented one, with no blanks anywhere.
-/

namespace OntoLogic.Json

open Source

variable {j : Json} {s : Source}

/-! ## Parts of compact forms -/

theorem compact_array (items : List Json) :
    (array items).compact = "[" ++ compactItems items ++ "]" := rfl

theorem compact_object (fields : List (String × Json)) :
    (object fields).compact = "\x7b" ++ compactFields fields ++ "\x7d" := rfl

theorem compactItems_cons (j j' : Json) (js : List Json) :
    compactItems (j :: j' :: js) = j.compact ++ "," ++ compactItems (j' :: js) := rfl

theorem compactFields_singleton (field : String × Json) :
    compactFields [field] = quote field.1 ++ ":" ++ field.2.compact := rfl

theorem compactFields_cons (field field' : String × Json) (fields : List (String × Json)) :
    compactFields (field :: field' :: fields) =
      quote field.1 ++ ":" ++ field.2.compact ++ "," ++ compactFields (field' :: fields) := rfl

/-! ## Simple values -/

/-- The compact form of a value spells a tree. -/
def ReadsCompact (j : Json) (s : Source) : Prop :=
  Spells j.compact.toList s

theorem ReadsCompact.read_compact (h : j.ReadsCompact s) : read j.compact = some s :=
  h.read

theorem blank_nil : Blank [] :=
  rfl

theorem ReadsCompact.null : Json.null.ReadsCompact .null :=
  Spells.null

theorem ReadsCompact.string (text : String) :
    (Json.string text).ReadsCompact (.string (some text)) :=
  Spells.string text

/-! ## Arrays and objects -/

/-- The compact items of an array and its closing bracket are read as the items. -/
theorem spellsItems_compactItems {items : List Json} {sources : List Source}
    (h : List.Forall₂ ReadsCompact items sources) (hne : items ≠ []) :
    SpellsItems ((compactItems items).toList ++ [']']) sources := by
  induction h with
  | nil => exact absurd rfl hne
  | cons hj hitems ih =>
    -- Only the last item has no comma after it.
    cases hitems with
    | nil => exact SpellsItems.one hj blank_nil
    | cons hj' hitems =>
      simpa [compactItems_cons] using SpellsItems.cons hj (ih (List.cons_ne_nil _ _))

theorem ReadsCompact.array {items : List Json} {sources : List Source}
    (h : List.Forall₂ ReadsCompact items sources) :
    (Json.array items).ReadsCompact (.array sources) := by
  unfold ReadsCompact
  cases h with
  | nil => exact Spells.emptyArray
  | cons hj hitems =>
    have hspells := spellsItems_compactItems (.cons hj hitems) (List.cons_ne_nil _ _)
    simpa [compact_array] using Spells.array hspells

/-- A field whose compact form is read as a field of a tree. -/
def ReadsCompactField (field : String × Json) (source : Option String × Source) : Prop :=
  source.1 = some field.1 ∧ field.2.ReadsCompact source.2

/-- The compact fields of an object and its closing brace are read as the fields. -/
theorem spellsFields_compactFields {fields : List (String × Json)}
    {sources : List (Option String × Source)}
    (h : List.Forall₂ ReadsCompactField fields sources) (hne : fields ≠ []) :
    SpellsFields ((compactFields fields).toList ++ ['\x7d']) sources := by
  induction h with
  | nil => exact absurd rfl hne
  | @cons field source fields sources hfield hfields ih =>
    obtain ⟨name, j⟩ := field
    obtain ⟨_, s⟩ := source
    obtain ⟨rfl, hj⟩ := hfield
    cases hfields with
    | nil => simpa [compactFields_singleton] using SpellsFields.one name hj blank_nil
    | cons hfield' hfields =>
      simpa [compactFields_cons] using SpellsFields.cons name hj (ih (List.cons_ne_nil _ _))

theorem ReadsCompact.object {fields : List (String × Json)}
    {sources : List (Option String × Source)} (h : List.Forall₂ ReadsCompactField fields sources) :
    (Json.object fields).ReadsCompact (.object sources) := by
  unfold ReadsCompact
  cases h with
  | nil => exact Spells.emptyObject
  | cons hfield hfields =>
    have hspells := spellsFields_compactFields (.cons hfield hfields) (List.cons_ne_nil _ _)
    simpa [compact_object] using Spells.object hspells

theorem readsCompact_strings (xs : List String) : (strings xs).ReadsCompact (.texts xs) := by
  refine .array ?_
  rw [List.forall₂_map_left_iff, List.forall₂_map_right_iff]
  exact List.forall₂_same.mpr fun x _ => .string x

end OntoLogic.Json
