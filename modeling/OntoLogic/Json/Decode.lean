-- SUMMARY: From JSON texts to typed data.
import OntoLogic.Json.Source

/-!
# Typed data from JSON texts

What is read has a limit of nesting: `levels` counts the arrays and objects that may still be
entered. A record may be written as an object or as an array of its fields in order. In an object
fields with other names are skipped and not looked at, while a field that occurs twice is an error;
in an array fields may be missing at the end.
-/

namespace OntoLogic.Json

/-- The deepest nesting of arrays and objects that are read. -/
def maxLevels : Nat := 127

namespace Source

mutual

def toJson? : (levels : Nat) → Source → Option Json
  | _, .null => some .null
  | _, .bool b => some (.bool b)
  | _, .number l => l.value.map .number
  | _, .string s => s.map .string
  | 0, .array _ | 0, .object _ => none
  | levels + 1, .array items => (toJsonItems? levels items).map .array
  | levels + 1, .object fields =>
    (toJsonFields? levels fields).map fun fields => .object (NameMap.ofList fields).toList

def toJsonItems? : (levels : Nat) → List Source → Option (List Json)
  | _, [] => some []
  | levels, item :: items => do
    let j ← toJson? levels item
    return j :: (← toJsonItems? levels items)

def toJsonFields? : (levels : Nat) → List (Option String × Source) → Option (List (String × Json))
  | _, [] => some []
  | levels, (name, value) :: fields => do
    let name ← name
    let j ← toJson? levels value
    return (name, j) :: (← toJsonFields? levels fields)

end

def toText? : Source → Option String
  | .string s => s
  | _ => none

def toList? {α : Type} (item : (levels : Nat) → Source → Option α) :
    (levels : Nat) → Source → Option (List α)
  | levels + 1, .array items => items.mapM (item levels)
  | _, _ => none

/-- Something, or nothing for `null`. -/
def toOption? {α : Type} (value : (levels : Nat) → Source → Option α) :
    (levels : Nat) → Source → Option (Option α)
  | _, .null => some none
  | levels, s => (value levels s).map some

def toTexts? (levels : Nat) (s : Source) : Option (List String) :=
  toList? (fun _ => toText?) levels s

/-- A map from texts to texts; of several values for one name the last counts. -/
def toTextMap? : (levels : Nat) → Source → Option (NameMap String)
  | _ + 1, .object fields => do
    let entries ← fields.mapM fun (name, value) => do return (← name, ← value.toText?)
    return .ofList entries
  | _, _ => none

/-- The value of a field that occurs at most once: `none` when it occurs twice. -/
def uniqueField? (name : String) (fields : List (String × Source)) : Option (Option Source) :=
  match fields.filter (·.1 == name) with
  | [] => some none
  | [(_, value)] => some (some value)
  | _ => none

/-- The fields of a record with these names, and the levels left for them. -/
def toFields? (names : List String) :
    (levels : Nat) → Source → Option (Nat × List (Option Source))
  | levels + 1, .object fields => do
    let fields ← fields.mapM fun (name, value) => do return (← name, value)
    return (levels, ← names.mapM fun name => uniqueField? name fields)
  | levels + 1, .array items =>
    if names.length < items.length then none
    else some (levels, items.map some ++ List.replicate (names.length - items.length) none)
  | _, _ => none

/-- The value of a field, or another value where the field is left out. -/
def fieldOr {α : Type} (otherwise : α) (read : Source → Option α) : Option Source → Option α
  | none => some otherwise
  | some s => read s

/-- One of some names. It may be written as an object whose only field has the name and is
`null`. -/
def toChoice? : (levels : Nat) → Source → Option String
  | _, .string s => s
  | _ + 1, .object [(name, .null)] => name
  | _, _ => none

end Source

end OntoLogic.Json
