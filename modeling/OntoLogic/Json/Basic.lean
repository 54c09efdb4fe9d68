-- SUMMARY: JSON values and their written forms.
import OntoLogic.Json.Number

/-!
# JSON values

The fields of an object are kept in the order in which they are written. There are two written
forms: the compact one has no blanks, the indented one puts every item and every field on a line of
its own.
-/

namespace OntoLogic

inductive Json where
  | null
  | bool (b : Bool)
  | number (n : Json.Number)
  | string (s : String)
  | array (items : List Json)
  | object (fields : List (String × Json))
  deriving Inhabited

namespace Json

def strings (xs : List String) : Json :=
  .array (xs.map .string)

/-! ## Strings -/

/-- The characters that stand for a character in a string. -/
def escapeChar (c : Char) : List Char :=
  match c with
  | '"' => ['\\', '"']
  | '\\' => ['\\', '\\']
  | '\n' => ['\\', 'n']
  | '\r' => ['\\', 'r']
  | '\t' => ['\\', 't']
  | _ =>
    if c.toNat = 0x08 then ['\\', 'b']
    else if c.toNat = 0x0C then ['\\', 'f']
    else if c.toNat < 0x20 then
      ['\\', 'u', '0', '0', Nat.digitChar (c.toNat / 16), Nat.digitChar (c.toNat % 16)]
    else [c]

def quote (s : String) : String :=
  "\"" ++ String.ofList (s.toList.flatMap escapeChar) ++ "\""

/-! ## Compact form -/

mutual

def compact : Json → String
  | .null => "null"
  | .bool true => "true"
  | .bool false => "false"
  | .number n => n.text
  | .string s => quote s
  | .array items => "[" ++ compactItems items ++ "]"
  | .object fields => "\x7b" ++ compactFields fields ++ "\x7d"

def compactItems : List Json → String
  | [] => ""
  | [j] => compact j
  | j :: js => compact j ++ "," ++ compactItems js

def compactFields : List (String × Json) → String
  | [] => ""
  | [(name, j)] => quote name ++ ":" ++ compact j
  | (name, j) :: fields => quote name ++ ":" ++ compact j ++ "," ++ compactFields fields

end

/-! ## Indented form -/

/-- A line break and the blanks at the start of a line at a depth. -/
def lineAt (depth : Nat) : String :=
  "\n" ++ String.ofList (List.replicate (2 * depth) ' ')

mutual

def indentedAt (depth : Nat) : Json → String
  | .array [] => "[]"
  | .array items => "[" ++ indentedItems (depth + 1) items ++ lineAt depth ++ "]"
  | .object [] => "\x7b\x7d"
  | .object fields => "\x7b" ++ indentedFields (depth + 1) fields ++ lineAt depth ++ "\x7d"
  | .null => "null"
  | .bool true => "true"
  | .bool false => "false"
  | .number n => n.text
  | .string s => quote s

def indentedItems (depth : Nat) : List Json → String
  | [] => ""
  | [j] => lineAt depth ++ indentedAt depth j
  | j :: js => lineAt depth ++ indentedAt depth j ++ "," ++ indentedItems depth js

def indentedFields (depth : Nat) : List (String × Json) → String
  | [] => ""
  | [(name, j)] => lineAt depth ++ quote name ++ ": " ++ indentedAt depth j
  | (name, j) :: fields =>
    lineAt depth ++ quote name ++ ": " ++ indentedAt depth j ++ "," ++ indentedFields depth fields

end

def indented (j : Json) : String :=
  j.indentedAt 0

end Json

end OntoLogic
