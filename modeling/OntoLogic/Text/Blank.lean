-- SUMMARY: White space, trimming, and the byte length of text.

/-!
# Blank characters and text measures

A character is blank when it has the Unicode property White_Space. Trimming removes blank
characters from both ends of a text. Positions in a text are counted in bytes of its UTF-8
encoding, so the width of a run of characters is the sum of their encoded sizes.
-/

namespace OntoLogic.Text

/-! ## Blank characters -/

/-- The code points with the property White_Space, as closed ranges in ascending order. -/
def blankRanges : List (Nat × Nat) :=
  [(0x09, 0x0D), (0x20, 0x20), (0x85, 0x85), (0xA0, 0xA0), (0x1680, 0x1680), (0x2000, 0x200A),
   (0x2028, 0x2029), (0x202F, 0x202F), (0x205F, 0x205F), (0x3000, 0x3000)]

/-- A character is blank when its code point lies in one of the ranges. -/
def isBlank (c : Char) : Bool :=
  blankRanges.any fun range => range.1 ≤ c.toNat && c.toNat ≤ range.2

/-- A list of characters without the blank ones at either end. -/
def trimChars (cs : List Char) : List Char :=
  ((cs.dropWhile isBlank).reverse.dropWhile isBlank).reverse

/-- A text without the blank characters at either end. -/
def trim (s : String) : String :=
  String.ofList (trimChars s.toList)

/-! ## Byte lengths -/

/-- The number of bytes that a run of characters takes in UTF-8. -/
def byteWidth : List Char → Nat
  | [] => 0
  | c :: cs => c.utf8Size + byteWidth cs

/-! ## Parts of texts -/

/-- Whether some characters stand at the front of others. -/
def startsWith (front cs : List Char) : Bool :=
  front.isPrefixOf cs

/-- Whether some characters stand somewhere in others, in a row. -/
def holds (part : List Char) : List Char → Bool
  | [] => part.isEmpty
  | c :: cs => startsWith part (c :: cs) || holds part cs

/-! ## Escapes -/

/-- Puts a backslash before every character that satisfies `special`. -/
def escapeChars (special : Char → Bool) : List Char → List Char
  | [] => []
  | c :: cs =>
    if special c then '\\' :: c :: escapeChars special cs else c :: escapeChars special cs

/-- Puts a backslash before every backslash and every `quote` of a text. -/
def escape (quote : Char) (s : String) : String :=
  String.ofList (escapeChars (fun c => c == '\\' || c == quote) s.toList)

end OntoLogic.Text
