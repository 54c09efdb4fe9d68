-- SUMMARY: A trimmed text has no blank at its ends, and such a text is trimmed.
import Mathlib.Data.List.DropRight
import OntoLogic.Text.Blank

/-!
# Trimmed texts

Trimming drops blanks from the front and then from the end. The second step brings no blank back to
the front, so a trimmed text has no blank at either end. A text without blanks at its ends stays as
it is when it is trimmed.
-/

namespace OntoLogic.Text

theorem trimChars_eq (cs : List Char) :
    trimChars cs = (cs.dropWhile isBlank).rdropWhile isBlank := rfl

theorem dropWhile_eq_self_of_head? {p : Char → Bool} {cs : List Char}
    (h : ∀ c ∈ cs.head?, p c = false) : cs.dropWhile p = cs := by
  cases cs with
  | nil => rfl
  | cons c cs => simp [h c rfl]

/-- Dropping from the end keeps a front that is not blank. -/
theorem dropWhile_rdropWhile {p : Char → Bool} {cs : List Char} (h : cs.dropWhile p = cs) :
    (cs.rdropWhile p).dropWhile p = cs.rdropWhile p := by
  rw [List.dropWhile_eq_self_iff] at h ⊢
  intro hpos
  have hpre := List.rdropWhile_prefix p (l := cs)
  rw [hpre.getElem hpos]
  exact h (Nat.lt_of_lt_of_le hpos hpre.length_le)

/-- Dropping from the end stops at the last character to be kept. -/
theorem rdropWhile_append_cons {p : Char → Bool} {front cs : List Char} {c : Char}
    (hc : p c = false) : (front ++ c :: cs).rdropWhile p = front ++ c :: cs.rdropWhile p := by
  induction cs using List.reverseRecOn with
  | nil => simp [List.rdropWhile_concat_neg, hc]
  | append_singleton cs d ih =>
    have hsnoc : front ++ c :: (cs ++ [d]) = (front ++ c :: cs) ++ [d] := by simp
    rw [hsnoc]
    by_cases hd : p d = true
    · rw [List.rdropWhile_concat_pos _ _ _ hd, List.rdropWhile_concat_pos _ _ _ hd, ih]
    · rw [List.rdropWhile_concat_neg _ _ _ hd, List.rdropWhile_concat_neg _ _ _ hd, ← hsnoc]

theorem trimChars_trimChars (cs : List Char) : trimChars (trimChars cs) = trimChars cs := by
  simp only [trimChars_eq]
  rw [dropWhile_rdropWhile (List.dropWhile_idempotent _ _), List.rdropWhile_idempotent]

/-! ## The ends of a trimmed text -/

theorem head?_trim (s : String) : ∀ c ∈ (trim s).toList.head?, isBlank c = false := by
  have hdropped : (s.toList.dropWhile isBlank).dropWhile isBlank = s.toList.dropWhile isBlank :=
    List.dropWhile_idempotent _ _
  intro c hc
  rw [trim, String.toList_ofList, trimChars_eq, ← dropWhile_rdropWhile hdropped] at hc
  have hnot := List.head?_dropWhile_not isBlank ((s.toList.dropWhile isBlank).rdropWhile isBlank)
  rw [Option.mem_def.mp hc] at hnot
  simpa using hnot

theorem getLast?_trim (s : String) : ∀ c ∈ (trim s).toList.getLast?, isBlank c = false := by
  intro c hc
  rw [trim, String.toList_ofList, trimChars_eq] at hc
  obtain ⟨hne, rfl⟩ := List.mem_getLast?_eq_getLast hc
  simpa using List.rdropWhile_last_not isBlank _ hne

theorem trimChars_eq_self {cs : List Char} (hhead : ∀ c ∈ cs.head?, isBlank c = false)
    (hlast : ∀ c ∈ cs.getLast?, isBlank c = false) : trimChars cs = cs := by
  rw [trimChars_eq, dropWhile_eq_self_of_head? hhead, List.rdropWhile_eq_self_iff]
  intro hne
  simp [hlast _ (List.getLast?_eq_some_getLast hne)]

theorem trim_eq_self {s : String} (hhead : ∀ c ∈ s.toList.head?, isBlank c = false)
    (hlast : ∀ c ∈ s.toList.getLast?, isBlank c = false) : trim s = s := by
  rw [trim, trimChars_eq_self hhead hlast, String.ofList_toList]

@[simp] theorem trim_trim (s : String) : trim (trim s) = trim s := by
  simp [trim, trimChars_trimChars]

/-! ## Texts that are not blank -/

/-- A text does not begin with a blank, and is not empty. -/
def BeginsPlain (text : String) : Prop :=
  ∃ c, text.toList.head? = some c ∧ isBlank c = false

theorem BeginsPlain.append {text : String} (h : BeginsPlain text) (rest : String) :
    BeginsPlain (text ++ rest) := by
  obtain ⟨c, hhead, hc⟩ := h
  exact ⟨c, by simp [String.toList_append, List.head?_append, hhead], hc⟩

theorem BeginsPlain.isEmpty_trim {text : String} (h : BeginsPlain text) :
    (trim text).isEmpty = false := by
  obtain ⟨c, hhead, hc⟩ := h
  obtain ⟨cs, htext⟩ : ∃ cs, text.toList = c :: cs := ⟨_, List.eq_cons_of_mem_head? hhead⟩
  rw [Bool.eq_false_iff]
  intro hempty
  have hnil : trimChars text.toList = [] := by
    have h := congrArg String.toList (String.isEmpty_iff.mp hempty)
    simpa [trim] using h
  rw [trimChars_eq, htext, List.dropWhile_cons_of_neg (by simp [hc]),
    ← List.nil_append (c :: cs), rdropWhile_append_cons hc] at hnil
  cases hnil

end OntoLogic.Text
