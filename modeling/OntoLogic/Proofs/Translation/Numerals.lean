-- SUMMARY: Which JSON numbers are written as numbers of clause texts.
import OntoLogic.Json.Number
import OntoLogic.Proofs.Syntax.Application

/-!
# Numerals

JSON numbers are written in a form of their own, and a number of a clause text has another. Both
have a sign, digits and a point with digits. JSON also writes a power of ten after very large and
very small numbers; no token has that form, so such a number is taken for a number with a name after
it.
-/

namespace OntoLogic

variable {cs ds rest : List Char} {tokens : List Token} {point power : Int}

/-! ## Number tokens -/

theorem Scans.of_number (h : IsNumber cs) (hrest : EndsNumber cs rest)
    (hscans : Scans (cs ++ rest) tokens) :
    ∃ tokens', tokens = .number (.ofList cs) :: tokens' ∧ Scans rest tokens' := by
  obtain ⟨c, tail, rfl, hlexed⟩ := h.exists_lexed hrest
  exact hscans.of_lexed hlexed

/-! ## Decimals -/

/-- Digits, one at least. -/
def IsDigits (ds : List Char) : Prop :=
  ds ≠ [] ∧ ∀ d ∈ ds, d.isDigit = true

theorem isDigits_toDigits (n : Nat) : IsDigits (Nat.toDigits 10 n) :=
  ⟨Nat.toDigits_ne_nil, fun _ hd => Nat.isDigit_of_mem_toDigits (by decide) (by decide) hd⟩

theorem isDigits_zero : IsDigits ['0'] :=
  ⟨nofun, List.forall_mem_singleton.mpr rfl⟩

theorem IsDigits.isUnsigned (h : IsDigits ds) : IsUnsigned ds :=
  ⟨ds, h.1, h.2, .inl rfl⟩

theorem isUnsigned_point {whole fraction : List Char} (hwhole : IsDigits whole)
    (hfraction : IsDigits fraction) : IsUnsigned (whole ++ '.' :: fraction) :=
  ⟨whole, hwhole.1, hwhole.2, .inr ⟨fraction, hfraction.1, hfraction.2, rfl⟩⟩

namespace DecimalStyle

theorem isDigit_zeros (n : Nat) : ∀ d ∈ List.replicate n '0', d.isDigit = true := by
  intro d hd
  rw [List.eq_of_mem_replicate hd]
  rfl

/-- JSON writes digits before and after a point. -/
theorem isUnsigned_withPoint (h : IsDigits ds) (point : Int) :
    IsUnsigned (json.withPoint ds point).toList := by
  obtain ⟨hne, hds⟩ := h
  unfold withPoint
  split
  · have hwhole : IsDigits (ds ++ List.replicate (point - ds.length).toNat '0') :=
      ⟨by simp [hne], List.forall_mem_append.mpr ⟨hds, isDigit_zeros _⟩⟩
    simpa [json, zeros] using isUnsigned_point hwhole isDigits_zero
  · split
    · have hwhole : IsDigits (ds.take point.toNat) :=
        ⟨by simp [hne]; omega, fun d hd => hds d (List.mem_of_mem_take hd)⟩
      have hfraction : IsDigits (ds.drop point.toNat) :=
        ⟨by simp; omega, fun d hd => hds d (List.mem_of_mem_drop hd)⟩
      simpa using isUnsigned_point hwhole hfraction
    · have hfraction : IsDigits (List.replicate (-point).toNat '0' ++ ds) :=
        ⟨by simp [hne], List.forall_mem_append.mpr ⟨isDigit_zeros _, hds⟩⟩
      simpa [zeros] using isUnsigned_point isDigits_zero hfraction

/-- Before a power of ten JSON writes a number, and after the letter a sign. -/
theorem exists_withPower (h : IsDigits ds) (power : Int) :
    ∃ mantissa sign exponent,
      (json.withPower ds power).toList = mantissa ++ 'e' :: sign :: exponent ∧
      IsUnsigned mantissa ∧ isNameChar sign = false := by
  obtain ⟨sign, hsign, hname⟩ : ∃ sign : Char,
      (if 0 ≤ power then json.plus else "-") = String.singleton sign ∧ isNameChar sign = false := by
    split
    · exact ⟨'+', rfl, by decide⟩
    · exact ⟨'-', rfl, by decide⟩
  have hform (mantissa : List Char) :
      (String.ofList mantissa ++ "e" ++ (if 0 ≤ power then json.plus else "-") ++
        toString power.natAbs).toList =
        mantissa ++ 'e' :: sign :: (toString power.natAbs).toList := by
    rw [hsign]
    simp
  obtain ⟨hne, hds⟩ := h
  match ds with
  | [d] => exact ⟨[d], sign, _, hform [d], IsDigits.isUnsigned ⟨hne, hds⟩, hname⟩
  | d :: e :: rest =>
    obtain ⟨hd, hrest⟩ := List.forall_mem_cons.mp hds
    have hfirst : IsDigits [d] := ⟨nofun, by simpa using hd⟩
    have hmantissa : IsUnsigned (d :: '.' :: e :: rest) := isUnsigned_point hfirst ⟨nofun, hrest⟩
    exact ⟨_, sign, _, hform (d :: '.' :: e :: rest), hmantissa, hname⟩

end DecimalStyle

namespace Decimal

/-- The power of ten of the first digit. -/
def leadingPower (d : Decimal) : Int :=
  d.exponent + (Nat.toDigits 10 d.digits).length - 1

/-- A decimal is zero, or it is neither below `10 ^ -5` nor as large as `10 ^ 16`. -/
def IsPositional (d : Decimal) : Prop :=
  d.digits = 0 ∨ -5 ≤ d.leadingPower ∧ d.leadingPower ≤ 15

instance : DecidablePred IsPositional :=
  fun d => inferInstanceAs (Decidable (d.digits = 0 ∨ -5 ≤ d.leadingPower ∧ d.leadingPower ≤ 15))

variable {d : Decimal}

/-- The sign in front of a negative number. -/
theorem isNumber_sign {s : String} (negative : Bool) (h : IsUnsigned s.toList) :
    IsNumber ((if negative then "-" else "") ++ s).toList := by
  cases negative with
  | false => exact .inl (by simpa using h)
  | true => exact .inr ⟨s.toList, by simp, h⟩

theorem IsPositional.isNumber (h : d.IsPositional) (negative : Bool) :
    IsNumber (DecimalStyle.json.write negative d).toList := by
  unfold DecimalStyle.write
  dsimp only
  split
  · rw [String.append_assoc]
    exact isNumber_sign negative (isUnsigned_point isDigits_zero isDigits_zero)
  · next hzero =>
    obtain ⟨hlow, hhigh⟩ := h.resolve_left hzero
    rw [leadingPower] at hlow hhigh
    have hbounds : (decide (-5 ≤ d.exponent + (Nat.toDigits 10 d.digits).length - 1) &&
        decide (d.exponent + (Nat.toDigits 10 d.digits).length - 1 ≤ 15)) = true := by
      simp [hlow, hhigh]
    refine isNumber_sign negative ?_
    simp only [DecimalStyle.json, hbounds, if_true]
    exact DecimalStyle.isUnsigned_withPoint (isDigits_toDigits _) _

/-- Other decimals have a number, a name and a sign in front. -/
theorem exists_of_not_isPositional (h : ¬d.IsPositional) (negative : Bool) :
    ∃ mantissa sign exponent, (DecimalStyle.json.write negative d).toList =
      mantissa ++ 'e' :: sign :: exponent ∧ IsNumber mantissa ∧ isNameChar sign = false := by
  obtain ⟨hzero, hbounds⟩ := not_or.mp h
  obtain ⟨mantissa, sign, exponent, hform, hunsigned, hname⟩ :=
    DecimalStyle.exists_withPower (isDigits_toDigits d.digits) d.leadingPower
  have hmantissa : IsUnsigned (String.ofList mantissa).toList := by rwa [String.toList_ofList]
  refine ⟨_, sign, exponent, ?_, isNumber_sign negative hmantissa, hname⟩
  have hpower : (decide (-5 ≤ d.leadingPower) && decide (d.leadingPower ≤ 15)) = false := by
    simpa [Bool.and_eq_false_iff] using hbounds
  rw [leadingPower] at hpower hform
  unfold DecimalStyle.write
  simp only [hzero, if_false]
  simp only [DecimalStyle.json] at hform ⊢
  simp only [hpower, Bool.false_eq_true, if_false, String.toList_append, hform,
    String.toList_ofList, List.append_assoc]

end Decimal

/-! ## JSON numbers -/

namespace Json.Number

/-- A number is kept exactly, or it is near enough to one to be written without a power of ten. -/
def IsPositional : Number → Prop
  | .natural _ | .negative _ => True
  | .float x => (Decimal.shortest .binary64 x).IsPositional

instance : DecidablePred IsPositional
  | .natural _ | .negative _ => inferInstanceAs (Decidable True)
  | .float x => inferInstanceAs (Decidable (Decimal.shortest .binary64 x).IsPositional)

variable {n : Number}

theorem IsPositional.isNumber (h : n.IsPositional) : IsNumber n.text.toList := by
  have hdigits (k : Nat) : IsUnsigned (toString k).toList := by
    rw [Nat.toString_eq_repr, Nat.toList_repr]
    exact (isDigits_toDigits k).isUnsigned
  cases n with
  | natural k => exact .inl (hdigits k)
  | negative k => exact Decimal.isNumber_sign true (hdigits k)
  | float x => exact Decimal.IsPositional.isNumber h x.negative

theorem exists_of_not_isPositional (h : ¬n.IsPositional) :
    ∃ mantissa sign exponent, n.text.toList = mantissa ++ 'e' :: sign :: exponent ∧
      IsNumber mantissa ∧ isNameChar sign = false := by
  cases n with
  | natural k | negative k => exact absurd trivial h
  | float x => exact Decimal.exists_of_not_isPositional h x.negative

/-- A number that is written with a power of ten is cut before the power, whatever follows. -/
theorem scans_of_not_isPositional (h : ¬n.IsPositional)
    (hscans : Scans (n.text.toList ++ rest) tokens) :
    ∃ spelling name ts, tokens = .number spelling :: .atom name :: ts := by
  obtain ⟨mantissa, sign, exponent, htext, hmantissa, hsign⟩ := exists_of_not_isPositional h
  rw [htext, List.append_assoc, List.cons_append, List.cons_append] at hscans
  have hends : EndsNumber mantissa ('e' :: sign :: (exponent ++ rest)) :=
    ⟨by simp [show Char.isDigit 'e' = false by decide], by simp⟩
  obtain ⟨ts, rfl, hletter⟩ := hscans.of_number hmantissa hends
  have hname : Lexed 'e' [] (sign :: (exponent ++ rest)) (.atom (.ofList ['e'])) :=
    .atom (by decide) nofun (by simpa using hsign)
  obtain ⟨ts', rfl, -⟩ := Scans.of_lexed hname hletter
  exact ⟨_, _, ts', rfl⟩

/-- A JSON number is one token, the number with this spelling, exactly when it is written without a
power of ten. -/
theorem scan_text_iff (n : Number) :
    Token.scan n.text = .ok [(.number n.text, 0)] ↔ n.IsPositional := by
  constructor
  · intro hscan
    by_contra hpower
    have hscans : Scans (n.text.toList ++ []) [.number n.text] := by
      simpa using (lexes_of_scanFrom hscan).scans
    obtain ⟨spelling, name, ts, heq⟩ := scans_of_not_isPositional hpower hscans
    cases heq
  · intro h
    have hends : EndsNumber n.text.toList [] := ⟨nofun, nofun⟩
    obtain ⟨c, tail, htext, hlexed⟩ := h.isNumber.exists_lexed hends
    have hscan := Scans.scanFrom_token hlexed 0
    rw [List.append_nil, ← htext, String.ofList_toList] at hscan
    exact hscan

end Json.Number

end OntoLogic
