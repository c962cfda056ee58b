import Climate.Apps.Definitions
import Climate.Spec.Resources

/-!
# Sizes

A size is read as the number of bytes it denotes: an amount in decimal and a
unit. A plain number of TOML's goes the same way as its text.
-/

namespace Climate

-- ---------------------------------------------------------------------------
-- Amounts
-- ---------------------------------------------------------------------------

structure IsNumeral (digits : List Char) : Prop where
  ne_nil : digits ≠ []
  digit : ∀ c ∈ digits, c.isDigit = true

/-- A decimal numeral with an optional sign, and the number it denotes. -/
inductive Decimal : List Char → Int → Prop
  | plain : IsNumeral digits → Decimal digits (Nat.ofDigitChars 10 digits 0)
  | plus : IsNumeral digits → Decimal ('+' :: digits) (Nat.ofDigitChars 10 digits 0)
  | minus : IsNumeral digits → Decimal ('-' :: digits) (-Nat.ofDigitChars 10 digits 0)

theorem isNumeral_iff : digits ≠ [] ∧ digits.all Char.isDigit = true ↔ IsNumeral digits := by
  rw [List.all_eq_true]
  exact ⟨fun ⟨hne, hdigit⟩ => ⟨hne, hdigit⟩, fun h => ⟨h.ne_nil, h.digit⟩⟩

theorem IsNumeral.head (h : IsNumeral (c :: digits)) (hc : c.isDigit = false) : False := by
  rw [h.digit c (by simp)] at hc
  cases hc

/-- Whether a text starts with a minus, and what follows its sign. -/
def signOf : List Char → Bool × List Char
  | '-' :: digits => (true, digits)
  | '+' :: digits => (false, digits)
  | digits => (false, digits)

/-- The number that follows a sign. -/
def signedValue (sign : Bool × List Char) : Int :=
  if sign.1 then -Nat.ofDigitChars 10 sign.2 0 else Nat.ofDigitChars 10 sign.2 0

theorem decimal_iff : Decimal text n ↔ IsNumeral (signOf text).2 ∧ signedValue (signOf text) = n := by
  constructor
  · intro h
    cases h with
    | plus hnumeral | minus hnumeral => exact ⟨hnumeral, rfl⟩
    | plain hnumeral =>
      have hsign : signOf text = (false, text) := by
        unfold signOf
        split
        · exact (hnumeral.head (by decide)).elim
        · exact (hnumeral.head (by decide)).elim
        · rfl
      rw [hsign]
      exact ⟨hnumeral, rfl⟩
  · rintro ⟨hnumeral, rfl⟩
    unfold signOf at hnumeral ⊢
    split at hnumeral
    · exact .minus hnumeral
    · exact .plus hnumeral
    · exact .plain hnumeral

theorem Decimal.unique (h : Decimal text m) (h' : Decimal text n) : m = n :=
  (decimal_iff.mp h).2.symm.trans (decimal_iff.mp h').2

theorem parseI64_iff : parseI64 text = some n ↔ Decimal text n ∧ fitsI64 n = true := by
  have hparse : parseI64 text = if (signOf text).2 ≠ [] ∧ (signOf text).2.all Char.isDigit = true ∧
      fitsI64 (signedValue (signOf text)) = true then some (signedValue (signOf text)) else none := rfl
  rw [hparse, Option.ite_none_right_eq_some, Option.some.injEq, ← and_assoc, isNumeral_iff, decimal_iff]
  constructor
  · rintro ⟨⟨hnumeral, hfits⟩, rfl⟩
    exact ⟨⟨hnumeral, rfl⟩, hfits⟩
  · rintro ⟨⟨hnumeral, rfl⟩, hfits⟩
    exact ⟨⟨hnumeral, hfits⟩, rfl⟩

-- ---------------------------------------------------------------------------
-- Units
-- ---------------------------------------------------------------------------

/-- The units in lower case, each with its power of 1024. -/
def unitPowers : List (String × Nat) :=
  [("", 0), ("b", 0), ("k", 1), ("kb", 1), ("kib", 1), ("m", 2), ("mb", 2), ("mib", 2), ("g", 3), ("gb", 3),
    ("gib", 3), ("t", 4), ("tb", 4), ("tib", 4)]

theorem unitMultiplier_iff : unitMultiplier unit = some multiplier ↔
    ∃ power, (unit, power) ∈ unitPowers ∧ multiplier = 1024 ^ power := by
  constructor
  · intro h
    unfold unitMultiplier at h
    split at h
    next hunit => cases h; exact ⟨0, by simp_all [unitPowers], rfl⟩
    split at h
    next hunit => cases h; exact ⟨1, by simp_all [unitPowers], rfl⟩
    split at h
    next hunit => cases h; exact ⟨2, by simp_all [unitPowers], rfl⟩
    split at h
    next hunit => cases h; exact ⟨3, by simp_all [unitPowers], rfl⟩
    split at h
    next hunit => cases h; exact ⟨4, by simp_all [unitPowers], rfl⟩
    cases h
  · rintro ⟨power, hmem, rfl⟩
    have hall : ∀ e ∈ unitPowers, unitMultiplier e.1 = some (1024 ^ e.2) := by decide
    exact hall _ hmem

theorem isAlpha_of_toLower {c : Char} (h : c.toLower.isAlpha = true) : c.isAlpha = true := by
  unfold Char.toLower at h
  split at h
  next hupper =>
    change (decide (c.val ≥ 65 ∧ c.val ≤ 90) || c.isLower) = true
    rw [Bool.or_eq_true]
    exact .inl (by simpa using hupper)
  next => exact h

theorem unit_isAlpha {unit : List Char} (h : (String.ofList (unit.map Char.toLower), power) ∈ unitPowers) :
    ∀ c ∈ unit, c.isAlpha = true := by
  have hall : ∀ e ∈ unitPowers, e.1.toList.all Char.isAlpha = true := by decide
  intro c hc
  refine isAlpha_of_toLower (List.all_eq_true.mp (hall _ h) _ ?_)
  rw [String.toList_ofList]
  exact List.mem_map_of_mem hc

-- ---------------------------------------------------------------------------
-- The split
-- ---------------------------------------------------------------------------

/-- What is left of a text without the letters at its end. -/
def numberPart (value : String) : List Char := (value.toList.reverse.dropWhile Char.isAlpha).reverse

def unitPart (value : String) : List Char := value.toList.drop (numberPart value).length

theorem numberPart_initial (value : String) : numberPart value <+: value.toList := by
  rw [numberPart, ← List.reverse_suffix, List.reverse_reverse]
  exact List.dropWhile_suffix _

theorem number_append_unit (value : String) : numberPart value ++ unitPart value = value.toList :=
  (List.prefix_append_drop (numberPart_initial value)).symm

/-- The split is between two characters. -/
theorem split_isValid (value : String) :
    (String.Pos.Raw.mk (String.ofList (numberPart value)).utf8ByteSize).IsValid value := by
  refine String.Pos.Raw.isValid_iff_exists_append.mpr
    ⟨String.ofList (numberPart value), String.ofList (unitPart value), ?_, rfl⟩
  rw [← String.ofList_append, number_append_unit, String.ofList_toList]

theorem isAlpha_of_isDigit {c : Char} (h : c.isDigit = true) : c.isAlpha = false := by
  simp only [Char.isDigit, Bool.and_eq_true, decide_eq_true_eq, UInt32.le_iff_toNat_le, ge_iff_le,
    Char.reduceVal, UInt32.reduceToNat] at h
  change (decide (65 ≤ c.val ∧ c.val ≤ 90) || 97 ≤ c.val && c.val ≤ 122) = false
  simp only [UInt32.le_iff_toNat_le, UInt32.reduceToNat, Bool.or_eq_false_iff, Bool.and_eq_false_iff,
    decide_eq_false_iff_not, not_and]
  omega

theorem IsNumeral.last (h : IsNumeral digits) : ∃ rest c, digits = rest ++ [c] ∧ c.isDigit = true := by
  obtain ⟨rest, c, rfl⟩ := List.eq_nil_or_concat'  digits |>.resolve_left h.ne_nil
  exact ⟨rest, c, rfl, h.digit c (by simp)⟩

theorem Decimal.last (h : Decimal text n) : ∃ rest c, text = rest ++ [c] ∧ c.isDigit = true := by
  cases h with
  | plain hnumeral => exact hnumeral.last
  | plus hnumeral | minus hnumeral =>
    obtain ⟨rest, c, rfl, hc⟩ := hnumeral.last
    exact ⟨_ :: rest, c, rfl, hc⟩

theorem numberPart_eq {value : String} (hvalue : value.toList = number ++ unit) (hnumber : Decimal number n)
    (hunit : ∀ c ∈ unit, c.isAlpha = true) : numberPart value = number := by
  obtain ⟨rest, c, rfl, hc⟩ := hnumber.last
  rw [numberPart, hvalue, List.reverse_append, List.dropWhile_append_of_pos (by simpa using hunit)]
  simp [isAlpha_of_isDigit hc]

theorem unitPart_eq {value : String} (hvalue : value.toList = number ++ unit) (hnumber : Decimal number n)
    (hunit : ∀ c ∈ unit, c.isAlpha = true) : unitPart value = unit := by
  rw [unitPart, numberPart_eq hvalue hnumber hunit, hvalue, List.drop_left]

-- ---------------------------------------------------------------------------
-- What a text denotes
-- ---------------------------------------------------------------------------

/-- A text denotes a number of bytes: an amount that is not negative, with a
unit in any letter case, where both the amount and the product fit. -/
inductive Denotes (value : String) : Int → Prop
  | mk : value.toList = number ++ unit → Decimal number amount → fitsI64 amount = true → 0 ≤ amount →
      (String.ofList (unit.map Char.toLower), power) ∈ unitPowers →
      fitsI64 (amount * 1024 ^ power) = true → Denotes value (amount * 1024 ^ power)

theorem orNone_bind {x : Option α} {f : α → Except String β} :
    (orNone message x >>= f) = .ok b ↔ ∃ a, x = some a ∧ f a = .ok b := by
  cases x with
  | none => simp [orNone, bind, Except.bind]
  | some a => simp [orNone, bind, Except.bind]

theorem parseMemory_iff : parseMemory key value = .ok n ↔ Denotes value n := by
  unfold parseMemory
  change (orNone _ (parseI64 (numberPart value)) >>= fun amount => _) = .ok n ↔ _
  rw [orNone_bind]
  simp only [parseI64_iff]
  constructor
  · rintro ⟨amount, ⟨hdecimal, hamount⟩, h⟩
    split at h
    next => cases h
    next hnonneg =>
      change (orNone _ (unitMultiplier (String.ofList ((unitPart value).map Char.toLower))) >>=
        fun _ => _) = _ at h
      obtain ⟨multiplier, hmultiplier, h⟩ := orNone_bind.mp h
      obtain ⟨power, hunit, rfl⟩ := unitMultiplier_iff.mp hmultiplier
      split at h
      next hfits =>
        cases h
        exact .mk (number_append_unit value).symm hdecimal hamount (by omega) hunit hfits
      next => cases h
  · rintro ⟨hvalue, hdecimal, hamount, hnonneg, hunit, hfits⟩
    rename_i number unit amount power
    have halpha := unit_isAlpha hunit
    refine ⟨amount, ⟨?_, hamount⟩, ?_⟩
    · rwa [numberPart_eq hvalue hdecimal halpha]
    · rw [if_neg (by omega)]
      change (orNone _ (unitMultiplier (String.ofList ((unitPart value).map Char.toLower))) >>= fun _ => _) = _
      rw [unitPart_eq hvalue hdecimal halpha]
      refine orNone_bind.mpr ⟨_, unitMultiplier_iff.mpr ⟨power, hunit, rfl⟩, ?_⟩
      rw [if_pos hfits]

-- ---------------------------------------------------------------------------
-- Plain numbers
-- ---------------------------------------------------------------------------

theorem isNumeral_toDigits (n : Nat) : IsNumeral (Nat.toDigits 10 n) :=
  ⟨Nat.toDigits_ne_nil, fun _ hc => Nat.isDigit_of_mem_toDigits (by decide) (by decide) hc⟩

theorem decimal_toString (n : Int) : Decimal (toString n).toList n := by
  rw [Int.toString_eq_repr, Int.repr_eq_if]
  split
  next hnonneg =>
    rw [Nat.toList_repr]
    have hdecimal := Decimal.plain (isNumeral_toDigits n.toNat)
    rwa [Nat.ofDigitChars_ten_toDigits, Int.toNat_of_nonneg hnonneg] at hdecimal
  next hnegative =>
    rw [String.toList_append, Nat.toList_repr]
    have hdecimal := Decimal.minus (isNumeral_toDigits (-n).toNat)
    rwa [Nat.ofDigitChars_ten_toDigits, Int.toNat_of_nonneg (by omega), Int.neg_neg] at hdecimal

theorem fitsI64_toInt (n : Int64) : fitsI64 n.toInt = true := by
  have hlow := n.le_toInt
  have hhigh := n.toInt_lt
  unfold fitsI64 i64Min i64Max
  rw [Bool.and_eq_true, decide_eq_true_eq, decide_eq_true_eq]
  exact ⟨hlow, Int.le_sub_one_of_lt hhigh⟩

theorem parseMemory_toString (n : Int64) : (0 ≤ n.toInt → parseMemory key (toString n) = .ok n.toInt) ∧
    (n.toInt < 0 → ∃ e, parseMemory key (toString n) = .error e) := by
  have hdecimal : Decimal (toString n).toList n.toInt := decimal_toString n.toInt
  constructor
  · intro hnonneg
    have hdenotes : Denotes (toString n) (n.toInt * 1024 ^ 0) :=
      .mk (List.append_nil _).symm hdecimal (fitsI64_toInt n) hnonneg (by decide) (by simpa using fitsI64_toInt n)
    exact parseMemory_iff.mpr (by simpa using hdenotes)
  · intro hnegative
    cases hparse : parseMemory key (toString n) with
    | error e => exact ⟨e, rfl⟩
    | ok m =>
      obtain ⟨hvalue, hamount, -, hnonneg, hunit, -⟩ := parseMemory_iff.mp hparse
      have hnumber := numberPart_eq hvalue hamount (unit_isAlpha hunit)
      have hwhole : numberPart (toString n) = (toString n).toList :=
        numberPart_eq (List.append_nil _).symm hdecimal (by simp)
      rw [← hnumber, hwhole] at hamount
      have heq := hamount.unique hdecimal
      omega

/-- A size is read exactly as the number of bytes it denotes. A plain number is
read as its text is. -/
theorem sizes_parse_exactly :
    (∀ key value n, parseMemory key value = .ok n ↔ Denotes value n) ∧
    (∀ value, (String.Pos.Raw.mk (String.ofList (numberPart value)).utf8ByteSize).IsValid value) ∧
    ∀ key (n : Int64), ∃ text, size (.integer n) = some text ∧ size (.string (toString n)) = some text ∧
      (0 ≤ n.toInt → parseMemory key text = .ok n.toInt) ∧
      (n.toInt < 0 → ∃ e, parseMemory key text = .error e) :=
  ⟨fun _ _ _ => parseMemory_iff, split_isValid, fun _ n =>
    ⟨toString n, rfl, rfl, parseMemory_toString n⟩⟩

end Climate
