import Mathlib.Data.Nat.Digits.Defs
import RichStyle.Number

/-!
# Numerals

Digits stand for a number: each digit counts as often as its power of ten says.  The readers of whole
and of decimal numbers accept exactly the texts that are written out here, whatever their length.
-/

namespace RichStyle

/-- Decimal digits, or nothing. -/
abbrev Numeral := { s : List Char // ∀ c ∈ s, c.isDigit = true }

/-! ## The value of digits -/

namespace Number

/-- The number that digits stand for, as the sum of the digits times their powers of ten. -/
def value (s : List Char) : Nat :=
  Nat.ofDigits 10 (s.reverse.map fun c => c.toNat - '0'.toNat)

theorem value_append (s t : List Char) : value (s ++ t) = value s * 10 ^ t.length + value t := by
  unfold value
  rw [List.reverse_append, List.map_append, Nat.ofDigits_append, List.length_map, List.length_reverse]
  ring

theorem value_singleton (c : Char) : value [c] = c.toNat - '0'.toNat := by
  simp [value]

/-- Reading digits from the left gives their value. -/
theorem ofDigits_eq_value (s : List Char) : ofDigits s = value s := by
  unfold ofDigits
  induction s with
  | nil => rfl
  | cons c s ih =>
      have hvalue := value_append [c] s
      rw [List.singleton_append, value_singleton] at hvalue
      rw [Nat.ofDigitChars_cons, Nat.ofDigitChars_eq_ofDigitChars_zero, ih, hvalue]
      ring

theorem value_digits (n : Nat) : value (digits n) = n := by
  rw [← ofDigits_eq_value]
  exact Nat.ofDigitChars_ten_toDigits

theorem value_replicate_zero (n : Nat) : value (List.replicate n '0') = 0 := by
  rw [← ofDigits_eq_value, ofDigits, Nat.ofDigitChars_replicate_zero, Nat.mul_zero]

theorem value_paddedDigits (width n : Nat) : value (paddedDigits width n) = n := by
  rw [paddedDigits, value_append, value_replicate_zero, value_digits, Nat.zero_mul, Nat.zero_add]

theorem isDigit_of_mem_paddedDigits {width n : Nat} :
    ∀ c ∈ paddedDigits width n, c.isDigit = true := by
  refine List.forall_mem_append.2 ⟨fun c hc => ?_, fun c hc => ?_⟩
  · rw [(List.mem_replicate.1 hc).2]
    rfl
  · exact Nat.isDigit_of_mem_toDigits (by omega) (by omega) hc

/-! ## Whole numbers -/

/-- What is read of digits alone. -/
def natural? (body : List Char) : Option Nat :=
  if body.isEmpty || !body.all Char.isDigit then none
  else if ofDigits body < Nat.pow 2 64 then some (ofDigits body)
  else none

theorem count?_plus (s : List Char) : count? ('+' :: s) = natural? s := rfl

theorem count?_of_ne {s : List Char} (h : s.head? ≠ some '+') : count? s = natural? s := by
  unfold count?
  split
  · exact absurd rfl h
  · rfl

theorem natural?_eq_some_iff {s : List Char} {n : Nat} :
    natural? s = some n ↔
      s ≠ [] ∧ (∀ c ∈ s, c.isDigit = true) ∧ value s = n ∧ n < 2 ^ 64 := by
  unfold natural?
  rw [ofDigits_eq_value, Nat.pow_eq]
  constructor
  · intro h
    split at h
    · cases h
    · next hdigits =>
        split at h
        · next hlt =>
            obtain rfl := Option.some.inj h
            simp only [Bool.or_eq_true, List.isEmpty_iff, Bool.not_eq_true', not_or,
              Bool.not_eq_false, List.all_eq_true] at hdigits
            exact ⟨hdigits.1, hdigits.2, rfl, hlt⟩
        · cases h
  · rintro ⟨hne, hdigits, rfl, hlt⟩
    have hall : s.all Char.isDigit = true := List.all_eq_true.2 hdigits
    rw [if_neg (by simp [hne, hall]), if_pos hlt]

/-- Whole numbers are digits with at most one plus sign in front, below `2 ^ 64`. -/
theorem count?_eq_some_iff {s : List Char} {n : Nat} :
    count? s = some n ↔
      ∃ sign digits : List Char, (sign = [] ∨ sign = ['+']) ∧ s = sign ++ digits ∧ digits ≠ [] ∧
        (∀ c ∈ digits, c.isDigit = true) ∧ value digits = n ∧ n < 2 ^ 64 := by
  constructor
  · intro h
    by_cases hplus : s.head? = some '+'
    · obtain ⟨rest, rfl⟩ := List.head?_eq_some_iff.1 hplus
      rw [count?_plus] at h
      exact ⟨['+'], rest, .inr rfl, rfl, natural?_eq_some_iff.1 h⟩
    · rw [count?_of_ne hplus] at h
      exact ⟨[], s, .inl rfl, rfl, natural?_eq_some_iff.1 h⟩
  · rintro ⟨sign, body, rfl | rfl, hs, hne, hdigits, hvalue⟩
    · obtain rfl : s = body := hs
      have hplus : s.head? ≠ some '+' := fun hhead =>
        absurd (hdigits '+' (List.mem_of_head? hhead)) (by decide)
      rw [count?_of_ne hplus]
      exact natural?_eq_some_iff.2 ⟨hne, hdigits, hvalue⟩
    · rw [hs, List.singleton_append, count?_plus]
      exact natural?_eq_some_iff.2 ⟨hne, hdigits, hvalue⟩

end Number

/-! ## Decimal numbers -/

/-- Digits with at most one point among them, and at least one digit. -/
structure PointedNumeral where
  whole : Numeral
  /-- The digits behind the point, if there is one. -/
  fraction : Option Numeral
  digits_ne_nil : whole.1 ++ (fraction.elim [] Subtype.val) ≠ []

namespace PointedNumeral

/-- The digits behind the point. -/
def behind (number : PointedNumeral) : List Char :=
  number.fraction.elim [] Subtype.val

/-- The digits in front of the point and behind it. -/
def digits (number : PointedNumeral) : List Char :=
  number.whole.1 ++ number.behind

/-- The numeral as it is written. -/
def text (number : PointedNumeral) : List Char :=
  number.whole.1 ++ number.fraction.elim [] fun fraction => '.' :: fraction.1

/-- The magnitude nearest to the number. -/
def magnitude (number : PointedNumeral) : Magnitude :=
  .nearest (Number.value number.digits) (10 ^ number.behind.length)

end PointedNumeral

/-- Digits up to a point or the end are split off as they stand. -/
theorem span_digits {whole : List Char} (rest : List Char) (hwhole : ∀ c ∈ whole, c.isDigit = true)
    (hrest : ∀ c ∈ rest.head?, c.isDigit = false) :
    (whole ++ rest).takeWhile Char.isDigit = whole ∧
      (whole ++ rest).dropWhile Char.isDigit = rest := by
  rw [List.takeWhile_append_of_pos hwhole, List.dropWhile_append_of_pos hwhole]
  cases rest with
  | nil => simp
  | cons c rest => simp [hrest c (by simp)]

namespace Magnitude

theorem ofDecimal?_text (number : PointedNumeral) :
    ofDecimal? number.text = some number.magnitude := by
  obtain ⟨⟨whole, hwhole⟩, fraction, hne⟩ := number
  cases fraction with
  | none =>
      obtain ⟨htake, hdrop⟩ := span_digits [] hwhole (by simp)
      rw [List.append_nil] at htake hdrop
      have hne' : whole ≠ [] := by simpa using hne
      simp [ofDecimal?, PointedNumeral.text, PointedNumeral.magnitude, PointedNumeral.digits,
        PointedNumeral.behind, htake, hdrop, hne', Number.ofDigits_eq_value]
  | some fraction =>
      obtain ⟨htake, hdrop⟩ := span_digits ('.' :: fraction.1) hwhole (by simp)
      have hall : fraction.1.all Char.isDigit = true := List.all_eq_true.2 fraction.2
      have hne' : whole ++ fraction.1 ≠ [] := hne
      simp [ofDecimal?, PointedNumeral.text, PointedNumeral.magnitude, PointedNumeral.digits,
        PointedNumeral.behind, htake, hdrop, hall, hne', Number.ofDigits_eq_value]

theorem exists_text {s : List Char} (h : (ofDecimal? s).isSome = true) :
    ∃ number : PointedNumeral, number.text = s := by
  have hs : s.takeWhile Char.isDigit ++ s.dropWhile Char.isDigit = s :=
    List.takeWhile_append_dropWhile
  have hwhole : ∀ c ∈ s.takeWhile Char.isDigit, c.isDigit = true :=
    List.all_eq_true.1 List.all_takeWhile
  unfold ofDecimal? at h
  simp only [Option.isSome_ite] at h
  split at h
  · next hrest =>
      rw [hrest] at h hs
      exact ⟨⟨⟨_, hwhole⟩, none, by simpa using h⟩, hs⟩
  · next c fraction hrest =>
      rw [hrest, List.drop_one, List.tail_cons] at h
      rw [hrest] at hs
      simp only [Bool.and_eq_true, beq_iff_eq, Bool.not_eq_true', List.isEmpty_eq_false_iff] at h
      obtain ⟨⟨rfl, hfraction⟩, hne⟩ := h
      exact ⟨⟨⟨_, hwhole⟩, some ⟨fraction, List.all_eq_true.1 hfraction⟩, hne⟩, hs⟩

/-- Decimal numbers are pointed numerals, read as the nearest magnitude. -/
theorem ofDecimal?_eq_some_iff {s : List Char} {m : Magnitude} :
    ofDecimal? s = some m ↔ ∃ number : PointedNumeral, number.text = s ∧ number.magnitude = m := by
  constructor
  · intro h
    obtain ⟨number, rfl⟩ := exists_text (Option.isSome_of_eq_some h)
    rw [ofDecimal?_text] at h
    exact ⟨number, rfl, Option.some.inj h⟩
  · rintro ⟨number, rfl, rfl⟩
    exact ofDecimal?_text number

end Magnitude

end RichStyle
