import Mathlib.Algebra.Order.Field.Basic
import Mathlib.Algebra.Order.Field.Rat
import RichStyle.Proofs.Decimals
import RichStyle.Proofs.Lowering

/-!
# Depths and their shadows

A depth in `rem` is lowered to a shadow whose blur is twice the depth.  The blur is a length of the same
form, and reads as exactly twice the depth, as long as the double is a finite magnitude.  Deeper values
are accepted as well, and their blur is no length.
-/

namespace RichStyle

/-! ## Doubles -/

namespace Magnitude

variable {n d : Nat}

/-- The double stays below the limit exactly below `2 ^ 1023`, less half of the spacing there. -/
theorem double_lt_limit_iff (hd : 0 < d) :
    2 * rounded (n * unit) d < limit ↔ n < (2 ^ 1023 - 2 ^ 969) * d := by
  have hlimit : limit = 2 * 2 ^ (2096 + 1) := by rw [limit_eq, ← pow_succ']
  have hscale : (2 ^ (2096 + 2) - 2 ^ (2096 - 52)) * d = 2 * unit * ((2 ^ 1023 - 2 ^ 969) * d) := by
    rw [unit_eq, ← pow_succ', ← Nat.mul_assoc, Nat.mul_sub, ← pow_add, ← pow_add]
  have hleft : 2 * (n * unit) = 2 * unit * n := by ring
  rw [hlimit, Nat.mul_lt_mul_left Nat.two_pos, rounded_lt_pow_iff hd (by omega), hscale, hleft,
    Nat.mul_lt_mul_left (Nat.mul_pos Nat.two_pos unit_pos)]

/-- The double of a rounded quotient is exact or infinite. -/
theorem scale_two_nearest (hd : 0 < d) :
    (nearest n d).scale 2 1 =
      if n < (2 ^ 1023 - 2 ^ 969) * d then finite (2 * rounded (n * unit) d) else infinite := by
  rw [nearest_eq]
  split
  · rw [scale_two (exact_rounded _ hd)]
    simp only [double_lt_limit_iff hd]
  · next hlimit =>
      have hdouble : ¬ 2 * rounded (n * unit) d < limit := by omega
      rw [if_neg (mt (double_lt_limit_iff hd).2 hdouble)]
      rfl

end Magnitude

namespace PointedNumeral

open Magnitude

/-- The number that a numeral stands for. -/
def value (number : PointedNumeral) : ℚ :=
  Number.value number.digits / 10 ^ number.behind.length

theorem value_lt_iff (number : PointedNumeral) :
    number.value < 2 ^ 1023 - 2 ^ 969 ↔
      Number.value number.digits < (2 ^ 1023 - 2 ^ 969) * 10 ^ number.behind.length := by
  have hpos : (0 : ℚ) < 10 ^ number.behind.length := by positivity
  have hle : 2 ^ 969 ≤ 2 ^ 1023 := pow_le_pow_right₀ (by omega) (by omega)
  have hbound : (2 ^ 1023 - 2 ^ 969 : ℚ) = ((2 ^ 1023 - 2 ^ 969 : Nat) : ℚ) := by
    rw [Nat.cast_sub hle, Nat.cast_pow, Nat.cast_pow]
    rfl
  rw [value, div_lt_iff₀ hpos, hbound]
  exact_mod_cast Iff.rfl

/-- A one and so many zeros. -/
def powerOfTen (zeros : Nat) : PointedNumeral where
  whole := ⟨'1' :: List.replicate zeros '0', by
    refine List.forall_mem_cons.2 ⟨rfl, fun c hc => ?_⟩
    rw [(List.mem_replicate.1 hc).2]
    rfl⟩
  fraction := none
  digits_ne_nil := by simp

theorem value_powerOfTen (zeros : Nat) : (powerOfTen zeros).value = 10 ^ zeros := by
  have hdigits : (powerOfTen zeros).digits = ['1'] ++ List.replicate zeros '0' := List.append_nil _
  have hbehind : (powerOfTen zeros).behind = [] := rfl
  have hone : Number.value ['1'] = 1 := Number.value_singleton '1'
  rw [value, hdigits, hbehind, Number.value_append, hone, Number.value_replicate_zero,
    List.length_replicate]
  simp

/-- Twice a number that is not too large is written as a numeral, and read back exactly. -/
theorem exists_double (number : PointedNumeral) (h : number.value < 2 ^ 1023 - 2 ^ 969) :
    ∃ units, number.magnitude = finite units ∧ ∃ double : PointedNumeral,
      (number.magnitude.scale 2 1).plainText.toList = double.text ∧
        double.magnitude = finite (2 * units) := by
  have hpos : 0 < 10 ^ number.behind.length := Nat.pow_pos (by omega)
  have hlt := number.value_lt_iff.1 h
  have hlimit := (double_lt_limit_iff hpos).2 hlt
  have hexact := exact_rounded (Number.value number.digits * unit) hpos
  have hnearest : number.magnitude = finite _ := (nearest_eq _ _).trans (if_pos (by omega))
  have hscale : number.magnitude.scale 2 1 = finite _ :=
    (scale_two_nearest hpos).trans (if_pos hlt)
  obtain ⟨double, htext, hmagnitude⟩ := exists_plainText (exact_two_mul hexact) hlimit
  exact ⟨_, hnearest, double, by rw [hscale, htext], hmagnitude⟩

theorem double_infinite (number : PointedNumeral) (h : ¬ number.value < 2 ^ 1023 - 2 ^ 969) :
    number.magnitude.scale 2 1 = infinite := by
  have hpos : 0 < 10 ^ number.behind.length := Nat.pow_pos (by omega)
  exact (scale_two_nearest hpos).trans (if_neg (mt number.value_lt_iff.2 h))

end PointedNumeral

/-! ## Lengths -/

namespace Depth

open Text

/-- Lengths are numerals in front of `rem`. -/
theorem rem?_eq_some_iff {value : List Char} {size : Magnitude} :
    rem? value = some size ↔
      ∃ number : PointedNumeral, value = number.text ++ "rem".toList ∧ number.magnitude = size := by
  unfold rem?
  rw [Option.bind_eq_some_iff]
  constructor
  · rintro ⟨front, hfront, hsize⟩
    obtain ⟨number, rfl, hmagnitude⟩ := Magnitude.ofDecimal?_eq_some_iff.1 hsize
    exact ⟨number, dropTrailing?_eq_some_iff.1 hfront, hmagnitude⟩
  · rintro ⟨number, hvalue, hmagnitude⟩
    exact ⟨number.text, dropTrailing?_eq_some_iff.2 hvalue,
      Magnitude.ofDecimal?_eq_some_iff.2 ⟨number, rfl, hmagnitude⟩⟩

theorem rem?_text (number : PointedNumeral) :
    rem? (number.text ++ "rem".toList) = some number.magnitude :=
  rem?_eq_some_iff.2 ⟨number, rfl, rfl⟩

end Depth

/-! ## Shadows -/

namespace Declaration

variable {d : Declaration}

theorem read?_length {value : List Char} {number : PointedNumeral}
    (h : value = number.text ++ "rem".toList) :
    value ≠ "3d".toList ∧ Depth.read? value = some (.rem number.magnitude) := by
  have hne : value ≠ "3d".toList := by
    rw [h]
    intro heq
    have hlast := congrArg List.getLast? heq
    simp at hlast
  refine ⟨hne, ?_⟩
  rw [Depth.read?, if_neg hne, h, Depth.rem?_text]
  rfl

/-- What is accepted as a depth and is not `3d` is a length. -/
theorem checked_length_iff (hname : Property.ofName? d.property = some .depth) :
    d.finding? = none ∧ d.trimmed ≠ "3d".toList ↔
      ∃ number : PointedNumeral, d.trimmed = number.text ++ "rem".toList := by
  unfold finding?
  rw [hname]
  simp only
  constructor
  · rintro ⟨hchecked, hlength⟩
    split at hchecked
    · next hread =>
        rw [Depth.read?, if_neg hlength, Option.isSome_map] at hread
        obtain ⟨size, hsize⟩ := Option.isSome_iff_exists.1 hread
        obtain ⟨number, hnumber, -⟩ := Depth.rem?_eq_some_iff.1 hsize
        exact ⟨number, hnumber⟩
    · cases hchecked
  · rintro ⟨number, hnumber⟩
    obtain ⟨hlength, hread⟩ := read?_length hnumber
    rw [hread]
    exact ⟨rfl, hlength⟩

/-- A length is lowered to a shadow with the double as its blur. -/
theorem lower_length (selector : String) {number : PointedNumeral}
    (hname : Property.ofName? d.property = some .depth)
    (hnumber : d.trimmed = number.text ++ "rem".toList) :
    d.lower selector = .ok (.plain [classified "box-shadow"
      ("0 " ++ String.ofList d.trimmed ++ " " ++ ((number.magnitude.scale 2 1).plainText ++ "rem") ++
        " rgba(0,0,0,.15)") d.span]) := by
  have hread := (read?_length hnumber).2
  have hform : plainForm? .depth d.trimmed =
      some [lowerDepth (String.ofList d.trimmed) (.rem number.magnitude)] := by
    unfold plainForm?
    rw [hread]
    rfl
  have htext : "0 " ++ String.ofList d.trimmed ++ " " ++ (number.magnitude.scale 2 1).plainText ++
      "rem rgba(0,0,0,.15)" = "0 " ++ String.ofList d.trimmed ++ " " ++
        ((number.magnitude.scale 2 1).plainText ++ "rem") ++ " rgba(0,0,0,.15)" := by
    have hunit : "rem rgba(0,0,0,.15)" = "rem" ++ " rgba(0,0,0,.15)" := rfl
    rw [hunit]
    simp only [String.append_assoc]
  refine lower_eq_ok_iff.2 ⟨.depth, hname, .inl ⟨_, hform, ?_⟩⟩
  rw [← htext]
  rfl

/--
Every length that is accepted as a depth is lowered to one shadow with it as its offset.  The blur is a
length again exactly if the depth is below `2 ^ 1023 - 2 ^ 969`, and is then read as twice the depth.
-/
theorem lower_depth_doubles (selector : String) (hname : Property.ofName? d.property = some .depth)
    (hchecked : d.finding? = none) (hlength : d.trimmed ≠ "3d".toList) :
    (∃ number : PointedNumeral, d.trimmed = number.text ++ "rem".toList) ∧
      ∃ blur : String,
        d.lower selector = .ok (.plain [classified "box-shadow"
          ("0 " ++ String.ofList d.trimmed ++ " " ++ blur ++ " rgba(0,0,0,.15)") d.span]) ∧
        ∀ number : PointedNumeral, d.trimmed = number.text ++ "rem".toList →
          ((Depth.rem? blur.toList).isSome = true ↔ number.value < 2 ^ 1023 - 2 ^ 969) ∧
          (number.value < 2 ^ 1023 - 2 ^ 969 →
            (∃ double : PointedNumeral, blur.toList = double.text ++ "rem".toList) ∧
            ∃ units, Depth.rem? d.trimmed = some (.finite units) ∧
              Depth.rem? blur.toList = some (.finite (2 * units))) := by
  obtain ⟨read, hread⟩ := (checked_length_iff hname).1 ⟨hchecked, hlength⟩
  refine ⟨⟨read, hread⟩, _, lower_length selector hname hread, fun number hnumber => ?_⟩
  -- a numeral is read in one way only, so that the blur is the double of this one too
  have hsame : read.magnitude = number.magnitude := by
    have hrem := Depth.rem?_text read
    rw [← hread, hnumber, Depth.rem?_text] at hrem
    exact (Option.some.inj hrem).symm
  rw [String.toList_append, hsame]
  by_cases hlt : number.value < 2 ^ 1023 - 2 ^ 969
  · obtain ⟨units, hunits, double, htext, hdouble⟩ := number.exists_double hlt
    have hsize : Depth.rem? d.trimmed = some (.finite units) := by
      rw [hnumber, Depth.rem?_text, hunits]
    have hblur := Depth.rem?_text double
    rw [hdouble] at hblur
    rw [htext, hblur]
    exact ⟨by simp [hlt], fun _ => ⟨⟨double, rfl⟩, units, hsize, rfl⟩⟩
  · have hblur : Depth.rem? ("inf".toList ++ "rem".toList) = none := by decide
    rw [number.double_infinite hlt]
    exact ⟨by simpa [hlt, Magnitude.plainText] using hblur, fun h => absurd h hlt⟩

/-- A depth with more digits than a magnitude can hold. -/
theorem lower_depth_doubles_long :
    let number : PointedNumeral :=
      ⟨⟨"12345678901234567890".toList, List.all_eq_true.1 (by decide)⟩,
        some ⟨"25".toList, List.all_eq_true.1 (by decide)⟩, by decide⟩
    let d := classified "Depth" " 12345678901234567890.25rem " ⟨1, 4⟩
    Property.ofName? d.property = some .depth ∧ d.finding? = none ∧ d.trimmed ≠ "3d".toList ∧
      d.trimmed = number.text ++ "rem".toList ∧ number.value < 2 ^ 1023 - 2 ^ 969 ∧
      ∃ blur : String,
        d.lower ".a" = .ok (.plain [classified "box-shadow"
          ("0 " ++ String.ofList d.trimmed ++ " " ++ blur ++ " rgba(0,0,0,.15)") d.span]) ∧
        (Depth.rem? blur.toList).isSome = true := by
  intro number d
  have hname : Property.ofName? d.property = some .depth := by decide +kernel
  have hnumber : d.trimmed = number.text ++ "rem".toList := by decide +kernel
  obtain ⟨hchecked, hlength⟩ := (checked_length_iff hname).2 ⟨number, hnumber⟩
  have hlt : number.value < 2 ^ 1023 - 2 ^ 969 := by
    have hvalue : Number.value number.digits < 2 ^ 80 := by decide +kernel
    have hsmall : 2 ^ 80 ≤ 2 ^ 1022 := pow_le_pow_right₀ (by omega) (by omega)
    have hhalf : 2 ^ 969 ≤ 2 ^ 1022 := pow_le_pow_right₀ (by omega) (by omega)
    have hdouble : 2 ^ 1023 = 2 * 2 ^ 1022 := pow_succ' 2 1022
    refine number.value_lt_iff.2 (Nat.lt_of_lt_of_le ?_ (Nat.le_mul_of_pos_right _ (Nat.pow_pos ?_)))
    · omega
    · omega
  obtain ⟨-, blur, hlower, hblur⟩ := lower_depth_doubles ".a" hname hchecked hlength
  exact ⟨hname, hchecked, hlength, hnumber, hlt, blur, hlower, (hblur number hnumber).1.2 hlt⟩

/-- The depth `10 ^ 308` is accepted, and its double is written `inf`. -/
theorem lower_depth_overflows :
    let value := (PointedNumeral.powerOfTen 308).text ++ "rem".toList
    let d := classified "depth" (String.ofList value) ⟨1, 4⟩
    d.finding? = none ∧ d.trimmed ≠ "3d".toList ∧
      d.lower ".a" = .ok (.plain [classified "box-shadow"
        ("0 " ++ String.ofList value ++ " " ++ "infrem" ++ " rgba(0,0,0,.15)") d.span]) ∧
      Depth.rem? "infrem".toList = none := by
  intro value d
  have hname : Property.ofName? d.property = some .depth := by decide +kernel
  have hvalue : d.trimmed = value := by
    have htrim : Text.trim value = value := by decide +kernel
    rw [trimmed]
    exact (congrArg Text.trim String.toList_ofList).trans htrim
  have hlarge : ¬ (PointedNumeral.powerOfTen 308).value < 2 ^ 1023 - 2 ^ 969 := by
    have hpow : (2 : ℚ) ^ 1023 ≤ 10 ^ 308 := by
      calc (2 : ℚ) ^ 1023 = (2 ^ 93) ^ 11 := pow_mul 2 93 11
        _ ≤ (10 ^ 28) ^ 11 := pow_le_pow_left₀ (by norm_num) (by norm_num) 11
        _ = 10 ^ 308 := (pow_mul 10 28 11).symm
    have hpos : (0 : ℚ) ≤ 2 ^ 969 := by positivity
    rw [PointedNumeral.value_powerOfTen, not_lt]
    exact (sub_le_self _ hpos).trans hpow
  obtain ⟨hchecked, hlength⟩ := (checked_length_iff hname).2 ⟨_, hvalue⟩
  have hlower := lower_length ".a" hname hvalue
  rw [PointedNumeral.double_infinite _ hlarge, hvalue] at hlower
  exact ⟨hchecked, hlength, hlower, by decide⟩

end Declaration

end RichStyle
