import RichStyle.Number
import RichStyle.Proofs.Numerals
import RichStyle.Proofs.Rounding

/-!
# Decimal texts of magnitudes

A magnitude is written with the fewest digits that read back.  Seventeen digits are always enough,
because two neighbours with that many digits are closer together than two magnitudes.  So what is
written for a finite magnitude is a numeral, and it is read as that magnitude again.
-/

namespace RichStyle

/-! ## Equal quotients -/

theorem Number.divNearestEven_mul_right (n d : Nat) {k : Nat} (hk : 0 < k) :
    divNearestEven (n * k) (d * k) = divNearestEven n d := by
  have hless : 2 * (n % d * k) < d * k ↔ 2 * (n % d) < d := by
    rw [← Nat.mul_assoc, Nat.mul_lt_mul_right hk]
  have hmore : d * k < 2 * (n % d * k) ↔ d < 2 * (n % d) := by
    rw [← Nat.mul_assoc, Nat.mul_lt_mul_right hk]
  simp only [divNearestEven, Nat.mul_div_mul_right _ _ hk, Nat.mul_mod_mul_right, hless, hmore]

namespace Magnitude

theorem rounded_mul_right (x d : Nat) {k : Nat} (hk : 0 < k) :
    rounded (x * k) (d * k) = rounded x d := by
  unfold rounded
  rw [Nat.mul_div_mul_right _ _ hk, Nat.mul_right_comm, Number.divNearestEven_mul_right _ _ hk]

/-- Equal quotients have the same nearest magnitude. -/
theorem nearest_congr {n d n' d' : Nat} (hd : 0 < d) (hd' : 0 < d') (h : n * d' = n' * d) :
    nearest n d = nearest n' d' := by
  have hrounded : rounded (n * unit) d = rounded (n' * unit) d' := by
    rw [← rounded_mul_right _ d hd', ← rounded_mul_right _ d' hd, Nat.mul_right_comm n, h,
      Nat.mul_right_comm n', Nat.mul_comm d]
  rw [nearest_eq, nearest_eq, hrounded]

end Magnitude

namespace Decimal

open Magnitude

variable {tie : Tie} {units : Nat}

theorem magnitude_eq (digits : Nat) (exponent : Int) :
    (Decimal.mk digits exponent).magnitude =
      nearest (digits * 10 ^ exponent.toNat) (10 ^ (-exponent).toNat) := rfl

/-- Zeros at the end of the digits count in the exponent. -/
theorem magnitude_mul_pow (digits zeros : Nat) (exponent : Int) :
    (Decimal.mk (digits * 10 ^ zeros) exponent).magnitude =
      (Decimal.mk digits (exponent + zeros)).magnitude := by
  rw [magnitude_eq, magnitude_eq]
  refine nearest_congr (Nat.pow_pos (by omega)) (Nat.pow_pos (by omega)) ?_
  have hpowers : 10 ^ zeros * 10 ^ exponent.toNat * 10 ^ (-(exponent + zeros)).toNat =
      10 ^ (exponent + zeros).toNat * 10 ^ (-exponent).toNat := by
    rw [← pow_add, ← pow_add, ← pow_add]
    congr 1
    omega
  calc digits * 10 ^ zeros * 10 ^ exponent.toNat * 10 ^ (-(exponent + zeros)).toNat
      = digits * (10 ^ zeros * 10 ^ exponent.toNat * 10 ^ (-(exponent + zeros)).toNat) := by ring
    _ = digits * (10 ^ (exponent + zeros).toNat * 10 ^ (-exponent).toNat) := by rw [hpowers]
    _ = digits * 10 ^ (exponent + zeros).toNat * 10 ^ (-exponent).toNat := by ring

/-- A number is a multiple of the power of ten that its trailing zeros show. -/
theorem pow_trailing_dvd (n : Nat) :
    10 ^ ((Number.digits n).reverse.takeWhile (· == '0')).length ∣ n := by
  generalize hzeros : (Number.digits n).reverse.takeWhile (· == '0') = zeros
  have hsplit : Number.digits n =
      ((Number.digits n).reverse.dropWhile (· == '0')).reverse ++ zeros.reverse := by
    rw [← List.reverse_append, ← hzeros, List.takeWhile_append_dropWhile, List.reverse_reverse]
  have hall : zeros.reverse = List.replicate zeros.length '0' := by
    refine List.eq_replicate_iff.2 ⟨List.length_reverse, fun c hc => ?_⟩
    have hc' := List.all_eq_true.1 (hzeros ▸ List.all_takeWhile) c (List.mem_reverse.1 hc)
    exact beq_iff_eq.1 hc'
  have hvalue := Number.value_digits n
  rw [hsplit, hall, Number.value_append, Number.value_replicate_zero, List.length_replicate] at hvalue
  exact ⟨_, by rw [← hvalue, Nat.add_zero, Nat.mul_comm]⟩

theorem magnitude_normal (d : Decimal) : d.normal.magnitude = d.magnitude := by
  obtain ⟨digits, exponent⟩ := d
  unfold normal
  simp only
  generalize hzeros : ((Number.digits digits).reverse.takeWhile (· == '0')).length = zeros
  split
  · next hzero =>
      have hzero' : digits = 0 := hzero
      subst hzero'
      rw [magnitude_eq, magnitude_eq, Nat.zero_mul, Nat.zero_mul]
      exact nearest_congr (Nat.pow_pos (by omega)) (Nat.pow_pos (by omega)) (by omega)
  · have hdvd := pow_trailing_dvd digits
    rw [hzeros] at hdvd
    rw [Nat.pow_eq, ← magnitude_mul_pow, Nat.div_mul_cancel hdvd]

/-! ## Seventeen digits -/

theorem unit_le_pow : unit ≤ 10 ^ 350 := by
  calc unit = 2 ^ 1074 := unit_eq
    _ ≤ 2 ^ (93 * 12) := Nat.pow_le_pow_right (by omega) (by omega)
    _ = (2 ^ 93) ^ 12 := pow_mul 2 93 12
    _ ≤ (10 ^ 28) ^ 12 := Nat.pow_le_pow_left (by omega) 12
    _ = 10 ^ (28 * 12) := (pow_mul 10 28 12).symm
    _ ≤ 10 ^ 350 := Nat.pow_le_pow_right (by omega) (by omega)

/-- The length of the digits of a number gives a power of ten below it. -/
theorem pow_length_digits_le {n : Nat} (hn : 0 < n) : 10 ^ ((Number.digits n).length - 1) ≤ n := by
  by_contra hlt
  have hpos : 0 < (Number.digits n).length - 1 := by
    by_contra hzero
    rw [Nat.eq_zero_of_not_pos hzero] at hlt
    omega
  have hle := (Nat.length_toDigits_le_iff (by omega) hpos).2 (Nat.lt_of_not_le hlt)
  have hlength : (Number.digits n).length ≤ (Number.digits n).length - 1 := hle
  omega

/-- The power of ten of the first digit does not exceed the magnitude. -/
theorem pow_orderOf_le (hunits : 0 < units) :
    ∃ length : Nat, orderOf units = (length : Int) - 351 ∧ 0 < length ∧
      10 ^ (length - 1) * unit ≤ units * 10 ^ 350 := by
  have hquotient : 0 < units * 10 ^ 350 / unit := by
    refine Nat.div_pos ?_ unit_pos
    exact unit_le_pow.trans (Nat.le_mul_of_pos_left (10 ^ 350) hunits)
  have hlength : 0 < (Number.digits (units * 10 ^ 350 / unit)).length :=
    List.length_pos_iff.2 Nat.toDigits_ne_nil
  refine ⟨_, rfl, hlength, ?_⟩
  exact (Nat.mul_le_mul_right unit (pow_length_digits_le hquotient)).trans (Nat.div_mul_le_self _ _)

/-- In units of the seventeenth digit, a magnitude is a number of seventeen digits at least. -/
theorem pow_sixteen_le {exponent : Int} (hexponent : exponent = orderOf units - 16)
    (hunits : 0 < units) :
    10 ^ 16 * (unit * 10 ^ exponent.toNat) ≤ units * 10 ^ (-exponent).toNat := by
  obtain ⟨length, horder, hlength, hle⟩ := pow_orderOf_le hunits
  have hpowers : 10 ^ 16 * 10 ^ exponent.toNat * 10 ^ 350 =
      10 ^ (length - 1) * 10 ^ (-exponent).toNat := by
    rw [← pow_add, ← pow_add, ← pow_add]
    congr 1
    omega
  refine Nat.le_of_mul_le_mul_right ?_ (pow_pos (by omega : 0 < 10) 350)
  calc 10 ^ 16 * (unit * 10 ^ exponent.toNat) * 10 ^ 350
      = 10 ^ 16 * 10 ^ exponent.toNat * 10 ^ 350 * unit := by ring
    _ = 10 ^ (length - 1) * unit * 10 ^ (-exponent).toNat := by rw [hpowers]; ring
    _ ≤ units * 10 ^ 350 * 10 ^ (-exponent).toNat := Nat.mul_le_mul_right _ hle
    _ = units * 10 ^ (-exponent).toNat * 10 ^ 350 := by ring

/-- Seventeen digits that are off by half a unit in the last place at most read back. -/
theorem magnitude_of_near {digits : Nat} {exponent : Int} (hexact : Exact units)
    (hlimit : units < limit) (hdigits : 10 ^ 16 ≤ digits)
    (hlow : 2 * (units * 10 ^ (-exponent).toNat) ≤
      2 * (digits * (unit * 10 ^ exponent.toNat)) + unit * 10 ^ exponent.toNat)
    (hhigh : 2 * (digits * (unit * 10 ^ exponent.toNat)) ≤
      2 * (units * 10 ^ (-exponent).toNat) + unit * 10 ^ exponent.toNat) :
    (Decimal.mk digits exponent).magnitude = finite units := by
  have hx : digits * 10 ^ exponent.toNat * unit = digits * (unit * 10 ^ exponent.toNat) := by ring
  rw [magnitude_eq, nearest_eq, hx]
  have hpos : 0 < 10 ^ (-exponent).toNat := Nat.pow_pos (by omega)
  generalize unit * 10 ^ exponent.toNat = place at *
  generalize 10 ^ (-exponent).toNat = scale at *
  -- the last place is smaller than the spacing, because `2 ^ 53 < 10 ^ 16`
  have hspacing : place < spacing (digits * place / scale) * scale := by
    have hlt := (Nat.div_lt_iff_lt_mul hpos).1 (lt_spacing (digits * place / scale))
    have hmul := Nat.mul_le_mul_right place hdigits
    rw [Nat.mul_assoc] at hlt
    omega
  have hrounded : rounded (digits * place) scale = units :=
    rounded_eq_of_near hexact (by omega) (by omega)
  rw [hrounded, if_pos hlimit]

theorem magnitude_of_withDigits? {count : Nat} {d : Decimal}
    (h : withDigits? tie units count = some d) : d.magnitude = finite units := by
  unfold withDigits? at h
  simp only at h
  split at h
  · next hlow =>
      obtain rfl := Option.some.inj h
      simp only [Bool.and_eq_true, beq_iff_eq] at hlow
      exact hlow.1
  · split at h
    · next hhigh =>
        obtain rfl := Option.some.inj h
        exact beq_iff_eq.1 hhigh
    · cases h

theorem isSome_withDigits?_of_reads {count digits : Nat} {exponent : Int}
    (hexponent : exponent = orderOf units - (count : Int) + 1)
    (hdigits : digits = units * 10 ^ (-exponent).toNat / (unit * 10 ^ exponent.toNat))
    (h : (Decimal.mk digits exponent).magnitude = finite units ∨
      (Decimal.mk (digits + 1) exponent).magnitude = finite units) :
    (withDigits? tie units count).isSome = true := by
  subst hexponent hdigits
  unfold withDigits?
  simp only [Nat.pow_eq]
  rcases h with h | h
  · rw [h]
    split
    · rfl
    · next hlow =>
        have hhigh : ∀ reads nearer : Bool,
            ¬ (finite units == finite units && !(reads && nearer)) = true → reads = true := by
          intro reads nearer
          cases reads <;> simp
        rw [if_pos (hhigh _ _ hlow)]
        rfl
  · rw [h]
    split
    · rfl
    · rw [if_pos (beq_self_eq_true _)]
      rfl

/-- One of the two neighbours with seventeen digits reads back. -/
theorem isSome_withDigits? (hexact : Exact units) (hlimit : units < limit) (hunits : 0 < units) :
    (withDigits? tie units 17).isSome = true := by
  generalize hexponent : orderOf units - ((17 : Nat) : Int) + 1 = exponent
  have hsixteen : exponent = orderOf units - 16 := by omega
  have hle := pow_sixteen_le hsixteen hunits
  refine isSome_withDigits?_of_reads hexponent.symm rfl ?_
  have hplace : 0 < unit * 10 ^ exponent.toNat :=
    Nat.mul_pos unit_pos (Nat.pow_pos (by omega))
  have hdigits := (Nat.le_div_iff_mul_le hplace).2 hle
  have hmod := Nat.div_add_mod' (units * 10 ^ (-exponent).toNat) (unit * 10 ^ exponent.toNat)
  have hlt := Nat.mod_lt (units * 10 ^ (-exponent).toNat) hplace
  by_cases hhalf : 2 * (units * 10 ^ (-exponent).toNat % (unit * 10 ^ exponent.toNat)) ≤
      unit * 10 ^ exponent.toNat
  · exact .inl (magnitude_of_near hexact hlimit hdigits (by omega) (by omega))
  · have hnext := Nat.add_one_mul (units * 10 ^ (-exponent).toNat / (unit * 10 ^ exponent.toNat))
      (unit * 10 ^ exponent.toNat)
    exact .inr (magnitude_of_near hexact hlimit (by omega) (by omega) (by omega))

/-- The shortest digits of a magnitude read back. -/
theorem magnitude_shortest (tie : Tie) (hexact : Exact units) (hlimit : units < limit) :
    (shortest tie units).magnitude = finite units := by
  unfold shortest
  split
  · next hzero =>
      subst hzero
      have hrounded : rounded (0 * 1) 1 = 0 := rounded_of_exact Nat.one_pos hexact
      rw [magnitude_eq, nearest_eq, Nat.zero_mul, Nat.zero_mul]
      exact (congrArg (fun u => if u < limit then finite u else infinite) hrounded).trans (if_pos hlimit)
  · next hne =>
      have hfound : ((List.range' 1 17).findSome? (withDigits? tie units)).isSome = true := by
        refine List.findSome?_isSome_iff.2 ⟨17, by decide, ?_⟩
        exact isSome_withDigits? hexact hlimit (Nat.pos_of_ne_zero hne)
      obtain ⟨d, hd⟩ := Option.isSome_iff_exists.1 hfound
      obtain ⟨count, -, hcount⟩ := List.exists_of_findSome?_eq_some hd
      simp only [hd]
      rw [magnitude_normal]
      exact magnitude_of_withDigits? hcount

/-! ## Positional texts -/

/-- Digits with a point in their place are a numeral of the same number. -/
theorem exists_positional (d : Decimal) :
    ∃ number : PointedNumeral, number.text = d.positional ∧ number.magnitude = d.magnitude := by
  obtain ⟨digits, exponent⟩ := d
  unfold positional
  simp only [Nat.pow_eq]
  generalize hall : Number.paddedDigits ((-exponent).toNat + 1) (digits * 10 ^ exponent.toNat) = all
  have hvalue : Number.value all = digits * 10 ^ exponent.toNat := hall ▸ Number.value_paddedDigits _ _
  have hdigits : ∀ c ∈ all, c.isDigit = true := hall ▸ Number.isDigit_of_mem_paddedDigits
  have hlength : (-exponent).toNat < all.length := by
    rw [← hall, Number.paddedDigits, List.length_append, List.length_replicate]
    omega
  generalize hwhole : all.take (all.length - (-exponent).toNat) = whole
  generalize hfraction : all.drop (all.length - (-exponent).toNat) = fraction
  have hsplit : whole ++ fraction = all := by
    rw [← hwhole, ← hfraction, List.take_append_drop]
  have hplaces : fraction.length = (-exponent).toNat := by
    rw [← hfraction, List.length_drop]
    omega
  have hne : whole ++ fraction ≠ [] := by
    rw [hsplit]
    exact List.ne_nil_of_length_pos (by omega)
  rw [← hsplit] at hvalue hdigits
  obtain ⟨hwholeDigits, hfractionDigits⟩ := List.forall_mem_append.1 hdigits
  rw [magnitude_eq, ← hvalue, ← hplaces]
  split
  · next hempty =>
      obtain rfl := List.isEmpty_iff.1 hempty
      exact ⟨⟨⟨whole, hwholeDigits⟩, none, hne⟩, List.append_nil whole, rfl⟩
  · exact ⟨⟨⟨whole, hwholeDigits⟩, some ⟨fraction, hfractionDigits⟩, hne⟩, rfl, rfl⟩

end Decimal

/-- A finite magnitude is written as a numeral that is read as this magnitude. -/
theorem Magnitude.exists_plainText {units : Nat} (hexact : Exact units) (hlimit : units < limit) :
    ∃ number : PointedNumeral, number.text = (finite units).plainText.toList ∧
      number.magnitude = finite units := by
  obtain ⟨number, htext, hmagnitude⟩ := (Decimal.shortest .larger units).exists_positional
  refine ⟨number, ?_, ?_⟩
  · rw [htext, plainText, String.toList_ofList]
  · rw [hmagnitude, Decimal.magnitude_shortest _ hexact hlimit]

end RichStyle
