import Mathlib.Algebra.Order.Ring.Nat
import Mathlib.Tactic.Linarith
import Mathlib.Tactic.Ring
import RichStyle.Number

/-!
# Rounding to the nearest magnitude

A quotient is rounded to a multiple of the spacing at its place.  What comes out is `Exact`: a multiple
of its own spacing.  Every exact number is rounded to itself, and so is whatever is nearer to it than
half the spacing.  Below a power of two stays what is more than half a spacing away from it.
-/

namespace RichStyle

/-! ## The nearest whole number -/

namespace Number

variable {n d m : Nat}

theorem mul_add_le_of_lt {k : Nat} (d : Nat) (h : k < m) : k * d + d ≤ m * d := by
  rw [← Nat.add_one_mul]
  exact Nat.mul_le_mul_right d h

/-- A rounded quotient is off by half of the divisor at most. -/
theorem divNearestEven_bounds (hd : 0 < d) :
    2 * (divNearestEven n d * d) ≤ 2 * n + d ∧ 2 * n ≤ 2 * (divNearestEven n d * d) + d := by
  have hdiv : n / d * d + n % d = n := Nat.div_add_mod' n d
  have hmod : n % d < d := Nat.mod_lt n hd
  have hup : (n / d + 1) * d = n / d * d + d := Nat.succ_mul _ _
  unfold divNearestEven
  simp only
  split_ifs <;> omega

theorem divNearestEven_eq_of_near (hlow : 2 * (m * d) < 2 * n + d) (hhigh : 2 * n < 2 * (m * d) + d) :
    divNearestEven n d = m := by
  have hd : 0 < d := by omega
  obtain ⟨hbelow, habove⟩ := divNearestEven_bounds (n := n) hd
  rcases Nat.lt_trichotomy (divNearestEven n d) m with h | h | h
  · have hstep := mul_add_le_of_lt d h
    omega
  · exact h
  · have hstep := mul_add_le_of_lt d h
    omega

theorem divNearestEven_le (hd : 0 < d) (h : n ≤ m * d) : divNearestEven n d ≤ m := by
  by_contra hlt
  have hstep := mul_add_le_of_lt d (Nat.lt_of_not_le hlt)
  have hbelow := (divNearestEven_bounds (n := n) hd).1
  omega

theorem le_divNearestEven (hd : 0 < d) (h : m * d ≤ n) : m ≤ divNearestEven n d := by
  by_contra hlt
  have hstep := mul_add_le_of_lt d (Nat.lt_of_not_le hlt)
  have habove := (divNearestEven_bounds (n := n) hd).2
  omega

/-- A half is rounded up to an even number. -/
theorem divNearestEven_half (hd : 0 < d) (hodd : m % 2 = 1) (h : 2 * n = 2 * (m * d) + d) :
    divNearestEven n d = m + 1 := by
  have hdiv : n / d = m := by
    refine Nat.div_eq_of_lt_le ?_ ?_
    · omega
    · rw [Nat.succ_mul]
      omega
  have hmod := Nat.div_add_mod' n d
  rw [hdiv] at hmod
  unfold divNearestEven
  simp only [hdiv]
  rw [if_neg (by omega), if_neg (by omega), if_neg (by omega)]

/-- Below an even number is rounded what is nearer to a number below it. -/
theorem divNearestEven_le_odd_iff (hd : 0 < d) (hodd : m % 2 = 1) :
    divNearestEven n d ≤ m ↔ 2 * n < 2 * (m * d) + d := by
  constructor
  · intro h
    have hstep := Nat.mul_le_mul_right d h
    have habove := (divNearestEven_bounds (n := n) hd).2
    refine Nat.lt_of_le_of_ne (by omega) fun hhalf => ?_
    have := divNearestEven_half hd hodd hhalf
    omega
  · intro h
    by_contra hlt
    have hstep := mul_add_le_of_lt d (Nat.lt_of_not_le hlt)
    have hbelow := (divNearestEven_bounds (n := n) hd).1
    omega

end Number

namespace Magnitude

variable {x d u j : Nat}

theorem unit_eq : unit = 2 ^ 1074 := by
  rw [unit, Nat.pow_eq]

theorem limit_eq : limit = 2 ^ 2098 := by
  rw [limit, Nat.pow_eq]

theorem unit_pos : 0 < unit := by
  rw [unit_eq]
  positivity

/-! ## Spacing -/

theorem spacing_eq (u : Nat) : spacing u = 2 ^ (u.log2 - 52) := rfl

theorem spacing_pos (u : Nat) : 0 < spacing u := Nat.two_pow_pos _

theorem spacing_dvd_pow (h : u.log2 ≤ j + 52) : spacing u ∣ 2 ^ j :=
  pow_dvd_pow 2 (by omega)

theorem lt_spacing (u : Nat) : u < 2 ^ 53 * spacing u := by
  rw [spacing_eq, ← pow_add]
  refine Nat.lt_of_lt_of_le Nat.lt_log2_self (Nat.pow_le_pow_right (by omega) ?_)
  omega

/-- Numbers of units that are a multiple of the spacing at their place. -/
def Exact (u : Nat) : Prop :=
  spacing u ∣ u

instance (u : Nat) : Decidable (Exact u) :=
  inferInstanceAs (Decidable (spacing u ∣ u))

theorem exact_mul_pow {m : Nat} (hm : m ≤ 2 ^ 53) (k : Nat) : Exact (m * 2 ^ k) := by
  unfold Exact
  rw [spacing_eq]
  rcases Nat.eq_zero_or_pos m with rfl | hpos
  · simp
  have hne : m * 2 ^ k ≠ 0 := (Nat.mul_pos hpos (Nat.two_pow_pos k)).ne'
  rcases Nat.lt_or_eq_of_le hm with hlt | rfl
  · have hlog : (m * 2 ^ k).log2 < 53 + k := by
      rw [Nat.log2_lt hne, pow_add]
      exact Nat.mul_lt_mul_of_pos_right hlt (Nat.two_pow_pos k)
    exact Dvd.dvd.mul_left (pow_dvd_pow 2 (by omega)) m
  · rw [← pow_add, Nat.log2_two_pow]
    exact pow_dvd_pow 2 (by omega)

theorem exact_two_mul (h : Exact u) : Exact (2 * u) := by
  obtain ⟨m, hm⟩ := h
  have hlt : m < 2 ^ 53 := by
    refine Nat.lt_of_mul_lt_mul_left (a := spacing u) ?_
    rw [← hm, Nat.mul_comm]
    exact lt_spacing u
  have heq : 2 * u = m * 2 ^ (u.log2 - 52 + 1) := by
    conv_lhs => rw [hm, spacing_eq]
    ring
  rw [heq]
  exact exact_mul_pow hlt.le _

/-- Between an exact number and a power of two above it there is room for half a spacing. -/
theorem Exact.add_le (h : Exact u) (hlt : u < 2 ^ j) (hj : 53 ≤ j) : u + 2 ^ (j - 53) ≤ 2 ^ j := by
  have hdouble : 2 ^ j = 2 * 2 ^ (j - 1) := by
    rw [← pow_succ']
    congr 1
    omega
  by_cases hhalf : u < 2 ^ (j - 1)
  · have hstep : 2 ^ (j - 53) ≤ 2 ^ (j - 1) := Nat.pow_le_pow_right (by omega) (by omega)
    omega
  · have hlog : u.log2 = j - 1 := by
      refine (Nat.log2_eq_iff ?_).2 ⟨Nat.le_of_not_lt hhalf, ?_⟩
      · have := Nat.two_pow_pos (j - 1)
        omega
      · rwa [show j - 1 + 1 = j by omega]
    have hspacing : spacing u = 2 ^ (j - 53) := by
      rw [spacing_eq, hlog]
      congr 1
    have hdvd : 2 ^ (j - 53) ∣ 2 ^ j - u :=
      Nat.dvd_sub (pow_dvd_pow 2 (by omega)) (hspacing ▸ h)
    have := Nat.le_of_dvd (by omega) hdvd
    omega

/-! ## Rounded quotients -/

/-- A quotient of units, rounded to a multiple of the spacing at its place. -/
def rounded (x d : Nat) : Nat :=
  Number.divNearestEven x (d * spacing (x / d)) * spacing (x / d)

theorem nearest_eq (n d : Nat) :
    nearest n d =
      if rounded (n * unit) d < limit then finite (rounded (n * unit) d) else infinite := rfl

theorem exact_rounded (x : Nat) (hd : 0 < d) : Exact (rounded x d) := by
  unfold rounded
  generalize hq : x / d = q
  have hlt : x < 2 ^ 53 * spacing q * d := by
    refine (Nat.div_lt_iff_lt_mul hd).1 ?_
    rw [hq]
    exact lt_spacing q
  refine exact_mul_pow (Number.divNearestEven_le (Nat.mul_pos hd (spacing_pos q)) ?_) _
  rw [Nat.mul_comm d, ← Nat.mul_assoc]
  exact hlt.le

/-- The spacing at a quotient divides every exact number that is less than half of it away. -/
theorem spacing_dvd_of_near (hu : Exact u) (h : 2 * x < 2 * (u * d) + spacing (x / d) * d) :
    spacing (x / d) ∣ u := by
  generalize hq : x / d = q at *
  have hfloor : q * d ≤ x := hq ▸ Nat.div_mul_le_self _ _
  by_cases hle : q.log2 - 52 ≤ u.log2 - 52
  · exact (pow_dvd_pow 2 hle).trans hu
  -- otherwise a power of two lies between them, and the exact number keeps away from it
  · have hq0 : q ≠ 0 := by
      rintro rfl
      simp at hle
    have hpow : 2 ^ q.log2 ≤ q := Nat.log2_self_le hq0
    have hlt : u < 2 ^ q.log2 := by
      refine Nat.lt_of_lt_of_le Nat.lt_log2_self (Nat.pow_le_pow_right (by omega) ?_)
      omega
    have hroom := hu.add_le hlt (by omega)
    have hspacing : spacing q = 2 * 2 ^ (q.log2 - 53) := by
      rw [spacing_eq, ← pow_succ']
      congr 1
      omega
    have hmul : (2 * u + spacing q) * d ≤ 2 * q * d := Nat.mul_le_mul_right d (by omega)
    have hleft : (2 * u + spacing q) * d = 2 * (u * d) + spacing q * d := by ring
    have hright : 2 * q * d = 2 * (q * d) := by ring
    omega

theorem exists_multiple {step : Nat} (d : Nat) (h : step ∣ u) :
    ∃ m, u = m * step ∧ u * d = m * (d * step) := by
  obtain ⟨m, rfl⟩ := h
  exact ⟨m, Nat.mul_comm _ _, by ring⟩

section Multiples

-- `u` is one of the multiples among which a quotient is rounded
variable (hd : 0 < d) (hdvd : spacing (x / d) ∣ u)

include hd hdvd

theorem rounded_le (h : x ≤ u * d) : rounded x d ≤ u := by
  have hpos := Nat.mul_pos hd (spacing_pos (x / d))
  obtain ⟨m, hm, hmul⟩ := exists_multiple d hdvd
  rw [hmul] at h
  rw [hm]
  exact Nat.mul_le_mul_right _ (Number.divNearestEven_le hpos h)

theorem le_rounded (h : u * d ≤ x) : u ≤ rounded x d := by
  have hpos := Nat.mul_pos hd (spacing_pos (x / d))
  obtain ⟨m, hm, hmul⟩ := exists_multiple d hdvd
  rw [hmul] at h
  rw [hm]
  exact Nat.mul_le_mul_right _ (Number.le_divNearestEven hpos h)

end Multiples

/-- What is less than half a spacing away from an exact number is rounded to it. -/
theorem rounded_eq_of_near (hu : Exact u)
    (hlow : 2 * (u * d) < 2 * x + spacing (x / d) * d)
    (hhigh : 2 * x < 2 * (u * d) + spacing (x / d) * d) :
    rounded x d = u := by
  obtain ⟨m, hm, hmul⟩ := exists_multiple d (spacing_dvd_of_near hu hhigh)
  rw [hmul, Nat.mul_comm _ d] at hlow hhigh
  rw [rounded, Number.divNearestEven_eq_of_near hlow hhigh, hm]

theorem rounded_of_exact (hd : 0 < d) (hu : Exact u) : rounded (u * d) d = u := by
  have hpos := Nat.mul_pos (spacing_pos (u * d / d)) hd
  exact rounded_eq_of_near hu (by omega) (by omega)

/-- Doubling is exact, up to the limit. -/
theorem scale_two (hu : Exact u) :
    (finite u).scale 2 1 = if 2 * u < limit then finite (2 * u) else infinite := by
  have hrounded : rounded (u * 2 * unit) (unit * 1) = 2 * u := by
    rw [Nat.mul_one, Nat.mul_comm u]
    exact rounded_of_exact unit_pos (exact_two_mul hu)
  rw [scale, nearest_eq, hrounded]

/-! ## Powers of two -/

/-- Nothing is rounded beyond a power of two from below. -/
theorem rounded_le_pow (hd : 0 < d) (h : x < 2 ^ j * d) : rounded x d ≤ 2 ^ j := by
  have hlt : x / d < 2 ^ j := (Nat.div_lt_iff_lt_mul hd).2 h
  have hlog : (x / d).log2 ≤ j := by
    by_cases hzero : x / d = 0
    · simp [hzero]
    · exact ((Nat.log2_lt hzero).2 hlt).le
  exact rounded_le hd (spacing_dvd_pow (by omega)) h.le

/-- Nothing is rounded beyond a power of two from above. -/
theorem pow_le_rounded (hd : 0 < d) (h : 2 ^ j * d ≤ x) : 2 ^ j ≤ rounded x d := by
  have hle : 2 ^ j ≤ x / d := (Nat.le_div_iff_mul_le hd).2 h
  have hne : x / d ≠ 0 := by
    have hpos := Nat.two_pow_pos j
    omega
  have hfirst : 2 ^ (x / d).log2 * d ≤ x :=
    (Nat.mul_le_mul_right d (Nat.log2_self_le hne)).trans (Nat.div_mul_le_self x d)
  have hpow : 2 ^ j ≤ 2 ^ (x / d).log2 :=
    Nat.pow_le_pow_right (by omega) ((Nat.le_log2 hne).2 hle)
  exact hpow.trans (le_rounded hd (spacing_dvd_pow (by omega)) hfirst)

/-- Between two powers of two the spacing is known, and a half in front of the upper one goes up to it. -/
theorem rounded_lt_pow_iff_of_log2 (hd : 0 < d) (hj : 52 ≤ j) (hlog : (x / d).log2 = j) :
    rounded x d < 2 ^ (j + 1) ↔ 2 * x < (2 ^ 54 - 1) * (d * 2 ^ (j - 52)) := by
  have hspacing : spacing (x / d) = 2 ^ (j - 52) := by
    rw [spacing_eq, hlog]
  have hpow : 2 ^ (j + 1) = 2 ^ 53 * 2 ^ (j - 52) := by
    rw [← pow_add]
    congr 1
    omega
  rw [rounded, hspacing, hpow, Nat.mul_lt_mul_right (Nat.two_pow_pos _), Nat.lt_iff_le_pred (by decide),
    Number.divNearestEven_le_odd_iff (Nat.mul_pos hd (Nat.two_pow_pos _)) (by decide)]
  generalize d * 2 ^ (j - 52) = step
  omega

/--
A quotient is rounded below a power of two exactly if it is nearer to a number below it: the last
spacing below `2 ^ (j + 1)` is `2 ^ (j - 52)`, and half of it is rounded up.
-/
theorem rounded_lt_pow_iff (hd : 0 < d) (hj : 52 ≤ j) :
    rounded x d < 2 ^ (j + 1) ↔ 2 * x < (2 ^ (j + 2) - 2 ^ (j - 52)) * d := by
  have hpow : 2 ^ j = 2 ^ 52 * 2 ^ (j - 52) := by
    rw [← pow_add]
    congr 1
    omega
  have hbound : (2 ^ (j + 2) - 2 ^ (j - 52)) * d = (2 ^ 54 - 1) * (d * 2 ^ (j - 52)) := by
    rw [pow_add, hpow, Nat.sub_mul, Nat.sub_mul]
    congr 1 <;> ring
  have hstep : 2 ^ j * d = 2 ^ 52 * (d * 2 ^ (j - 52)) := by
    rw [hpow]
    ring
  have hpos : 0 < d * 2 ^ (j - 52) := Nat.mul_pos hd (Nat.two_pow_pos _)
  have hdouble : 2 ^ (j + 1) * d = 2 * (2 ^ j * d) := by
    rw [pow_succ']
    ring
  rw [hbound]
  rcases Nat.lt_or_ge x (2 ^ j * d) with hlow | hlow
  · have hle := rounded_le_pow hd hlow
    have hlt : 2 ^ j < 2 ^ (j + 1) := Nat.pow_lt_pow_right (by omega) (by omega)
    omega
  rcases Nat.lt_or_ge x (2 ^ (j + 1) * d) with hhigh | hhigh
  · have hbelow : 2 ^ j ≤ x / d := (Nat.le_div_iff_mul_le hd).2 hlow
    have habove : x / d < 2 ^ (j + 1) := (Nat.div_lt_iff_lt_mul hd).2 hhigh
    have hne : x / d ≠ 0 := by
      have hpow := Nat.two_pow_pos j
      omega
    exact rounded_lt_pow_iff_of_log2 hd hj ((Nat.log2_eq_iff hne).2 ⟨hbelow, habove⟩)
  · have hle := pow_le_rounded hd hhigh
    omega

end Magnitude

end RichStyle
