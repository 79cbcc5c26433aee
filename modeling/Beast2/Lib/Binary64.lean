import Mathlib.Algebra.Order.Field.Power
import Mathlib.Algebra.Order.Floor.Semifield
import Mathlib.Data.Int.Log
import Mathlib.Data.Rat.Floor
import Mathlib.Tactic.Linarith
import Mathlib.Tactic.Ring

/-!
# Rounding to double precision

A double has a significand of 53 bits. `round` takes a rational that is not negative to the double
that is nearest to it, and to the one with an even significand where two are as near: it is a whole
number of units in the last place, whose size is that of the power of two below the rational. The
exponents are bounded from below only; what is `2 ^ 1024` or more after rounding is no double.

`round_lt_two_zpow_iff` says when a rational stays below a power of two.
-/

namespace Binary64

/-- A whole number that is nearest, the even one of two. -/
def roundHalfEven (q : ℚ) : ℕ :=
  if q - ⌊q⌋₊ < 1 / 2 ∨ q - ⌊q⌋₊ = 1 / 2 ∧ Even ⌊q⌋₊ then ⌊q⌋₊ else ⌊q⌋₊ + 1

/-- The exponent of the unit in the last place. -/
def ulpExponent (r : ℚ) : ℤ := max (Int.log 2 r) (-1022) - 52

/-- The nearest double. -/
def round (r : ℚ) : ℚ :=
  roundHalfEven (r / 2 ^ ulpExponent r) * 2 ^ ulpExponent r

/-- A whole number below stays below. -/
theorem le_roundHalfEven {q : ℚ} {n : ℕ} (h : (n : ℚ) ≤ q) : n ≤ roundHalfEven q := by
  have hfloor : n ≤ ⌊q⌋₊ := Nat.le_floor h
  unfold roundHalfEven
  split
  · exact hfloor
  · exact Nat.le_succ_of_le hfloor

/-- A whole number above is not passed. -/
theorem roundHalfEven_le {q : ℚ} {n : ℕ} (hq : 0 ≤ q) (h : q < n) : roundHalfEven q ≤ n := by
  have hfloor : ⌊q⌋₊ < n := (Nat.floor_lt hq).2 h
  unfold roundHalfEven
  split
  · exact Nat.le_of_lt hfloor
  · exact hfloor

/-- What is rounded down from an even number is more than a half below it. -/
theorem roundHalfEven_lt_iff {q : ℚ} (hq : 0 ≤ q) {n : ℕ} (hn : Even n) :
    roundHalfEven q < n ↔ q < n - 1 / 2 := by
  have hle := Nat.floor_le hq
  have hlt := Nat.lt_floor_add_one q
  constructor
  · intro h
    unfold roundHalfEven at h
    split at h
    · next hdown =>
      have hfloor : (⌊q⌋₊ : ℚ) + 1 ≤ n := by exact_mod_cast h
      rcases hdown with hdown | ⟨hdown, heven⟩
      · linarith
      · -- an even floor is at least two below
        have hne : ⌊q⌋₊ + 1 ≠ n := by
          rintro rfl
          exact Nat.not_even_iff_odd.2 heven.add_one hn
        have htwo : (⌊q⌋₊ : ℚ) + 2 ≤ n := by
          have : ⌊q⌋₊ + 2 ≤ n := by omega
          exact_mod_cast this
        linarith
    · have htwo : (⌊q⌋₊ : ℚ) + 2 ≤ n := by exact_mod_cast h
      linarith
  · intro h
    have hfloor : ⌊q⌋₊ < n := (Nat.floor_lt hq).2 (by linarith)
    have hone : (⌊q⌋₊ : ℚ) + 1 ≤ n := by exact_mod_cast hfloor
    unfold roundHalfEven
    split
    · exact hfloor
    · next hup =>
      refine lt_of_le_of_ne hfloor fun heq => hup (.inl ?_)
      have hcast : (⌊q⌋₊ : ℚ) + 1 = n := by exact_mod_cast heq
      linarith

section
variable {r : ℚ}

theorem ulp_pos (r : ℚ) : (0 : ℚ) < 2 ^ ulpExponent r := zpow_pos two_pos _

theorem div_ulp_nonneg (hr : 0 ≤ r) : 0 ≤ r / 2 ^ ulpExponent r := div_nonneg hr (ulp_pos r).le

theorem round_zero : round 0 = 0 := by
  simp [round, roundHalfEven]

/-- A rational is less than 2 ^ 53 units in its last place. -/
theorem lt_two_zpow_ulp (r : ℚ) : r < 2 ^ (ulpExponent r + 53) := by
  have hlog : r < 2 ^ (Int.log 2 r + 1) := by exact_mod_cast Int.lt_zpow_succ_log_self one_lt_two r
  refine lt_of_lt_of_le hlog (zpow_le_zpow_right₀ one_le_two ?_)
  unfold ulpExponent
  omega

/-- It is not rounded past the next power of two. -/
theorem round_le_two_zpow (hr : 0 ≤ r) : round r ≤ 2 ^ (ulpExponent r + 53) := by
  have hle : roundHalfEven (r / 2 ^ ulpExponent r) ≤ 2 ^ 53 := by
    refine roundHalfEven_le (div_ulp_nonneg hr) ?_
    rw [div_lt_iff₀ (ulp_pos r), mul_comm]
    have hlt := lt_two_zpow_ulp r
    rw [zpow_add₀ two_ne_zero] at hlt
    exact_mod_cast hlt
  have hcast : (roundHalfEven (r / 2 ^ ulpExponent r) : ℚ) ≤ 2 ^ (53 : ℤ) := by exact_mod_cast hle
  rw [zpow_add₀ two_ne_zero, mul_comm]
  exact mul_le_mul_of_nonneg_right hcast (ulp_pos r).le

/-- It is not rounded below the power of two under it. -/
theorem two_zpow_log_le_round (hr : 0 < r) (hlog : -1022 ≤ Int.log 2 r) :
    2 ^ Int.log 2 r ≤ round r := by
  have hle : 2 ^ Int.log 2 r ≤ r := by exact_mod_cast Int.zpow_log_le_self one_lt_two hr
  have hexp : Int.log 2 r = 52 + ulpExponent r := by
    unfold ulpExponent
    omega
  have hround : 2 ^ 52 ≤ roundHalfEven (r / 2 ^ ulpExponent r) := by
    refine le_roundHalfEven ?_
    rw [le_div_iff₀ (ulp_pos r)]
    rw [hexp, zpow_add₀ two_ne_zero] at hle
    exact_mod_cast hle
  have hcast : (2 : ℚ) ^ (52 : ℤ) ≤ roundHalfEven (r / 2 ^ ulpExponent r) := by
    exact_mod_cast hround
  rw [hexp, zpow_add₀ two_ne_zero]
  exact mul_le_mul_of_nonneg_right hcast (ulp_pos r).le

/-- Just under a power of two a rational stays below it if it is more than half a unit below. -/
theorem round_lt_two_zpow_ulp_iff (hr : 0 ≤ r) :
    round r < 2 ^ (ulpExponent r + 53) ↔
      r < 2 ^ (ulpExponent r + 53) - 2 ^ (ulpExponent r - 1) := by
  have hhalf : (2 : ℚ) ^ (ulpExponent r - 1) = 1 / 2 * 2 ^ ulpExponent r := by
    rw [zpow_sub_one₀ two_ne_zero, mul_comm, one_div]
  have hpow : (2 : ℚ) ^ (ulpExponent r + 53) = (2 ^ 53 : ℕ) * 2 ^ ulpExponent r := by
    rw [zpow_add₀ two_ne_zero, mul_comm]
    norm_cast
  have heven : Even (2 ^ 53) := (even_two).pow_of_ne_zero (by decide)
  have hiff := roundHalfEven_lt_iff (div_ulp_nonneg hr) heven
  rw [div_lt_iff₀ (ulp_pos r), sub_mul] at hiff
  rw [hhalf, hpow, ← hiff, round, mul_lt_mul_iff_left₀ (ulp_pos r), Nat.cast_lt]

/-- A rational stays below a power of two if it is more than half a unit in the last place below
it. -/
theorem round_lt_two_zpow_iff (hr : 0 ≤ r) {m : ℤ} (hm : -1021 ≤ m) :
    round r < 2 ^ m ↔ r < 2 ^ m - 2 ^ (m - 54) := by
  have hulp : ulpExponent r + 53 = max (Int.log 2 r) (-1022) + 1 := by
    unfold ulpExponent
    omega
  have hsmall : (2 : ℚ) ^ (m - 54) ≤ 2 ^ (m - 1) := zpow_le_zpow_right₀ one_le_two (by omega)
  have hdouble : (2 : ℚ) ^ m = 2 ^ (m - 1) + 2 ^ (m - 1) := by
    rw [zpow_sub_one₀ two_ne_zero]
    ring
  have hpos : (0 : ℚ) < 2 ^ (m - 1) := zpow_pos two_pos _
  have hpos' : (0 : ℚ) < 2 ^ (m - 54) := zpow_pos two_pos _
  rcases eq_or_lt_of_le hr with rfl | hr'
  · rw [round_zero]
    exact iff_of_true (by linarith) (by linarith)
  rcases lt_trichotomy (max (Int.log 2 r) (-1022)) (m - 1) with hlt | heq | hgt
  · -- below the power of two under it, which rounding does not pass
    have hle : (2 : ℚ) ^ (ulpExponent r + 53) ≤ 2 ^ (m - 1) :=
      zpow_le_zpow_right₀ one_le_two (by omega)
    have hround := round_le_two_zpow hr
    have hbelow := lt_two_zpow_ulp r
    exact iff_of_true (by linarith) (by linarith)
  · have hm' : ulpExponent r + 53 = m := by omega
    have hiff := round_lt_two_zpow_ulp_iff hr
    rw [hm', show ulpExponent r - 1 = m - 54 by omega] at hiff
    exact hiff
  · -- at the power of two or above it
    have hlog : m ≤ Int.log 2 r := by omega
    have hpow : (2 : ℚ) ^ m ≤ 2 ^ Int.log 2 r := zpow_le_zpow_right₀ one_le_two hlog
    have hround := two_zpow_log_le_round hr' (by omega)
    have hle : 2 ^ Int.log 2 r ≤ r := by exact_mod_cast Int.zpow_log_le_self one_lt_two hr'
    exact iff_of_false (by linarith) (by linarith)

/-- So does a rational that is multiplied by a power of two after rounding. -/
theorem round_mul_lt_iff (hr : 0 ≤ r) {k m : ℕ} (hm : 54 ≤ m) (hk : k ≤ m + 1021) :
    round r * 2 ^ k < 2 ^ m ↔ r * 2 ^ k < 2 ^ m - 2 ^ (m - 54) := by
  have hpos : (0 : ℚ) < 2 ^ k := pow_pos two_pos k
  have hscale : ∀ j : ℕ, (2 : ℚ) ^ ((j : ℤ) - k) * 2 ^ k = 2 ^ j := by
    intro j
    rw [← zpow_natCast 2 k, ← zpow_natCast 2 j, ← zpow_add₀ two_ne_zero, sub_add_cancel]
  have hcast : ((m : ℤ) - k) - 54 = ((m - 54 : ℕ) : ℤ) - k := by omega
  have hiff := round_lt_two_zpow_iff hr (m := (m : ℤ) - k) (by omega)
  rw [hcast, ← mul_lt_mul_iff_left₀ hpos, hscale] at hiff
  rw [hiff, ← mul_lt_mul_iff_left₀ hpos, sub_mul, hscale, hscale]

/-- A whole number that is multiplied by a power of two after rounding. -/
theorem round_natCast_mul_lt_iff {n k m : ℕ} (hm : 54 ≤ m) (hk : k ≤ m + 1021) :
    round n * 2 ^ k < 2 ^ m ↔ n * 2 ^ k + 2 ^ (m - 54) < 2 ^ m := by
  rw [round_mul_lt_iff n.cast_nonneg hm hk, lt_sub_iff_add_lt]
  exact_mod_cast Iff.rfl

end

end Binary64
