import Mathlib.Data.Int.Log
import Mathlib.Data.Rat.Floor
import Mathlib.Tactic.Linarith
import Mathlib.Tactic.FieldSimp

/-!
# Rounding to a binary significand

The nearest number with a significand of so many bits, ties to the even one, for a rational that is
not negative and neither overflows nor underflows. Rounding is monotone and leaves a number that
fits as it is; bounds on a rounded result follow from numbers that fit.
-/

set_option autoImplicit false

namespace Numbers

/-- The nearest integer, ties to the even one. -/
def roundEven (x : ℚ) : ℤ :=
  if 2 * Int.fract x < 1 then ⌊x⌋
  else if 1 < 2 * Int.fract x then ⌊x⌋ + 1
  else if ⌊x⌋ % 2 = 0 then ⌊x⌋ else ⌊x⌋ + 1

@[simp] theorem roundEven_intCast (n : ℤ) : roundEven n = n := by
  unfold roundEven
  rw [Int.fract_intCast, if_pos (by norm_num), Int.floor_intCast]

theorem floor_le_roundEven (x : ℚ) : ⌊x⌋ ≤ roundEven x := by
  unfold roundEven
  split_ifs <;> omega

theorem roundEven_le_floor_add_one (x : ℚ) : roundEven x ≤ ⌊x⌋ + 1 := by
  unfold roundEven
  split_ifs <;> omega

theorem roundEven_mono {x y : ℚ} (h : x ≤ y) : roundEven x ≤ roundEven y := by
  have hfloor : ⌊x⌋ ≤ ⌊y⌋ := Int.floor_le_floor h
  by_cases hlt : ⌊x⌋ < ⌊y⌋
  · have hupper := roundEven_le_floor_add_one x
    have hlower := floor_le_roundEven y
    omega
  · -- both lie between the same two integers, so the larger fraction rounds up first
    have heq : ⌊x⌋ = ⌊y⌋ := Int.le_antisymm hfloor (not_lt.mp hlt)
    have hfract : Int.fract x ≤ Int.fract y := by
      unfold Int.fract
      rw [heq]
      linarith
    unfold roundEven
    rw [heq]
    split_ifs <;> first | omega | (exfalso; linarith)

/-- The weight of the last bit of the significand. -/
def lastPlace (precision : ℕ) (x : ℚ) : ℚ := 2 ^ (Int.log 2 x - precision + 1)

/-- The nearest number whose significand has so many bits. -/
def roundTo (precision : ℕ) (x : ℚ) : ℚ :=
  roundEven (x / lastPlace precision x) * lastPlace precision x

theorem lastPlace_pos (precision : ℕ) (x : ℚ) : 0 < lastPlace precision x :=
  zpow_pos two_pos _

@[simp] theorem roundTo_zero (precision : ℕ) : roundTo precision 0 = 0 := by
  unfold roundTo
  rw [zero_div, show (0 : ℚ) = ((0 : ℤ) : ℚ) from rfl, roundEven_intCast]
  simp

theorem roundTo_of_eq_mul {precision : ℕ} {x : ℚ} {n : ℤ} (h : x = n * lastPlace precision x) :
    roundTo precision x = x := by
  have hne := (lastPlace_pos precision x).ne'
  have hdiv : x / lastPlace precision x = n := by
    rw [div_eq_iff hne]
    exact h
  unfold roundTo
  rw [hdiv, roundEven_intCast, ← h]

/-- A number that fits is left as it is. -/
theorem roundTo_of_fits {precision m : ℕ} (hm : m < 2 ^ precision) (k : ℤ) :
    roundTo precision (m * 2 ^ k) = m * 2 ^ k := by
  by_cases hzero : m = 0
  · rw [hzero, Nat.cast_zero, zero_mul, roundTo_zero]
  · have hpow : (0 : ℚ) < 2 ^ k := zpow_pos two_pos k
    have hpos : (0 : ℚ) < m * 2 ^ k := by positivity
    have hlt : ((m : ℚ) * 2 ^ k) < ((2 : ℕ) : ℚ) ^ ((precision : ℤ) + k) := by
      rw [Nat.cast_ofNat, zpow_add₀ two_ne_zero, zpow_natCast]
      have hcast : (m : ℚ) < 2 ^ precision := by exact_mod_cast hm
      exact mul_lt_mul_of_pos_right hcast hpow
    have hlog := (Int.lt_zpow_iff_log_lt one_lt_two hpos).mp hlt
    -- the last place is at most the weight the number is written with
    obtain ⟨shift, hshift⟩ : ∃ shift : ℕ, k = Int.log 2 ((m : ℚ) * 2 ^ k) - precision + 1 + shift :=
      ⟨(k - (Int.log 2 ((m : ℚ) * 2 ^ k) - precision + 1)).toNat, by omega⟩
    refine roundTo_of_eq_mul (n := (m * 2 ^ shift : ℕ)) ?_
    unfold lastPlace
    conv_lhs => rw [hshift]
    rw [zpow_add₀ two_ne_zero, zpow_natCast]
    push_cast
    ring

theorem roundTo_nonneg (precision : ℕ) {x : ℚ} (h : 0 ≤ x) : 0 ≤ roundTo precision x := by
  have hpos := lastPlace_pos precision x
  have hround : (0 : ℤ) ≤ roundEven (x / lastPlace precision x) := by
    have hmono := roundEven_mono (show ((0 : ℤ) : ℚ) ≤ x / lastPlace precision x by
      rw [Int.cast_zero]
      positivity)
    rwa [roundEven_intCast] at hmono
  unfold roundTo
  have hcast : (0 : ℚ) ≤ roundEven (x / lastPlace precision x) := by exact_mod_cast hround
  positivity

/-- A rounded number stays between the powers of two around it. -/
theorem zpow_log_le_roundTo {precision : ℕ} (hprecision : 0 < precision) {x : ℚ} (h : 0 < x) :
    (2 : ℚ) ^ Int.log 2 x ≤ roundTo precision x := by
  have hpos := lastPlace_pos precision x
  have hlog : (2 : ℚ) ^ Int.log 2 x ≤ x := by exact_mod_cast Int.zpow_log_le_self one_lt_two h
  have hscale : (2 : ℚ) ^ Int.log 2 x = ((2 ^ (precision - 1) : ℕ) : ℤ) * lastPlace precision x := by
    unfold lastPlace
    push_cast
    rw [← zpow_natCast, ← zpow_add₀ two_ne_zero]
    congr 1
    omega
  have hle : (((2 ^ (precision - 1) : ℕ) : ℤ) : ℚ) ≤ x / lastPlace precision x := by
    rw [le_div_iff₀ hpos, ← hscale]
    exact hlog
  have hround := roundEven_mono hle
  rw [roundEven_intCast] at hround
  unfold roundTo
  rw [hscale]
  exact mul_le_mul_of_nonneg_right (by exact_mod_cast hround) hpos.le

theorem roundTo_le_zpow_log {precision : ℕ} {x : ℚ} :
    roundTo precision x ≤ 2 ^ (Int.log 2 x + 1) := by
  have hpos := lastPlace_pos precision x
  have hlog : x ≤ (2 : ℚ) ^ (Int.log 2 x + 1) := by
    exact_mod_cast (Int.lt_zpow_succ_log_self one_lt_two x).le
  have hscale : (2 : ℚ) ^ (Int.log 2 x + 1) = ((2 ^ precision : ℕ) : ℤ) * lastPlace precision x := by
    unfold lastPlace
    push_cast
    rw [← zpow_natCast, ← zpow_add₀ two_ne_zero]
    congr 1
    omega
  have hle : x / lastPlace precision x ≤ (((2 ^ precision : ℕ) : ℤ) : ℚ) := by
    rw [div_le_iff₀ hpos, ← hscale]
    exact hlog
  have hround := roundEven_mono hle
  rw [roundEven_intCast] at hround
  unfold roundTo
  rw [hscale]
  exact mul_le_mul_of_nonneg_right (by exact_mod_cast hround) hpos.le

theorem roundTo_mono {precision : ℕ} (hprecision : 0 < precision) {x y : ℚ} (hx : 0 ≤ x)
    (h : x ≤ y) : roundTo precision x ≤ roundTo precision y := by
  by_cases hzero : x = 0
  · rw [hzero, roundTo_zero]
    exact roundTo_nonneg precision (hx.trans h)
  · have hpos : 0 < x := lt_of_le_of_ne hx (Ne.symm hzero)
    have hlog : Int.log 2 x ≤ Int.log 2 y := Int.log_mono_right hpos h
    by_cases hlt : Int.log 2 x < Int.log 2 y
    · calc
        roundTo precision x ≤ 2 ^ (Int.log 2 x + 1) := roundTo_le_zpow_log
        _ ≤ 2 ^ Int.log 2 y := zpow_le_zpow_right₀ one_le_two hlt
        _ ≤ roundTo precision y := zpow_log_le_roundTo hprecision (hpos.trans_le h)
    · have heq : lastPlace precision x = lastPlace precision y := by
        unfold lastPlace
        rw [le_antisymm hlog (not_lt.mp hlt)]
      have hplace := lastPlace_pos precision y
      unfold roundTo
      rw [heq]
      refine mul_le_mul_of_nonneg_right ?_ hplace.le
      exact_mod_cast roundEven_mono (div_le_div_of_nonneg_right h hplace.le)

end Numbers
