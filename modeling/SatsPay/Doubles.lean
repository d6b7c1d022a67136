import Mathlib.Algebra.Order.Field.Power
import Mathlib.Data.Int.Log
import Mathlib.Data.Rat.Floor
import Mathlib.Tactic.FieldSimp
import Mathlib.Tactic.Linarith
import Mathlib.Tactic.NormNum
import Mathlib.Tactic.Positivity
import Mathlib.Tactic.Ring

/-!
# Doubles

Rounding of rationals to the nearest number of 53 bits. It is monotone, keeps small integers,
and is off by one part in `2 ^ 53` at most.
-/

namespace Doubles

def roundHalfEven (q : ℚ) : ℤ :=
  if q - ⌊q⌋ < 1 / 2 then ⌊q⌋
  else if 1 / 2 < q - ⌊q⌋ then ⌊q⌋ + 1
  else if ⌊q⌋ % 2 = 0 then ⌊q⌋ else ⌊q⌋ + 1

/-- The `f64` nearest to a number of this magnitude: 53 bits, ties to even. -/
def toDouble (q : ℚ) : ℚ :=
  if q = 0 then 0 else roundHalfEven (q / 2 ^ (Int.log 2 q - 52)) * 2 ^ (Int.log 2 q - 52)

def nearest (q : ℚ) : ℚ := if q < 0 then -toDouble (-q) else toDouble q

theorem floor_le_roundHalfEven (q : ℚ) : ⌊q⌋ ≤ roundHalfEven q := by
  unfold roundHalfEven
  split
  · exact le_rfl
  split
  · omega
  split <;> omega

theorem roundHalfEven_le_floor (q : ℚ) : roundHalfEven q ≤ ⌊q⌋ + 1 := by
  unfold roundHalfEven
  split
  · omega
  split
  · exact le_rfl
  split <;> omega

theorem roundHalfEven_mono {p q : ℚ} (h : p ≤ q) : roundHalfEven p ≤ roundHalfEven q := by
  rcases (Int.floor_mono h).lt_or_eq with hlt | heq
  · have := roundHalfEven_le_floor p
    have := floor_le_roundHalfEven q
    omega
  · unfold roundHalfEven
    rw [heq]
    have hfrac : p - ⌊q⌋ ≤ q - ⌊q⌋ := sub_le_sub_right h _
    split_ifs <;> first | omega | linarith

theorem roundHalfEven_intCast (n : ℤ) : roundHalfEven n = n := by
  unfold roundHalfEven
  rw [Int.floor_intCast, sub_self, if_pos (by norm_num)]

theorem toDouble_of_pos {q : ℚ} (h : 0 < q) :
    toDouble q = roundHalfEven (q / 2 ^ (Int.log 2 q - 52)) * 2 ^ (Int.log 2 q - 52) := if_neg h.ne'

/-- It stays in the binade. -/
theorem toDouble_bounds {q : ℚ} (h : 0 < q) :
    (2 : ℚ) ^ Int.log 2 q ≤ toDouble q ∧ toDouble q ≤ 2 ^ (Int.log 2 q + 1) := by
  have hlow : (2 : ℚ) ^ Int.log 2 q ≤ q := Int.zpow_log_le_self (by norm_num) h
  have hhigh : q < (2 : ℚ) ^ (Int.log 2 q + 1) := Int.lt_zpow_succ_log_self (by norm_num) q
  rw [toDouble_of_pos h]
  generalize Int.log 2 q = e at *
  have hunit : (0 : ℚ) < 2 ^ (e - 52) := by positivity
  have hsplit (k : ℤ) : (2 : ℚ) ^ (52 + k) * 2 ^ (e - 52) = 2 ^ (e + k) := by
    rw [← zpow_add₀ (by norm_num)]
    congr 1
    ring
  constructor
  · have hm : ((2 ^ 52 : ℤ) : ℚ) ≤ q / 2 ^ (e - 52) := by
      rw [le_div_iff₀ hunit]
      have := hsplit 0
      norm_num at this ⊢
      linarith
    have hr := roundHalfEven_mono hm
    rw [roundHalfEven_intCast] at hr
    have hr' : ((2 ^ 52 : ℤ) : ℚ) ≤ roundHalfEven (q / 2 ^ (e - 52)) := by exact_mod_cast hr
    calc (2 : ℚ) ^ e = ((2 ^ 52 : ℤ) : ℚ) * 2 ^ (e - 52) := by
          have := hsplit 0
          norm_num at this ⊢
          linarith
      _ ≤ _ := by gcongr
  · have hm : q / 2 ^ (e - 52) ≤ ((2 ^ 53 : ℤ) : ℚ) := by
      rw [div_le_iff₀ hunit]
      have := hsplit 1
      norm_num at this ⊢
      linarith
    have hr := roundHalfEven_mono hm
    rw [roundHalfEven_intCast] at hr
    have hr' : (roundHalfEven (q / 2 ^ (e - 52)) : ℚ) ≤ ((2 ^ 53 : ℤ) : ℚ) := by exact_mod_cast hr
    calc _ ≤ ((2 ^ 53 : ℤ) : ℚ) * 2 ^ (e - 52) := by gcongr
      _ = (2 : ℚ) ^ (e + 1) := by
          have := hsplit 1
          norm_num at this ⊢
          linarith

theorem toDouble_nonneg {q : ℚ} (h : 0 ≤ q) : 0 ≤ toDouble q := by
  rcases h.eq_or_lt with rfl | hq
  · simp [toDouble]
  · exact le_trans (by positivity) (toDouble_bounds hq).1

theorem toDouble_mono {p q : ℚ} (hp : 0 ≤ p) (h : p ≤ q) : toDouble p ≤ toDouble q := by
  rcases hp.eq_or_lt with rfl | hp
  · rw [show toDouble 0 = 0 from if_pos rfl]
    exact toDouble_nonneg h
  have hq := hp.trans_le h
  rcases (Int.log_mono_right (b := 2) hp h).lt_or_eq with hlt | heq
  · calc toDouble p ≤ 2 ^ (Int.log 2 p + 1) := (toDouble_bounds hp).2
      _ ≤ 2 ^ Int.log 2 q := zpow_le_zpow_right₀ (by norm_num) hlt
      _ ≤ toDouble q := (toDouble_bounds hq).1
  · rw [toDouble_of_pos hp, toDouble_of_pos hq, heq]
    have := roundHalfEven_mono (div_le_div_of_nonneg_right h
      (show (0 : ℚ) ≤ 2 ^ (Int.log 2 q - 52) by positivity))
    gcongr

/-- Small integers are doubles. -/
theorem toDouble_natCast {n : ℕ} (h : n < 2 ^ 53) : toDouble n = n := by
  rcases Nat.eq_zero_or_pos n with rfl | hn
  · simp [toDouble]
  have hq : (0 : ℚ) < n := by exact_mod_cast hn
  have he : Int.log 2 (n : ℚ) ≤ 52 := by
    by_contra hc
    have h1 := Int.zpow_log_le_self (b := 2) (by norm_num) hq
    have h2 : (2 : ℚ) ^ (53 : ℤ) ≤ 2 ^ Int.log 2 (n : ℚ) :=
      zpow_le_zpow_right₀ (by norm_num) (by omega)
    have h3 : ((2 : ℚ) ^ (53 : ℤ)) ≤ n := h2.trans (by exact_mod_cast h1)
    have h4 : ((2 ^ 53 : ℕ) : ℚ) ≤ n := by exact_mod_cast h3
    exact absurd (by exact_mod_cast h4) (not_le.2 h)
  rw [toDouble_of_pos hq]
  obtain ⟨k, hk⟩ := Int.eq_ofNat_of_zero_le (show 0 ≤ 52 - Int.log 2 (n : ℚ) by omega)
  rw [show Int.log 2 (n : ℚ) - 52 = -(k : ℤ) by omega, zpow_neg, zpow_natCast, div_inv_eq_mul]
  rw [show (n : ℚ) * 2 ^ k = ((n * 2 ^ k : ℤ) : ℚ) by push_cast; rfl, roundHalfEven_intCast]
  push_cast
  field_simp

theorem nearest_of_nonneg {q : ℚ} (h : 0 ≤ q) : nearest q = toDouble q := if_neg (not_lt.2 h)

theorem abs_roundHalfEven_sub_le (q : ℚ) : |(roundHalfEven q : ℚ) - q| ≤ 1 / 2 := by
  have hlow := Int.floor_le q
  have hhigh := Int.lt_floor_add_one q
  rw [abs_le]
  unfold roundHalfEven
  split_ifs <;> push_cast <;> constructor <;> linarith

/-- The relative error of a double. -/
theorem abs_toDouble_sub_le {q : ℚ} (h : 0 ≤ q) : |toDouble q - q| ≤ q / 2 ^ 53 := by
  rcases h.eq_or_lt with rfl | hq
  · simp [toDouble]
  have hlow : (2 : ℚ) ^ Int.log 2 q ≤ q := Int.zpow_log_le_self (by norm_num) hq
  rw [toDouble_of_pos hq]
  have hunit : (0 : ℚ) < 2 ^ (Int.log 2 q - 52) := by positivity
  have hhalf : (2 : ℚ) ^ (Int.log 2 q - 52) * (1 / 2) = 2 ^ Int.log 2 q / 2 ^ 53 := by
    rw [zpow_sub₀ (by norm_num)]
    norm_num
    ring
  calc |(roundHalfEven (q / 2 ^ (Int.log 2 q - 52)) : ℚ) * 2 ^ (Int.log 2 q - 52) - q|
      = |(roundHalfEven (q / 2 ^ (Int.log 2 q - 52)) : ℚ) - q / 2 ^ (Int.log 2 q - 52)| *
          2 ^ (Int.log 2 q - 52) := by
        rw [← abs_of_pos hunit, ← abs_mul, abs_of_pos hunit, sub_mul, div_mul_cancel₀ _ hunit.ne']
    _ ≤ 1 / 2 * 2 ^ (Int.log 2 q - 52) := by
        gcongr
        exact abs_roundHalfEven_sub_le _
    _ = 2 ^ Int.log 2 q / 2 ^ 53 := by rw [mul_comm, hhalf]
    _ ≤ q / 2 ^ 53 := by gcongr

/-- A multiple of a unit that is read as a double and multiplied back is less than half a unit
off, below `2 ^ 51`. -/
theorem abs_mul_back_lt {v : ℕ} {unit : ℚ} (hu : 0 < unit) (hv : v < 2 ^ 51) :
    |toDouble (toDouble (v / unit) * unit) - v| < 1 / 2 := by
  have hq : (0 : ℚ) ≤ v / unit := by positivity
  have hd : (0 : ℚ) ≤ toDouble (v / unit) * unit := mul_nonneg (toDouble_nonneg hq) hu.le
  have hv' : (v : ℚ) + 1 ≤ 2 ^ 51 := by exact_mod_cast hv
  have h₁ : |toDouble (v / unit) * unit - v| ≤ v / 2 ^ 53 := by
    have := mul_le_mul_of_nonneg_right (abs_toDouble_sub_le hq) hu.le
    rw [← abs_of_pos hu, ← abs_mul, abs_of_pos hu, sub_mul, div_mul_cancel₀ _ hu.ne',
      div_mul_eq_mul_div, div_mul_cancel₀ _ hu.ne'] at this
    exact this
  have h₂ := abs_toDouble_sub_le hd
  rw [abs_le] at h₁ h₂
  rw [abs_lt]
  constructor <;> linarith [h₁.1, h₁.2, h₂.1, h₂.2]

end Doubles
