import Mathlib.Data.Int.Log
import SatsPay.InvoiceAmounts

/-!
# Dollars in ledger units

The quotient of two prices is kept to a hundred significant digits and then rounded up. With
prices of at most twenty digits this is the quotient rounded up.
-/

namespace SatsPay

/-- The value is the exact one, to a hundred significant digits. -/
def HundredDigits (exact value : ℚ) : Prop :=
  ∀ e : ℤ, (10 : ℚ) ^ e ≤ exact → exact < (10 : ℚ) ^ (e + 1) →
    (∃ m : ℤ, value = m * (10 : ℚ) ^ (e - 99)) ∧ |value - exact| < (10 : ℚ) ^ (e - 99)

/-- `usd_to_ledger_units` with the division of `BigDecimal`. -/
def usdToLedgerUnitsWith (div : ℚ → ℚ → ℚ) (priceUsdScaled coinPriceScaled : ℚ) : Option ℤ :=
  if coinPriceScaled ≤ 0 then none
  else some (ceilToInteger (div (priceUsdScaled * 10 ^ 8) coinPriceScaled))

theorem ceilToInteger_eq_ceil (q : ℚ) : ceilToInteger q = ⌈q⌉ := by
  unfold ceilToInteger truncate
  by_cases hq : 0 ≤ q
  · rw [if_pos hq]
    split
    · rename_i h
      exact ((Int.ceil_eq_iff).2 ⟨by push_cast; linarith, by
        have := Int.lt_floor_add_one q
        push_cast
        linarith⟩).symm
    · rename_i h
      have he : (⌊q⌋ : ℚ) = q := le_antisymm (Int.floor_le q) (not_lt.1 h)
      rw [← he, Int.floor_intCast, Int.ceil_intCast]
  · rw [if_neg hq, if_neg (not_lt.2 (Int.le_ceil q))]

/-! ## Rounded quotients -/

/-- A quotient that is rounded to a grid that is finer than its denominator, and has the integers
on it, crosses no integer. -/
theorem ceil_eq_of_onGrid {n c : ℤ} {v ulp : ℚ} (hc : 0 < c) (hulp : ulp * c ≤ 1)
    (hclose : |v - n / c| < ulp) (hgrid : ∀ k : ℤ, ∃ m : ℤ, v - k = m * ulp) :
    ⌈v⌉ = ⌈(n / c : ℚ)⌉ := by
  have hc' : (0 : ℚ) < c := by exact_mod_cast hc
  have hpos : 0 < ulp := (abs_nonneg _).trans_lt hclose
  obtain ⟨hlow, hhigh⟩ := abs_lt.1 hclose
  have hq : (n / c : ℚ) * c = n := div_mul_cancel₀ _ hc'.ne'
  generalize hk : ⌈(n / c : ℚ)⌉ = k
  obtain ⟨hk₁, hk₂⟩ := Int.ceil_eq_iff.1 hk
  generalize (n / c : ℚ) = q at *
  -- an integer apart from the quotient is apart from it by a part of the denominator
  have apart (j : ℤ) (h : (j : ℚ) < q) : (j : ℚ) + ulp ≤ q := by
    have hj : j * c + 1 ≤ n := by
      have : (j : ℚ) * c < n := hq ▸ mul_lt_mul_of_pos_right h hc'
      exact_mod_cast this
    have hj : (j : ℚ) * c + 1 ≤ n := by exact_mod_cast hj
    refine le_of_mul_le_mul_right ?_ hc'
    rw [add_mul, hq]
    linarith
  have apart' (j : ℤ) (h : q < j) : q + ulp ≤ j := by
    have hj : n + 1 ≤ j * c := by
      have : (n : ℚ) < j * c := hq ▸ mul_lt_mul_of_pos_right h hc'
      exact_mod_cast this
    have hj : (n : ℚ) + 1 ≤ j * c := by exact_mod_cast hj
    refine le_of_mul_le_mul_right ?_ hc'
    rw [add_mul, hq]
    linarith
  refine Int.ceil_eq_iff.2 ⟨?_, ?_⟩
  · have h := apart (k - 1) (by push_cast; exact hk₁)
    push_cast at h
    linarith
  · rcases hk₂.lt_or_eq with hlt | heq
    · have h := apart' k hlt
      linarith
    · obtain ⟨m, hm⟩ := hgrid k
      rw [heq, hm] at hclose
      rw [abs_mul, abs_of_pos hpos, mul_lt_iff_lt_one_left hpos] at hclose
      have h0 : m = 0 := by
        have : |m| < 1 := by exact_mod_cast hclose
        exact Int.abs_lt_one_iff.1 this
      rw [h0, Int.cast_zero, zero_mul] at hm
      linarith

theorem ceil_eq_of_hundredDigits {n c : ℤ} {v : ℚ} (hn : 0 < n) (hn' : n < 10 ^ 99) (hc : 0 < c)
    (hv : HundredDigits (n / c) v) : ⌈v⌉ = ⌈(n / c : ℚ)⌉ := by
  have hc' : (0 : ℚ) < c := by exact_mod_cast hc
  have hn₀ : (0 : ℚ) < n := by exact_mod_cast hn
  have hn₁ : (n : ℚ) < 10 ^ 99 := by exact_mod_cast hn'
  have hq : (0 : ℚ) < n / c := div_pos hn₀ hc'
  have he : (10 : ℚ) ^ Int.log 10 (n / c : ℚ) ≤ n / c := Int.zpow_log_le_self (by norm_num) hq
  obtain ⟨⟨m, rfl⟩, hclose⟩ := hv _ he (Int.lt_zpow_succ_log_self (by norm_num) _)
  generalize Int.log 10 (n / c : ℚ) = e at *
  have hle : (10 : ℚ) ^ e * c ≤ n := (le_div_iff₀ hc').1 he
  have h99 : (10 : ℚ) ^ (e - 99) * 10 ^ (99 : ℕ) = 10 ^ e := by
    rw [← zpow_natCast, ← zpow_add₀ (by norm_num)]
    congr 1
    norm_num
  have hlt : e < 99 := by
    have h : (10 : ℚ) ^ e < 10 ^ (99 : ℤ) := by
      have hc₁ : (1 : ℚ) ≤ c := by exact_mod_cast hc
      have : (10 : ℚ) ^ e ≤ (10 : ℚ) ^ e * c := le_mul_of_one_le_right (zpow_pos (by norm_num) e).le hc₁
      exact (this.trans hle).trans_lt (by exact_mod_cast hn₁)
    exact (zpow_lt_zpow_iff_right₀ (by norm_num)).1 h
  refine ceil_eq_of_onGrid hc ?_ hclose fun k => ?_
  · have : (10 : ℚ) ^ (e - 99) * c * 10 ^ (99 : ℕ) ≤ 1 * 10 ^ (99 : ℕ) := by
      rw [mul_right_comm, h99, one_mul]
      linarith
    exact le_of_mul_le_mul_right this (by positivity)
  · refine ⟨m - k * 10 ^ (99 - e).toNat, ?_⟩
    have hone : (10 : ℚ) ^ (99 - e).toNat * 10 ^ (e - 99) = 1 := by
      rw [← zpow_natCast, Int.toNat_of_nonneg (by omega), ← zpow_add₀ (by norm_num)]
      simp
    push_cast
    rw [sub_mul, mul_assoc, hone, mul_one]

/-! ## Quotes -/

section
variable {div : ℚ → ℚ → ℚ} {priceUsd coinPrice : ℕ}

theorem usdToLedgerUnitsWith_eq
    (hdiv : ∀ a b : ℚ, 0 < a → 0 < b → HundredDigits (a / b) (div a b))
    (hp : 0 < priceUsd) (hp' : priceUsd < 10 ^ 91) (hc : 0 < coinPrice) :
    usdToLedgerUnitsWith div priceUsd coinPrice = usdToLedgerUnits priceUsd coinPrice := by
  have hc' : (0 : ℚ) < coinPrice := by exact_mod_cast hc
  have hceil : ⌈div (priceUsd * 10 ^ 8) coinPrice⌉ = ⌈(priceUsd * 10 ^ 8 / coinPrice : ℚ)⌉ := by
    have hv := hdiv (priceUsd * 10 ^ 8) coinPrice (by positivity) hc'
    have h := ceil_eq_of_hundredDigits (n := priceUsd * 10 ^ 8) (c := coinPrice) (by positivity)
      (by omega) (by omega) (by push_cast; exact hv)
    push_cast at h
    exact h
  unfold usdToLedgerUnitsWith usdToLedgerUnits
  rw [if_neg (not_le.2 hc'), if_neg (not_le.2 hc'), ceilToInteger_eq_ceil, ceilToInteger_eq_ceil,
    hceil]

/-- For a price of at most twenty digits, the quote is the least number of units that is worth it. -/
theorem usdToLedgerUnitsWith_least
    (hdiv : ∀ a b : ℚ, 0 < a → 0 < b → HundredDigits (a / b) (div a b))
    (hp : 0 < priceUsd) (hp' : priceUsd < 10 ^ 20) (hc : 0 < coinPrice) :
    ∃ u, usdToLedgerUnitsWith div priceUsd coinPrice = some u ∧
      IsLeast {u : ℤ | (priceUsd : ℤ) * 10 ^ 8 ≤ u * coinPrice} u := by
  have hc' : (0 : ℚ) < coinPrice := by exact_mod_cast hc
  have hworth (u : ℤ) : (priceUsd * 10 ^ 8 / coinPrice : ℚ) ≤ u ↔
      (priceUsd : ℤ) * 10 ^ 8 ≤ u * coinPrice := by
    rw [div_le_iff₀ hc']
    exact_mod_cast Iff.rfl
  refine ⟨⌈(priceUsd * 10 ^ 8 / coinPrice : ℚ)⌉, ?_, ?_, fun u hu => ?_⟩
  · rw [usdToLedgerUnitsWith_eq hdiv hp (hp'.trans (by norm_num)) hc, usdToLedgerUnits,
      if_neg (not_le.2 hc'), ceilToInteger_eq_ceil]
  · exact (hworth _).1 (Int.le_ceil _)
  · exact Int.ceil_le.2 ((hworth u).2 hu)

end

def roundedDiv (a b : ℚ) : ℚ :=
  ⌊a / b * 10 ^ (99 - Int.log 10 (a / b)) + 1 / 2⌋ * 10 ^ (Int.log 10 (a / b) - 99)

theorem hundredDigits_roundedDiv {a b : ℚ} (ha : 0 < a) (hb : 0 < b) :
    HundredDigits (a / b) (roundedDiv a b) := by
  intro e he he'
  have hq : 0 < a / b := div_pos ha hb
  obtain rfl : Int.log 10 (a / b) = e := by
    have h₁ := (Int.zpow_le_iff_le_log (b := 10) (by norm_num) hq).1 (by exact_mod_cast he)
    have h₂ := (Int.lt_zpow_iff_log_lt (b := 10) (by norm_num) hq).1 (by exact_mod_cast he')
    omega
  unfold roundedDiv
  generalize Int.log 10 (a / b) = e
  refine ⟨⟨_, rfl⟩, ?_⟩
  have hulp : (0 : ℚ) < 10 ^ (e - 99) := zpow_pos (by norm_num) _
  have hone : (10 : ℚ) ^ (99 - e) * 10 ^ (e - 99) = 1 := by
    rw [← zpow_add₀ (by norm_num)]
    simp
  have hdist : (⌊a / b * 10 ^ (99 - e) + 1 / 2⌋ * 10 ^ (e - 99) - a / b : ℚ) =
      (⌊a / b * 10 ^ (99 - e) + 1 / 2⌋ - a / b * 10 ^ (99 - e)) * 10 ^ (e - 99) := by
    rw [sub_mul, mul_assoc (a / b), hone, mul_one]
  rw [hdist, abs_mul, abs_of_pos hulp, mul_lt_iff_lt_one_left hulp, abs_lt]
  have h₁ := Int.floor_le (a / b * 10 ^ (99 - e) + 1 / 2)
  have h₂ := Int.lt_floor_add_one (a / b * 10 ^ (99 - e) + 1 / 2)
  constructor <;> linarith

/-- A dollar, of a coin that is worth 30 cents. -/
theorem usdToLedgerUnitsWith_thirty : ∃ u,
    usdToLedgerUnitsWith roundedDiv (100000000 : ℕ) (30000000 : ℕ) = some u ∧
      IsLeast {u : ℤ | ((100000000 : ℕ) : ℤ) * 10 ^ 8 ≤ u * (30000000 : ℕ)} u :=
  usdToLedgerUnitsWith_least (fun _ _ => hundredDigits_roundedDiv) (by norm_num) (by norm_num)
    (by norm_num)

end SatsPay
