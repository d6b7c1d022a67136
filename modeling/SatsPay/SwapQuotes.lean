import SatsPay.Coins

/-!
# Swap quotes

What a coin swaps for at two prices, less a fee in basis points. The quotient and the fee are
rounded down, and what does not fit in 128 bits is capped.
-/

namespace SatsPay

/-- `coin_config(coin).decimals` -/
def Coin.decimals : Coin → ℕ
  | .btc | .ltc | .doge | .bch | .pol | .dgb | .sol | .usdt | .usdc | .zer | .pepe => 8

inductive SwapError where
  | zeroAmount
  | invalidPrices
  deriving DecidableEq, Repr

structure SwapQuote where
  fromAmount : ℕ
  toAmount : ℕ
  feeAmount : ℕ
  feeBps : ℕ
  priceFrom : ℕ
  priceTo : ℕ
  priceDecimals : ℕ
  deriving DecidableEq, Repr

section
variable (fromCoin toCoin : Coin) (fromAmount priceFrom priceTo feeBps priceDecimals : ℕ)

def grossOutput : ℕ :=
  fromAmount * priceFrom * 10 ^ toCoin.decimals / (priceTo * 10 ^ fromCoin.decimals)

def swapFee : ℕ := grossOutput fromCoin toCoin fromAmount priceFrom priceTo * feeBps / 10000

/-- No result where the fee is more than the output, from which it is subtracted. -/
def computeSwap : Option (Except SwapError SwapQuote) :=
  if fromAmount = 0 then some (.error .zeroAmount)
  else if priceFrom = 0 ∨ priceTo = 0 then some (.error .invalidPrices)
  else
    let gross := grossOutput fromCoin toCoin fromAmount priceFrom priceTo
    let fee := swapFee fromCoin toCoin fromAmount priceFrom priceTo feeBps
    if gross < fee then none
    else some (.ok
      { fromAmount := fromAmount, toAmount := saturate128 (gross - fee)
        feeAmount := saturate128 fee, feeBps := feeBps, priceFrom := priceFrom
        priceTo := priceTo, priceDecimals := priceDecimals })

end

/-! ## Value -/

section
variable {fromCoin toCoin : Coin} {fromAmount priceFrom priceTo feeBps priceDecimals : ℕ}

theorem computeSwap_ok {q : SwapQuote}
    (h : computeSwap fromCoin toCoin fromAmount priceFrom priceTo feeBps priceDecimals =
      some (.ok q)) :
    priceFrom ≠ 0 ∧
    q.toAmount = saturate128 (grossOutput fromCoin toCoin fromAmount priceFrom priceTo -
      swapFee fromCoin toCoin fromAmount priceFrom priceTo feeBps) := by
  unfold computeSwap at h
  split at h
  · cases h
  split at h
  · cases h
  rename_i hp
  dsimp only at h
  split at h
  · cases h
  cases h
  exact ⟨fun h => hp (.inl h), rfl⟩

/-- The gross output is worth no more than the input. -/
theorem grossOutput_value_le :
    grossOutput fromCoin toCoin fromAmount priceFrom priceTo * (priceTo * 10 ^ fromCoin.decimals) ≤
      fromAmount * priceFrom * 10 ^ toCoin.decimals :=
  Nat.div_mul_le_self _ _

theorem swapFee_le_grossOutput (h : feeBps ≤ 10000) :
    swapFee fromCoin toCoin fromAmount priceFrom priceTo feeBps ≤
      grossOutput fromCoin toCoin fromAmount priceFrom priceTo :=
  Nat.div_le_of_le_mul <| by
    rw [Nat.mul_comm 10000]
    exact Nat.mul_le_mul_left _ h

/-- What is worth no more than the input does not swap back into more than the input. -/
theorem grossOutput_back_le {amount : ℕ} (hp : priceFrom ≠ 0)
    (h : amount * (priceTo * 10 ^ fromCoin.decimals) ≤
      fromAmount * priceFrom * 10 ^ toCoin.decimals) :
    grossOutput toCoin fromCoin amount priceTo priceFrom ≤ fromAmount := by
  have hpos : 0 < priceFrom * 10 ^ toCoin.decimals := by positivity
  refine Nat.le_of_mul_le_mul_right ?_ hpos
  calc grossOutput toCoin fromCoin amount priceTo priceFrom * (priceFrom * 10 ^ toCoin.decimals)
      ≤ amount * priceTo * 10 ^ fromCoin.decimals := grossOutput_value_le
    _ = amount * (priceTo * 10 ^ fromCoin.decimals) := Nat.mul_assoc _ _ _
    _ ≤ fromAmount * priceFrom * 10 ^ toCoin.decimals := h
    _ = fromAmount * (priceFrom * 10 ^ toCoin.decimals) := Nat.mul_assoc _ _ _

theorem saturate128_add_eq_iff {m n : ℕ} :
    saturate128 m + saturate128 n = m + n ↔ m < 2 ^ 128 ∧ n < 2 ^ 128 := by
  unfold saturate128
  omega

/-- A swap either has a fee that is more than the output, and panics, or has an output that with
the fee is worth no more than the input, and never swaps back into more than the input. The output
and the fee are the gross output exactly if both fit in 128 bits. -/
theorem computeSwap_noGain (ha : 0 < fromAmount) (hf : 0 < priceFrom) (ht : 0 < priceTo) :
    (10000 < feeBps ∧ computeSwap fromCoin toCoin fromAmount priceFrom priceTo feeBps priceDecimals
      = none) ∨
    ∃ q, computeSwap fromCoin toCoin fromAmount priceFrom priceTo feeBps priceDecimals =
        some (.ok q) ∧
      (q.toAmount + q.feeAmount) * (priceTo * 10 ^ fromCoin.decimals) ≤
        fromAmount * priceFrom * 10 ^ toCoin.decimals ∧
      (q.toAmount + q.feeAmount = grossOutput fromCoin toCoin fromAmount priceFrom priceTo ↔
        grossOutput fromCoin toCoin fromAmount priceFrom priceTo -
          swapFee fromCoin toCoin fromAmount priceFrom priceTo feeBps < 2 ^ 128 ∧
        swapFee fromCoin toCoin fromAmount priceFrom priceTo feeBps < 2 ^ 128) ∧
      ∀ feeBack q', computeSwap toCoin fromCoin q.toAmount priceTo priceFrom feeBack priceDecimals =
        some (.ok q') → q'.toAmount ≤ fromAmount := by
  have hvalue := @grossOutput_value_le fromCoin toCoin fromAmount priceFrom priceTo
  have hfee := @swapFee_le_grossOutput fromCoin toCoin fromAmount priceFrom priceTo feeBps
  unfold computeSwap
  rw [if_neg (by omega), if_neg (by omega)]
  dsimp only
  generalize hg : grossOutput fromCoin toCoin fromAmount priceFrom priceTo = gross at *
  generalize swapFee fromCoin toCoin fromAmount priceFrom priceTo feeBps = fee at *
  by_cases hlt : gross < fee
  · exact .inl ⟨by omega, if_pos hlt⟩
  rw [if_neg hlt]
  have hsum : saturate128 (gross - fee) + saturate128 fee ≤ gross := by
    have h₁ := saturate128_le (gross - fee)
    have h₂ := saturate128_le fee
    omega
  refine .inr ⟨_, rfl, (Nat.mul_le_mul_right _ hsum).trans hvalue, ?_, fun feeBack q' h => ?_⟩
  · rw [← saturate128_add_eq_iff, Nat.sub_add_cancel (not_lt.1 hlt)]
  · have hto : saturate128 (gross - fee) ≤ gross := by omega
    rw [(computeSwap_ok h).2]
    calc _ ≤ grossOutput toCoin fromCoin (saturate128 (gross - fee)) priceTo priceFrom :=
          (saturate128_le _).trans (Nat.sub_le _ _)
      _ ≤ fromAmount := grossOutput_back_le hf.ne' ((Nat.mul_le_mul_right _ hto).trans hvalue)

/-- Ten units at a third of the price, and back. -/
theorem computeSwap_thirds : ∃ q,
    computeSwap .btc .pol 10 1 3 25 8 = some (.ok q) ∧
      ∀ feeBack q', computeSwap .pol .btc q.toAmount 3 1 feeBack 8 = some (.ok q') →
        q'.toAmount ≤ 10 := by
  rcases @computeSwap_noGain .btc .pol 10 1 3 25 8 (by decide) (by decide) (by decide) with
    h | ⟨q, hq, -, -, hback⟩
  · exact absurd h.1 (by decide)
  · exact ⟨q, hq, hback⟩

/-- All the amount there is, at twice the price: the output is capped, and less than the gross. -/
theorem computeSwap_capped : ∃ q,
    computeSwap .btc .ltc (2 ^ 128 - 1) 2 1 0 8 = some (.ok q) ∧
      q.toAmount + q.feeAmount ≠ grossOutput .btc .ltc (2 ^ 128 - 1) 2 1 :=
  ⟨⟨2 ^ 128 - 1, 2 ^ 128 - 1, 0, 0, 2, 1, 8⟩, by decide +kernel, by decide +kernel⟩

end

end SatsPay
