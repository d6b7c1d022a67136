import SatsPay.Coins
import SatsPay.Doubles

/-!
# Rates and indexes of the money market

The market of each coin, the kinked interest model, the growth of an index, and the
conversion between amounts and the scaled units of a position.
-/

namespace SatsPay

open Doubles

/-- `1.0` of an index. -/
def ray : ℕ := 1000000000000000000

def msPerYear : ℕ := 365 * 24 * 60 * 60 * 1000

/-- Arithmetic on `u128`, which wraps in a release build. -/
def wrap128 (n : ℕ) : ℕ := n % 2 ^ 128

/-- `to_u128()` of a `BigUint` -/
def toU128 (n : ℕ) : Option ℕ := if n < 2 ^ 128 then some n else none

structure LendMarket where
  collateralFactorBps : ℕ
  liquidationThresholdBps : ℕ
  liquidationBonusBps : ℕ
  reserveFactorBps : ℕ
  baseRateBps : ℕ
  slope1Bps : ℕ
  slope2Bps : ℕ
  optimalUtilizationBps : ℕ
  borrowEnabled : Bool
  canBeCollateral : Bool

def lendMarket : Coin → LendMarket
  | .btc => ⟨7500, 8000, 500, 1000, 0, 400, 30000, 8000, true, true⟩
  | .ltc => ⟨7000, 7500, 750, 1500, 0, 500, 30000, 8000, true, true⟩
  | .bch => ⟨7000, 7500, 750, 1500, 0, 500, 30000, 8000, true, true⟩
  | .doge => ⟨5000, 6000, 1000, 2000, 0, 700, 40000, 7000, true, true⟩
  | .pol => ⟨5000, 6000, 1000, 2000, 0, 700, 40000, 7000, true, true⟩
  | .dgb => ⟨4500, 5500, 1000, 2000, 0, 800, 40000, 6500, true, true⟩
  | .sol => ⟨6500, 7000, 750, 1500, 0, 500, 30000, 7500, true, true⟩
  | .zer => ⟨4000, 5000, 1000, 2000, 0, 800, 40000, 6500, true, true⟩
  | .pepe => ⟨4000, 5000, 1000, 2000, 0, 800, 40000, 6500, true, true⟩
  | .usdt | .usdc => ⟨8000, 8500, 500, 1000, 0, 400, 20000, 9000, true, true⟩

/-! ## Doubles -/

/-- `.round() as u32` -/
def roundU32 (q : ℚ) : ℕ := min ⌊q + 1 / 2⌋₊ (2 ^ 32 - 1)

/-! ## Rates -/

def calcUtilizationBps (totalDebt available : ℕ) : ℕ :=
  if saturate128 (totalDebt + available) = 0 then 0
  else wrap128 (totalDebt * 10000) / saturate128 (totalDebt + available) % 2 ^ 32

def calcBorrowRateBps (utilizationBps : ℕ) (m : LendMarket) : ℕ :=
  let u := min utilizationBps 10000
  let opt := m.optimalUtilizationBps
  if u ≤ opt then
    let ratio := if opt = 0 then 0 else toDouble (u / opt)
    roundU32 (toDouble (m.baseRateBps + toDouble (m.slope1Bps * ratio)))
  else
    let excess := toDouble ((u - opt : ℕ) / (10000 - opt : ℕ))
    roundU32 (toDouble (m.baseRateBps + m.slope1Bps + toDouble (m.slope2Bps * excess)))

def calcSupplyRateBps (borrowRateBps utilizationBps reserveFactorBps : ℕ) : ℕ :=
  borrowRateBps * utilizationBps / 10000 * (10000 - reserveFactorBps) / 10000 % 2 ^ 32

/-! ## Indexes -/

/-- Simple interest over a window; past `u128` it panics. -/
def accrueIndex (index ratePerYearBps : ℕ) (elapsedMs : ℤ) : Option ℕ :=
  if elapsedMs ≤ 0 ∨ ratePerYearBps = 0 then some index
  else toU128 (index + index * ratePerYearBps * elapsedMs.toNat / (10000 * msPerYear))

def scaledToAmount (scaled index : ℕ) : Option ℕ := toU128 (scaled * index / ray)

def amountToScaled (amount index : ℕ) : Option ℕ :=
  if index = 0 then some 0 else toU128 (amount * ray / index)

example : calcBorrowRateBps (calcUtilizationBps 3 1) (lendMarket .dgb) = 12229 := by decide +kernel

end SatsPay
