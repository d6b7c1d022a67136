import SatsPay.Numeric

/-!
# Coins

The coin table: symbols, decimals, the withdrawal settings and the conversion
between ledger units (8 decimals) and on-chain units.
-/

namespace SatsPay

inductive Coin where
  | btc | ltc | doge | bch | pol | dgb | sol | usdt | usdc | zer | pepe
  deriving DecidableEq, Repr

def coins : List Coin := [.btc, .ltc, .doge, .bch, .pol, .dgb, .sol, .usdt, .usdc, .zer, .pepe]

def Coin.asStr : Coin → String
  | .btc => "BTC"
  | .ltc => "LTC"
  | .doge => "DOGE"
  | .bch => "BCH"
  | .pol => "POL"
  | .dgb => "DGB"
  | .sol => "SOL"
  | .usdt => "USDT"
  | .usdc => "USDC"
  | .zer => "ZER"
  | .pepe => "PEPE"

/-- `{:?}` -/
def Coin.debug : Coin → String
  | .btc => "Btc"
  | .ltc => "Ltc"
  | .doge => "Doge"
  | .bch => "Bch"
  | .pol => "Pol"
  | .dgb => "Dgb"
  | .sol => "Sol"
  | .usdt => "Usdt"
  | .usdc => "Usdc"
  | .zer => "Zer"
  | .pepe => "Pepe"

def eqIgnoreAsciiCase (s t : String) : Bool :=
  s.toList.map Char.toLower == t.toList.map Char.toLower

/-- `FromStr`: the symbol in any case. -/
def Coin.fromStr (s : String) : Option Coin := coins.find? fun c => eqIgnoreAsciiCase c.asStr s

structure CoinConfig where
  minWithdrawal : ℕ
  withdrawalFee : ℕ
  approvalThreshold : ℕ

def coinConfig : Coin → CoinConfig
  | .btc => ⟨1, 1000, 1500000⟩
  | .ltc => ⟨1, 2000, 1000000000⟩
  | .doge => ⟨1, 100000000, 600000000000⟩
  | .bch => ⟨1, 5000, 250000000⟩
  | .pol => ⟨1, 3000000, 250000000000⟩
  | .dgb => ⟨1, 25000000, 12000000000000⟩
  | .sol => ⟨1, 10000, 600000000⟩
  | .usdt => ⟨1, 1000000, 100000000000⟩
  | .usdc => ⟨1, 1000000, 100000000000⟩
  | .zer => ⟨1, 100000, 10000000000000⟩
  | .pepe => ⟨1, 5000000000000, 25000000000000000⟩

/-- `coin_config(coin).min_confirmations` -/
def Coin.minConfirmations : Coin → ℕ
  | .btc | .bch => 2
  | .ltc => 6
  | .doge => 20
  | .pol | .usdt | .usdc => 30
  | .dgb => 40
  | .sol => 32
  | .zer => 10
  | .pepe => 15

def Coin.onchainDecimals : Coin → ℕ
  | .btc | .ltc | .doge | .bch | .dgb | .zer => 8
  | .pol | .pepe => 18
  | .usdt | .usdc => 6
  | .sol => 9

/-- Ledger units, of which a coin has `10 ^ 8`, in the smallest units on chain. -/
def toOnchainAmount (coin : Coin) (internal : ℕ) : ℕ :=
  if 8 ≤ coin.onchainDecimals then saturate128 (internal * 10 ^ (coin.onchainDecimals - 8))
  else internal / 10 ^ (8 - coin.onchainDecimals)

def fromOnchainAmount (coin : Coin) (onchain : ℕ) : ℕ :=
  if 8 ≤ coin.onchainDecimals then onchain / 10 ^ (coin.onchainDecimals - 8)
  else saturate128 (onchain * 10 ^ (8 - coin.onchainDecimals))

def depositWithdrawPausedCoins : List Coin := [.btc, .ltc, .doge, .bch, .dgb]

def isDepositWithdrawPaused (coin : Coin) : Bool := depositWithdrawPausedCoins.contains coin

theorem Coin.fromStr_asStr (c : Coin) : Coin.fromStr c.asStr = some c := by
  cases c <;> rfl

end SatsPay
