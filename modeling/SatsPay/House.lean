import SatsPay.Ledger
import SatsPay.Requests

/-!
# The inventory of the house

`get_house_wallet_id`, `debit_house` and `credit_house`, for a part of the system whose
tables tell the user of the house.
-/

namespace SatsPay

open Interleave ReadCommitted

inductive HouseError where
  | db (e : DbError)
  /-- `Db` of the text of a ledger error. -/
  | ledger (e : LedgerError)
  | notInitialized
  | walletMissing (coin : Coin)
  | insufficientLiquidity (coin : Coin)

instance : FromErr DbError HouseError := ⟨.db⟩

section
variable {X : Ext} (findHouseId : Code (satsPay X) HouseError (Option Uuid))

def getHouseWalletId (coin : Coin) : Code (satsPay X) HouseError Uuid := do
  let house ← findHouseId
  match house with
  | none => .throw .notInitialized
  | some house => do
    let wallet ← coreQuery (.walletOf house coin .house)
    match wallet with
    | none => .throw (.walletMissing coin)
    | some walletId => pure walletId

def referenced (walletId : Uuid) (amount : ℚ) (ledgerType : LedgerType) (referenceId : Uuid)
    (referenceType memo : String) : LedgerCreditInput :=
  { walletId, amount, ledgerType, referenceId := some referenceId,
    referenceType := some referenceType, referenceKey := none, memo := some memo }

def debitHouseError (coin : Coin) : LedgerError → HouseError
  | .insufficientBalance _ _ _ => .insufficientLiquidity coin
  | .db e => .db e
  | .reorgHold _ => .insufficientLiquidity coin

def creditHouseError : LedgerError → HouseError
  | .db e => .db e
  | e => .ledger e

def debitHouse (coin : Coin) (amount : ℚ) (ledgerType : LedgerType) (referenceId : Uuid)
    (referenceType memo : String) : Code (satsPay X) HouseError Unit :=
  if amount = 0 then pure ()
  else do
    let walletId ← getHouseWalletId findHouseId coin
    (applyLedgerEntry (referenced walletId (-amount) ledgerType referenceId referenceType
      memo)).mapErr (debitHouseError coin)

def creditHouse (coin : Coin) (amount : ℚ) (ledgerType : LedgerType) (referenceId : Uuid)
    (referenceType memo : String) : Code (satsPay X) HouseError Unit :=
  if amount = 0 then pure ()
  else do
    let walletId ← getHouseWalletId findHouseId coin
    (applyLedgerEntry (referenced walletId amount ledgerType referenceId referenceType
      memo)).mapErr creditHouseError

/-! ## None of it commits -/

variable {fails : X.Call → Prop} {reads : Stmt X → Prop}

theorem tentative_core {ε : Type} [FromErr DbError ε] (st : CoreStmt) :
    Tentative (S := satsPay X) fails reads (coreQuery st : Code (satsPay X) ε _) := .query _

theorem tentative_lockWallet (walletId : Uuid) :
    Tentative (S := satsPay X) fails reads (lockWallet walletId) :=
  (tentative_core _).bind fun _ => .ret _

theorem tentative_lockWallets (walletIds : List Uuid) :
    Tentative (S := satsPay X) fails reads (lockWallets walletIds) := by
  unfold lockWallets
  induction (walletIds.insertionSort (· ≤ ·)).dedup with
  | nil => exact .ret _
  | cons id ids ih => exact (tentative_lockWallet id).bind fun _ => ih

theorem tentative_applyLedgerEntry (input : LedgerCreditInput) :
    Tentative (S := satsPay X) fails reads (applyLedgerEntry input) := by
  have hold (held : Option (Option Time)) :
      Tentative (S := satsPay X) fails reads (checkReorgHold input held) := by
    unfold checkReorgHold
    split
    · exact .throw _
    · exact .ret _
  have cover : Tentative (S := satsPay X) fails reads (checkBalance input) := by
    unfold checkBalance
    split
    · refine (tentative_core _).bind fun balance => ?_
      split
      · exact .throw _
      · exact .ret _
    · exact .ret _
  exact (tentative_lockWallet _).bind fun _ => (tentative_core _).bind fun held =>
    (hold held).bind fun _ => cover.bind fun _ => tentative_core _

variable {findHouseId}

theorem tentative_getHouseWalletId (hf : Tentative (S := satsPay X) fails reads findHouseId)
    (coin : Coin) : Tentative (S := satsPay X) fails reads (getHouseWalletId findHouseId coin) := by
  refine hf.bind fun house => ?_
  cases house with
  | none => exact .throw _
  | some house =>
    refine (tentative_core _).bind fun wallet => ?_
    cases wallet with
    | none => exact .throw _
    | some walletId => exact .ret _

theorem tentative_debitHouse (hf : Tentative (S := satsPay X) fails reads findHouseId) (coin : Coin)
    (amount : ℚ) (ledgerType : LedgerType) (referenceId : Uuid) (referenceType memo : String) :
    Tentative (S := satsPay X) fails reads
      (debitHouse findHouseId coin amount ledgerType referenceId referenceType memo) := by
  unfold debitHouse
  split
  · exact .ret _
  · exact (tentative_getHouseWalletId hf coin).bind fun _ => (tentative_applyLedgerEntry _).mapErr _

theorem tentative_creditHouse (hf : Tentative (S := satsPay X) fails reads findHouseId) (coin : Coin)
    (amount : ℚ) (ledgerType : LedgerType) (referenceId : Uuid) (referenceType memo : String) :
    Tentative (S := satsPay X) fails reads
      (creditHouse findHouseId coin amount ledgerType referenceId referenceType memo) := by
  unfold creditHouse
  split
  · exact .ret _
  · exact (tentative_getHouseWalletId hf coin).bind fun _ => (tentative_applyLedgerEntry _).mapErr _

end

end SatsPay
