import SatsPay.Lend
import SatsPay.Traces

/-!
# What the functions of the money market do

A property of programs that passes from the parts to the whole is one of a function if it
is one of the statements the function runs: those that read and lock, and the rows it
writes.
-/

namespace SatsPay

open Interleave ReadCommitted

/-- A property of programs that passes from the parts to the whole, and is one of the
statements that read and lock. -/
structure Lookups (K : ∀ ε α : Type, Lend ε α → Prop) : Prop where
  ret : ∀ {ε α : Type} (a : α), K ε α (.ret a)
  throw : ∀ {ε α : Type} (e : ε), K ε α (.throw e)
  bind : ∀ {ε α β : Type} {c : Lend ε α} {f : α → Lend ε β}, K ε α c → (∀ a, K ε β (f a)) →
    K ε β (c >>= f)
  mapErr : ∀ {ε ε' α : Type} {c : Lend ε α} (g : ε → ε'), K ε α c → K ε' α (c.mapErr g)
  utcNow : ∀ {ε : Type}, K ε _ lendUtcNow
  core : ∀ {ε : Type} [FromErr DbError ε] (st : CoreStmt), (∀ input, st ≠ .insertLedgerEntry input) →
    K ε _ (coreQuery st)
  lockReserve : ∀ {ε : Type} [FromErr DbError ε] (coin : Coin), K ε _ (lendQuery (.lockReserve coin))
  reserve : ∀ {ε : Type} [FromErr DbError ε] (coin : Coin), K ε _ (lendQuery (.reserve coin))
  findHouse : ∀ {ε : Type} [FromErr DbError ε], K ε _ (lendQuery .findHouse)
  position : ∀ {ε : Type} [FromErr DbError ε] (userId : Uuid) (coin : Coin),
    K ε _ (lendQuery (.position userId coin))
  positions : ∀ {ε : Type} [FromErr DbError ε] (userId : Uuid), K ε _ (lendQuery (.positions userId))
  price : ∀ {ε : Type} [FromErr DbError ε] (coin : Coin), K ε _ (lendQuery (.price coin))

namespace Lookups

variable {K : ∀ ε α : Type, Lend ε α → Prop} (hK : Lookups K)
include hK

theorem orPanic {α : Type} (o : Option α) : K _ _ (orPanic o) := by
  cases o with
  | none => exact hK.throw _
  | some a => exact hK.ret a

theorem ofExcept {ε α : Type} (r : Except ε α) : K _ _ (.ofExcept r) := by
  cases r with
  | ok a => exact hK.ret a
  | error e => exact hK.throw e

theorem lockWallet (id : Uuid) : K _ _ (lockWallet id) :=
  hK.bind (hK.core _ (by simp)) fun _ => hK.ret ()

theorem lockWallets (ids : List Uuid) : K _ _ (lockWallets ids) := by
  unfold SatsPay.lockWallets
  induction (ids.insertionSort (· ≤ ·)).dedup with
  | nil => exact hK.ret ()
  | cons id ids ih => exact hK.bind (hK.lockWallet id) fun _ => ih

theorem getWalletBalance (id : Uuid) : K _ _ (getWalletBalance id) :=
  hK.core (.walletBalance id) (by simp)

theorem checkBalance (input : LedgerCreditInput) : K _ _ (checkBalance input) := by
  unfold SatsPay.checkBalance
  split
  · refine hK.bind (hK.getWalletBalance _) fun b => ?_
    split
    · exact hK.throw _
    · exact hK.ret ()
  · exact hK.ret ()

theorem checkReorgHold (input : LedgerCreditInput) (held : Option (Option Time)) :
    K _ _ (checkReorgHold input held) := by
  unfold SatsPay.checkReorgHold
  split
  · exact hK.throw _
  · exact hK.ret ()

theorem getUserWalletId (userId : Uuid) (coin : Coin) : K _ _ (getUserWalletId userId coin) := by
  refine hK.bind (hK.core _ (by simp)) fun wallet => ?_
  cases wallet with
  | none => exact hK.throw _
  | some id => exact hK.ret id

theorem getLendPoolWalletIdTx (coin : Coin) : K _ _ (getLendPoolWalletIdTx coin) := by
  refine hK.mapErr _ (hK.bind hK.findHouse fun house => ?_)
  cases house with
  | none => exact hK.throw _
  | some houseId =>
    refine hK.bind (hK.core _ (by simp)) fun wallet => ?_
    cases wallet with
    | none => exact hK.throw _
    | some id => exact hK.ret id

theorem openWallets (userId : Uuid) (coin : Coin) : K _ _ (openWallets userId coin) :=
  hK.bind (hK.getUserWalletId userId coin) fun _ => hK.bind (hK.getLendPoolWalletIdTx coin)
    fun _ => hK.bind (hK.mapErr _ (hK.lockWallets _)) fun _ => hK.ret _

theorem readBalance (walletId : Uuid) : K _ _ (readBalance walletId) :=
  hK.bind (hK.mapErr _ (hK.getWalletBalance _)) fun _ => hK.ret _

theorem loadPriceTable (maxStale : ℕ) : K _ _ (loadPriceTable maxStale) := by
  have prices (l : List Coin) : ∀ prices, K _ _ (loadPrices maxStale l prices) := by
    induction l with
    | nil => exact fun _ => hK.ret _
    | cons coin l ih =>
      refine fun prices => hK.bind (hK.bind (hK.price coin) fun row => ?_) fun _ => ih _
      cases row with
      | none => exact hK.throw _
      | some r => exact hK.bind hK.utcNow fun _ => hK.ofExcept _
  exact hK.mapErr _ (prices _ _)

theorem computeAccountLiquidity (userId : Uuid) (fresh : List (Coin × ReserveState))
    (prices : PriceTable) : K _ _ (computeAccountLiquidity userId fresh prices) := by
  have indexes (coin : Coin) : K _ _ (indexesFor fresh coin) := by
    unfold indexesFor
    split
    · exact hK.ret _
    · refine hK.bind (hK.reserve coin) fun row => ?_
      cases row <;> exact hK.ret _
  have add (l : List (Coin × Position)) : ∀ a, K _ _ (addPositions fresh prices l a) := by
    induction l with
    | nil => exact fun a => hK.ret a
    | cons row l ih =>
      exact fun a => hK.bind (indexes _) fun _ => hK.bind (hK.orPanic _) fun _ => ih _
  exact hK.bind (hK.positions userId) fun rows => add rows _

/-! ## Functions that write -/

theorem accrue {coin : Coin} (hi : K LendError _ (lendQuery (.insertReserve coin)))
    (hu : ∀ li bi now, K LendError _ (lendQuery (.updateReserve coin (.accrued li bi now)))) :
    K _ _ (accrue coin) := by
  refine hK.bind (hK.lockReserve coin) fun _ => hK.bind (hK.reserve coin) fun row => hK.bind ?_ ?_
  · cases row with
    | none => exact hK.bind hi fun _ => hK.bind hK.utcNow fun _ => hK.ret _
    | some r => exact hK.ret _
  · exact fun _ => hK.bind hK.utcNow fun _ => hK.bind (hK.orPanic _) fun _ =>
      hK.bind (hK.getLendPoolWalletIdTx coin) fun _ => hK.bind (hK.readBalance _) fun _ =>
        hK.bind (hK.orPanic _) fun _ => hK.bind (hu _ _ _) fun _ => hK.ret _

theorem getOrCreatePosition {userId : Uuid} {coin : Coin}
    (hi : K LendError _ (lendQuery (.insertPosition userId coin))) :
    K _ _ (getOrCreatePosition userId coin) := by
  refine hK.bind (hK.position userId coin) fun row => ?_
  cases row with
  | none => exact hK.bind hi fun _ => hK.ret _
  | some r => exact hK.ret _

theorem applyLedgerEntry {input : LedgerCreditInput}
    (he : K LedgerError _ (coreQuery (.insertLedgerEntry input))) : K _ _ (applyLedgerEntry input) :=
  hK.bind (hK.lockWallet _) fun _ => hK.bind (hK.core _ (by simp)) fun _ =>
    hK.bind (hK.checkReorgHold _ _) fun _ => hK.bind (hK.checkBalance _) fun _ => he

theorem ledgerMove {fromWallet toWallet : Uuid} {amount : ℕ} {ledgerType : LedgerType}
    {key memoOut memoIn : String}
    (he : ∀ input, K LendError _ ((SatsPay.applyLedgerEntry input).mapErr .ledger)) :
    K _ _ (ledgerMove fromWallet toWallet amount ledgerType key memoOut memoIn) :=
  hK.bind (he _) fun _ => he _

theorem moveLiquidated {liquidatorId borrowerId : Uuid} {debtCoin collateralCoin : Coin}
    {repay seize : ℕ}
    (he : ∀ input, K LendError _ ((SatsPay.applyLedgerEntry input).mapErr .ledger)) :
    K _ _ (moveLiquidated liquidatorId borrowerId debtCoin collateralCoin repay seize) :=
  hK.bind (hK.getUserWalletId _ _) fun _ => hK.bind (hK.getUserWalletId _ _) fun _ =>
    hK.bind (hK.getLendPoolWalletIdTx _) fun _ => hK.bind (hK.getLendPoolWalletIdTx _) fun _ =>
      hK.bind (hK.mapErr _ (hK.lockWallets _)) fun _ =>
        hK.bind (hK.ledgerMove he) fun _ => hK.ledgerMove he

end Lookups

/-! ## Programs of allowed operations -/

abbrev Within (Q : Op (satsPay lendExt) → Prop) {ε α : Type} (c : Lend ε α) : Prop :=
  c.Free fun _ o => Q o

theorem within_lendQuery {Q : Op (satsPay lendExt) → Prop} {ε : Type} [FromErr DbError ε]
    {st : LendStmt} (h : Q (.tx (.ext st))) : Within Q (lendQuery st : Lend ε _) :=
  free_query (S := satsPay lendExt) fun _ => h

structure AllowsLookups (Q : Op (satsPay lendExt) → Prop) : Prop where
  core : ∀ st, (∀ input, st ≠ .insertLedgerEntry input) → Q (.tx (.core st))
  lockReserve : ∀ coin, Q (.tx (.ext (LendStmt.lockReserve coin)))
  reserve : ∀ coin, Q (.tx (.ext (LendStmt.reserve coin)))
  findHouse : Q (.tx (.ext LendStmt.findHouse))
  position : ∀ userId coin, Q (.tx (.ext (LendStmt.position userId coin)))
  positions : ∀ userId, Q (.tx (.ext (LendStmt.positions userId)))
  price : ∀ coin, Q (.tx (.ext (LendStmt.price coin)))
  call : ∀ c, Q (.call c)

theorem AllowsLookups.lookups {Q : Op (satsPay lendExt) → Prop} (h : AllowsLookups Q) :
    Lookups fun _ _ c => Within Q c where
  ret := .ret
  throw := .throw
  bind := .bind
  mapErr := .mapErr
  utcNow := free_invoke (S := satsPay lendExt) fun _ => h.call _
  core st hst := free_query (S := satsPay lendExt) fun _ => h.core st hst
  lockReserve _ := within_lendQuery (h.lockReserve _)
  reserve _ := within_lendQuery (h.reserve _)
  findHouse := within_lendQuery h.findHouse
  position _ _ := within_lendQuery (h.position _ _)
  positions _ := within_lendQuery (h.positions _)
  price _ := within_lendQuery (h.price _)

end SatsPay
