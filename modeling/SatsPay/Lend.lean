import SatsPay.Decimals
import SatsPay.House
import SatsPay.LendRates

/-!
# The money market

Supply, withdraw, borrow, repay and liquidate over the lending pool of each coin.
What a user holds or owes is kept in scaled units, whose worth grows with the
indexes of the coin's reserve.
-/

namespace SatsPay

open Interleave ReadCommitted

/-! ## The tables -/

/-- A time in microseconds. -/
abbrev Instant := ℤ

structure Reserve where
  liquidityIndex : ℕ
  borrowIndex : ℕ
  totalScaledSupply : ℕ
  totalScaledDebt : ℕ
  lastAccruedAt : Instant
  deriving DecidableEq, Repr

structure Position where
  scaledSupply : ℕ
  scaledDebt : ℕ
  useAsCollateral : Bool
  deriving DecidableEq, Repr

structure CachedPrice where
  priceScaled : ℤ
  priceDecimals : ℕ
  fetchedAt : Instant
  deriving DecidableEq, Repr

/-- The positions of a coin are kept by user, of whom each has one at most. -/
structure LendBook where
  reserve : Option Reserve
  positions : Table Position

structure LendDb where
  books : Coin → LendBook
  prices : Coin → Option CachedPrice
  /-- The user with the e-mail address of the house. -/
  house : Option Uuid

/-! ## Statements -/

inductive ReserveUpdate where
  | accrued (liquidityIndex borrowIndex : ℕ) (now : Instant)
  | addSupply (scaled : ℕ)
  | subSupply (scaled : ℕ)
  | addDebt (scaled : ℕ)
  | subDebt (scaled : ℕ)
  deriving DecidableEq, Repr

/-- `GREATEST(total - $2, 0)` is the difference of natural numbers. -/
def ReserveUpdate.set : ReserveUpdate → Reserve → Reserve
  | .accrued li bi now, r =>
    { r with liquidityIndex := li, borrowIndex := bi, lastAccruedAt := now }
  | .addSupply n, r => { r with totalScaledSupply := r.totalScaledSupply + n }
  | .subSupply n, r => { r with totalScaledSupply := r.totalScaledSupply - n }
  | .addDebt n, r => { r with totalScaledDebt := r.totalScaledDebt + n }
  | .subDebt n, r => { r with totalScaledDebt := r.totalScaledDebt - n }

inductive PositionUpdate where
  | addSupply (scaled : ℕ)
  | setSupply (scaled : ℕ)
  | addDebt (scaled : ℕ)
  | setDebt (scaled : ℕ)
  deriving DecidableEq, Repr

def PositionUpdate.set : PositionUpdate → Position → Position
  | .addSupply n, r => { r with scaledSupply := r.scaledSupply + n }
  | .setSupply n, r => { r with scaledSupply := n }
  | .addDebt n, r => { r with scaledDebt := r.scaledDebt + n }
  | .setDebt n, r => { r with scaledDebt := n }

/-- The columns are `numeric(39, 0)`. -/
def Reserve.fits (r : Reserve) : Bool :=
  decide (r.liquidityIndex < 10 ^ 39 ∧ r.borrowIndex < 10 ^ 39 ∧
    r.totalScaledSupply < 10 ^ 39 ∧ r.totalScaledDebt < 10 ^ 39)

def Position.fits (r : Position) : Bool :=
  decide (r.scaledSupply < 10 ^ 39 ∧ r.scaledDebt < 10 ^ 39)

inductive LendStmt where
  | lockReserve (coin : Coin)
  | reserve (coin : Coin)
  | insertReserve (coin : Coin)
  | updateReserve (coin : Coin) (u : ReserveUpdate)
  | findHouse
  | position (userId : Uuid) (coin : Coin)
  | insertPosition (userId : Uuid) (coin : Coin)
  | updatePosition (userId : Uuid) (coin : Coin) (u : PositionUpdate)
  | positions (userId : Uuid)
  | price (coin : Coin)

abbrev LendStmt.Ans : LendStmt → Type
  | .lockReserve _ => Unit
  | .reserve _ => Option Reserve
  | .insertReserve _ => Unit
  | .updateReserve _ _ => Unit
  | .findHouse => Option Uuid
  | .position _ _ => Option Position
  | .insertPosition _ _ => Unit
  | .updatePosition _ _ _ => Unit
  | .positions _ => List (Coin × Position)
  | .price _ => Option CachedPrice

inductive LendWrite where
  | putReserve (coin : Coin) (r : Reserve)
  | updateReserve (coin : Coin) (u : ReserveUpdate)
  | putPosition (coin : Coin) (userId : Uuid) (r : Position)
  | updatePosition (coin : Coin) (userId : Uuid) (u : PositionUpdate)

def LendWrite.coin : LendWrite → Coin
  | .putReserve coin _ | .updateReserve coin _ | .putPosition coin _ _
  | .updatePosition coin _ _ => coin

def Reserve.fresh (now : Instant) : Reserve := ⟨ray, ray, 0, 0, now⟩

def Position.fresh : Position := ⟨0, 0, true⟩

def LendWrite.set : LendWrite → LendBook → LendBook
  | .putReserve _ r, b => { b with reserve := some r }
  | .updateReserve _ u, b => { b with reserve := b.reserve.map u.set }
  | .putPosition _ userId r, b => { b with positions := b.positions.insert userId r }
  | .updatePosition _ userId u, b =>
    match b.positions.lookup userId with
    | some r => { b with positions := b.positions.insert userId (u.set r) }
    | none => b

def LendDb.onBook (db : LendDb) (coin : Coin) (f : LendBook → LendBook) : LendDb :=
  { db with books := Function.update db.books coin (f (db.books coin)) }

def LendWrite.apply (w : LendWrite) (db : LendDb) : LendDb := db.onBook w.coin w.set

def LendDb.positionsOf (db : LendDb) (userId : Uuid) : List (Coin × Position) :=
  coins.filterMap fun coin => ((db.books coin).positions.lookup userId).map fun r => (coin, r)

def LendStmt.eval : (st : LendStmt) → Core → LendDb →
    List (Except DbError (st.Ans × List LendWrite))
  | .lockReserve _, _, _ => [.ok ((), [])]
  | .reserve coin, _, db => [.ok ((db.books coin).reserve, [])]
  | .insertReserve coin, c, db =>
    if (db.books coin).reserve.isSome then [.error .uniqueViolation]
    else [.ok ((), [.putReserve coin (.fresh (c.now * 1000000))])]
  | .updateReserve coin u, _, db =>
    match (db.books coin).reserve with
    | some r => if (u.set r).fits then [.ok ((), [.updateReserve coin u])]
      else [.error .numericOverflow]
    | none => [.ok ((), [])]
  | .findHouse, _, db => [.ok (db.house, [])]
  | .position userId coin, _, db => [.ok ((db.books coin).positions.lookup userId, [])]
  | .insertPosition userId coin, _, db =>
    if ((db.books coin).positions.lookup userId).isSome then [.error .uniqueViolation]
    else [.ok ((), [.putPosition coin userId .fresh])]
  | .updatePosition userId coin u, _, db =>
    match (db.books coin).positions.lookup userId with
    | some r => if (u.set r).fits then [.ok ((), [.updatePosition coin userId u])]
      else [.error .numericOverflow]
    | none => [.ok ((), [])]
  -- the order of the rows is left open, and nothing that reads them depends on it
  | .positions userId, _, db => [.ok (db.positionsOf userId, [])]
  | .price coin, _, db => [.ok (db.prices coin, [])]

/-- One lock for each coin, that of its reserve: whoever writes a position of the
coin has it. -/
def LendStmt.locks : LendStmt → Core → LendDb → List Coin
  | .lockReserve coin, _, db => if (db.books coin).reserve.isSome then [coin] else []
  | .insertReserve coin, _, _ | .updateReserve coin _, _, _ | .insertPosition _ coin, _, _
  | .updatePosition _ coin _, _, _ => [coin]
  | _, _, _ => []

@[simp] theorem LendDb.onBook_self (db : LendDb) (coin : Coin) (f : LendBook → LendBook) :
    (db.onBook coin f).books coin = f (db.books coin) := Function.update_self ..

theorem LendDb.onBook_ne (db : LendDb) {coin c : Coin} (h : c ≠ coin) (f : LendBook → LendBook) :
    (db.onBook coin f).books c = db.books c := Function.update_of_ne h ..

theorem LendStmt.writes {st : LendStmt} {c : Core} {db : LendDb} {a : st.Ans}
    {ws : List LendWrite} (h : .ok (a, ws) ∈ st.eval c db) : ∀ w ∈ ws, w.coin ∈ st.locks c db := by
  intro w hw
  cases st with
  | insertReserve coin | insertPosition userId coin =>
    simp only [LendStmt.eval] at h
    split at h
    · cases List.mem_singleton.1 h
    · cases List.mem_singleton.1 h
      cases List.mem_singleton.1 hw
      exact List.mem_singleton_self _
  | updateReserve coin u | updatePosition userId coin u =>
    simp only [LendStmt.eval] at h
    split at h
    · split at h
      · cases List.mem_singleton.1 h
        cases List.mem_singleton.1 hw
        exact List.mem_singleton_self _
      · cases List.mem_singleton.1 h
    · cases List.mem_singleton.1 h
      cases hw
  | _ => cases List.mem_singleton.1 h; cases hw

inductive LendCall where
  | utcNow

def lendExt : Ext where
  Db := LendDb
  Key := Coin
  Write := LendWrite
  Stmt := LendStmt
  Ans := LendStmt.Ans
  Call := LendCall
  Reply _ := Instant
  locks := LendStmt.locks
  eval := LendStmt.eval
  apply := LendWrite.apply
  Row _ := LendBook
  row coin db := db.books coin
  touches w := [w.coin]
  row_apply _ _ db h := db.onBook_ne (by simpa using h) _
  row_congr coin w db db' h := by
    by_cases e : coin = w.coin
    · subst e
      simp only [LendWrite.apply, LendDb.onBook_self, h]
    · simp only [LendWrite.apply, LendDb.onBook_ne _ e, h]
  covered _ _ _ _ _ h w hw k hk := List.mem_singleton.1 hk ▸ LendStmt.writes h w hw

instance : DecidableEq lendExt.Key := inferInstanceAs (DecidableEq Coin)

abbrev Lend (ε α : Type) := Code (satsPay lendExt) ε α

section
variable {ε : Type}

def lendQuery [FromErr DbError ε] (st : LendStmt) : Lend ε st.Ans := extQuery (X := lendExt) st

def lendUtcNow : Lend ε Instant := invoke (S := satsPay lendExt) .utcNow

end

/-! ## Errors -/

inductive PricingDbError where
  | db (e : DbError)
  | noCachedPrice (coin : Coin)
  | stalePrice (coin : Coin)

inductive LendError where
  | db (e : DbError)
  /-- `Db` of the text of a ledger error. -/
  | ledger (e : LedgerError)
  | house (e : HouseError)
  | pricing (e : PricingDbError)
  | invalidAmount
  | walletNotFound
  | borrowDisabled (coin : Coin)
  | insufficientLiquidity
  | noSupply
  | noDebt
  | unsafeWithdraw
  | insufficientCollateral
  | selfLiquidation
  | noBorrowerDebt
  | noSeizableCollateral
  | positionHealthy
  | liquidationTooSmall
  /-- The task ends. -/
  | panicked

instance : FromErr DbError LendError := ⟨.db⟩
instance : FromErr DbError PricingDbError := ⟨.db⟩

def orPanic {α : Type} : Option α → Lend LendError α
  | some a => .ret a
  | none => .throw .panicked

/-! ## Prices -/

abbrev PriceTable := Coin → ℕ × ℕ

/-- `price_scaled.to_u128()` -/
def CachedPrice.toU128 (r : CachedPrice) : Option ℕ :=
  if 0 ≤ r.priceScaled then SatsPay.toU128 r.priceScaled.toNat else none

/-- A cached price that is not stale. A price of the future has age zero. -/
def openPrice (coin : Coin) (maxStale : ℕ) (now : Instant) (r : CachedPrice) :
    Except PricingDbError (ℕ × ℕ) :=
  if maxStale < (now - r.fetchedAt).toNat then .error (.stalePrice coin)
  else match r.toU128 with
    | some price => .ok (price, r.priceDecimals)
    | none => .error (.noCachedPrice coin)

def getPrice (coin : Coin) (maxStale : ℕ) : Lend PricingDbError (ℕ × ℕ) := do
  let row ← lendQuery (.price coin)
  match row with
  | none => .throw (.noCachedPrice coin)
  | some r => do
    let now ← lendUtcNow
    .ofExcept (openPrice coin maxStale now r)

/-- The prices of these coins, on top of those there are. -/
def loadPrices (maxStale : ℕ) : List Coin → PriceTable → Lend PricingDbError PriceTable
  | [], prices => .ret prices
  | coin :: coins, prices => do
    let price ← getPrice coin maxStale
    loadPrices maxStale coins (Function.update prices coin price)

def loadPriceTable (maxStale : ℕ) : Lend LendError PriceTable :=
  (loadPrices maxStale coins fun _ => (0, 0)).mapErr .pricing

/-- `amount * price / 10^decimals`, where every coin has 8 decimals. -/
def valueUsd (prices : PriceTable) (coin : Coin) (amount : ℕ) : ℕ :=
  saturate128 (amount * (prices coin).1 / 10 ^ 8)

def usdToAmount (prices : PriceTable) (coin : Coin) (usd : ℕ) : ℕ :=
  if (prices coin).1 = 0 then 0 else saturate128 (usd * 10 ^ 8 / (prices coin).1)

/-! ## Reading the tables -/

structure ReserveState where
  liquidityIndex : ℕ
  borrowIndex : ℕ
  deriving DecidableEq, Repr

def getLendPoolWalletId (coin : Coin) : Lend HouseError Uuid := do
  let house ← lendQuery .findHouse
  match house with
  | none => .throw .notInitialized
  | some houseId => do
    let wallet ← coreQuery (.walletOf houseId coin .lendPool)
    match wallet with
    | none => .throw (.walletMissing coin)
    | some id => pure id

def getLendPoolWalletIdTx (coin : Coin) : Lend LendError Uuid := (getLendPoolWalletId coin).mapErr .house

def getUserWalletId (userId : Uuid) (coin : Coin) : Lend LendError Uuid := do
  let wallet ← coreQuery (.walletOf userId coin .personal)
  match wallet with
  | none => .throw .walletNotFound
  | some id => pure id

def readBalance (walletId : Uuid) : Lend LendError ℕ := do
  let balance ← (getWalletBalance walletId).mapErr .ledger
  pure (readU128 0 balance)

/-- Both indexes, the scaled debt and the time of the last accrual; a reserve
without a row is made. -/
def openReserve (coin : Coin) : Option Reserve → Lend LendError (ReserveState × ℕ × Instant)
  | some r => .ret (⟨readU128 ray r.liquidityIndex, readU128 ray r.borrowIndex⟩,
      readU128 0 r.totalScaledDebt, r.lastAccruedAt)
  | none => do
    let _ ← lendQuery (.insertReserve coin)
    let now ← lendUtcNow
    pure (⟨ray, ray⟩, 0, now)

/-- The indexes after the time that has passed, at the utilization there is. -/
def grow (market : LendMarket) (state : ReserveState) (realDebt available : ℕ)
    (elapsedMs : ℤ) : Option ReserveState :=
  let utilBps := calcUtilizationBps realDebt available
  let borrowRateBps := calcBorrowRateBps utilBps market
  let supplyRateBps := calcSupplyRateBps borrowRateBps utilBps market.reserveFactorBps
  (accrueIndex state.borrowIndex borrowRateBps elapsedMs).bind fun borrowIndex =>
    (accrueIndex state.liquidityIndex supplyRateBps elapsedMs).map fun liquidityIndex =>
      ⟨liquidityIndex, borrowIndex⟩

def millisBetween (now last : Instant) : ℤ := (now - last).tdiv 1000

def accrue (coin : Coin) : Lend LendError ReserveState := do
  let _ ← lendQuery (.lockReserve coin)
  let row ← lendQuery (.reserve coin)
  let (state, totalScaledDebt, lastAccruedAt) ← openReserve coin row
  let now ← lendUtcNow
  let realDebt ← orPanic (scaledToAmount totalScaledDebt state.borrowIndex)
  let poolId ← getLendPoolWalletIdTx coin
  let available ← readBalance poolId
  let fresh ← orPanic (grow (lendMarket coin) state realDebt available
    (millisBetween now lastAccruedAt))
  let _ ← lendQuery (.updateReserve coin (.accrued fresh.liquidityIndex fresh.borrowIndex now))
  pure fresh

structure OpenPosition where
  scaledSupply : ℕ
  scaledDebt : ℕ
  useAsCollateral : Bool

def Position.open (r : Position) : OpenPosition :=
  ⟨readU128 0 r.scaledSupply, readU128 0 r.scaledDebt, r.useAsCollateral⟩

def getOrCreatePosition (userId : Uuid) (coin : Coin) : Lend LendError OpenPosition := do
  let row ← lendQuery (.position userId coin)
  match row with
  | some r => pure r.open
  | none => do
    let _ ← lendQuery (.insertPosition userId coin)
    pure ⟨0, 0, true⟩

/-! ## The liquidity of an account -/

structure AccountLiquidity where
  liquidationCollateralUsd : ℕ
  borrowPowerUsd : ℕ
  debtUsd : ℕ
  deriving DecidableEq, Repr

def indexesFor (fresh : List (Coin × ReserveState)) (coin : Coin) : Lend LendError ReserveState :=
  match fresh.lookup coin with
  | some r => .ret r
  | none => do
    let row ← lendQuery (.reserve coin)
    match row with
    | some r => pure ⟨readU128 ray r.liquidityIndex, readU128 ray r.borrowIndex⟩
    | none => pure ⟨ray, ray⟩

def AccountLiquidity.addSupply (a : AccountLiquidity) (prices : PriceTable) (coin : Coin)
    (amount : ℕ) : AccountLiquidity :=
  let usd := valueUsd prices coin amount
  { a with
    liquidationCollateralUsd := wrap128 (a.liquidationCollateralUsd +
      wrap128 (usd * (lendMarket coin).liquidationThresholdBps) / 10000)
    borrowPowerUsd := wrap128 (a.borrowPowerUsd +
      wrap128 (usd * (lendMarket coin).collateralFactorBps) / 10000) }

def AccountLiquidity.addDebt (a : AccountLiquidity) (prices : PriceTable) (coin : Coin)
    (amount : ℕ) : AccountLiquidity :=
  { a with debtUsd := wrap128 (a.debtUsd + valueUsd prices coin amount) }

def AccountLiquidity.add (prices : PriceTable) (coin : Coin) (r : OpenPosition)
    (indexes : ReserveState) (a : AccountLiquidity) : Option AccountLiquidity :=
  (if 0 < r.scaledSupply ∧ r.useAsCollateral ∧ (lendMarket coin).canBeCollateral then
    (scaledToAmount r.scaledSupply indexes.liquidityIndex).map (a.addSupply prices coin)
  else some a).bind fun a =>
    if 0 < r.scaledDebt then
      (scaledToAmount r.scaledDebt indexes.borrowIndex).map (a.addDebt prices coin)
    else some a

def addPositions (fresh : List (Coin × ReserveState)) (prices : PriceTable) :
    List (Coin × Position) → AccountLiquidity → Lend LendError AccountLiquidity
  | [], a => .ret a
  | (coin, r) :: rows, a => do
    let indexes ← indexesFor fresh coin
    let a ← orPanic (a.add prices coin r.open indexes)
    addPositions fresh prices rows a

def computeAccountLiquidity (userId : Uuid) (fresh : List (Coin × ReserveState))
    (prices : PriceTable) : Lend LendError AccountLiquidity := do
  let rows ← lendQuery (.positions userId)
  addPositions fresh prices rows ⟨0, 0, 0⟩

/-! ## The ledger -/

def lendKey (userId : Uuid) (coin : Coin) : String := toString userId ++ ":" ++ coin.asStr

def lendEntry (walletId : Uuid) (amount : ℚ) (ledgerType : LedgerType) (key memo : String) :
    LedgerCreditInput :=
  ⟨walletId, amount, ledgerType, none, some "LendPosition", some key, some memo⟩

def ledgerMove (fromWallet toWallet : Uuid) (amount : ℕ) (ledgerType : LedgerType)
    (key memoOut memoIn : String) : Lend LendError Unit := do
  (applyLedgerEntry (lendEntry fromWallet (-(amount : ℚ)) ledgerType key memoOut)).mapErr .ledger
  (applyLedgerEntry (lendEntry toWallet amount ledgerType key memoIn)).mapErr .ledger

def openWallets (userId : Uuid) (coin : Coin) : Lend LendError (Uuid × Uuid) := do
  let walletId ← getUserWalletId userId coin
  let poolId ← getLendPoolWalletIdTx coin
  (lockWallets [walletId, poolId]).mapErr .ledger
  pure (walletId, poolId)

/-! ## Operations -/

section
variable (userId : Uuid) (coin : Coin) (amount : ℕ)

def supply : Lend LendError ℕ :=
  if amount = 0 then .throw .invalidAmount
  else transaction do
    let idx ← accrue coin
    let (walletId, poolId) ← openWallets userId coin
    ledgerMove walletId poolId amount .lendSupply (lendKey userId coin)
      ("Supply " ++ coin.asStr) ("Supply intake " ++ coin.asStr)
    let scaled ← orPanic (amountToScaled amount idx.liquidityIndex)
    let _ ← getOrCreatePosition userId coin
    let _ ← lendQuery (.updatePosition userId coin (.addSupply scaled))
    let _ ← lendQuery (.updateReserve coin (.addSupply scaled))
    commit
    pure amount

/-- What is taken from the collateral leaves enough of it for the debt. -/
def safeWithdraw (position : OpenPosition) (liquidity : AccountLiquidity) (prices : PriceTable)
    (out : ℕ) : Prop :=
  position.useAsCollateral ∧ (lendMarket coin).canBeCollateral ∧ 0 < liquidity.debtUsd →
    liquidity.debtUsd ≤ liquidity.liquidationCollateralUsd -
      wrap128 (valueUsd prices coin out * (lendMarket coin).liquidationThresholdBps) / 10000

instance (position : OpenPosition) (liquidity : AccountLiquidity) (prices : PriceTable) (out : ℕ) :
    Decidable (safeWithdraw coin position liquidity prices out) := by
  unfold safeWithdraw; infer_instance

def withdraw (maxStale : ℕ) : Lend LendError ℕ :=
  if amount = 0 then .throw .invalidAmount
  else transaction do
    let idx ← accrue coin
    let prices ← loadPriceTable maxStale
    let (walletId, poolId) ← openWallets userId coin
    let position ← getOrCreatePosition userId coin
    if position.scaledSupply = 0 then .throw .noSupply
    else do
      let supplyReal ← orPanic (scaledToAmount position.scaledSupply idx.liquidityIndex)
      let out := min amount supplyReal
      let available ← readBalance poolId
      if available < out then .throw .insufficientLiquidity
      else do
        let liquidity ← computeAccountLiquidity userId [(coin, idx)] prices
        if ¬ safeWithdraw coin position liquidity prices out then .throw .unsafeWithdraw
        else do
          ledgerMove poolId walletId out .lendWithdraw (lendKey userId coin)
            ("Withdraw payout " ++ coin.asStr) ("Withdraw " ++ coin.asStr ++ " (incl. interest)")
          let scaledOut ← orPanic (amountToScaled out idx.liquidityIndex)
          let _ ← lendQuery (.updatePosition userId coin
            (.setSupply (position.scaledSupply - scaledOut)))
          let _ ← lendQuery (.updateReserve coin (.subSupply scaledOut))
          commit
          pure out

def borrow (maxStale : ℕ) : Lend LendError ℕ :=
  if amount = 0 then .throw .invalidAmount
  else if ¬ (lendMarket coin).borrowEnabled then .throw (.borrowDisabled coin)
  else transaction do
    let idx ← accrue coin
    let prices ← loadPriceTable maxStale
    let (walletId, poolId) ← openWallets userId coin
    let available ← readBalance poolId
    if available < amount then .throw .insufficientLiquidity
    else do
      let liquidity ← computeAccountLiquidity userId [(coin, idx)] prices
      if liquidity.borrowPowerUsd < wrap128 (liquidity.debtUsd + valueUsd prices coin amount) then
        .throw .insufficientCollateral
      else do
        ledgerMove poolId walletId amount .lendBorrow (lendKey userId coin)
          ("Borrow disbursement " ++ coin.asStr) ("Borrow " ++ coin.asStr)
        let scaled ← orPanic (amountToScaled amount idx.borrowIndex)
        let _ ← getOrCreatePosition userId coin
        let _ ← lendQuery (.updatePosition userId coin (.addDebt scaled))
        let _ ← lendQuery (.updateReserve coin (.addDebt scaled))
        commit
        pure amount

def repay : Lend LendError ℕ :=
  if amount = 0 then .throw .invalidAmount
  else transaction do
    let idx ← accrue coin
    let (walletId, poolId) ← openWallets userId coin
    let position ← getOrCreatePosition userId coin
    if position.scaledDebt = 0 then .throw .noDebt
    else do
      let debtReal ← orPanic (scaledToAmount position.scaledDebt idx.borrowIndex)
      let pay := min amount debtReal
      ledgerMove walletId poolId pay .lendRepay (lendKey userId coin)
        ("Repay " ++ coin.asStr ++ " (incl. interest)") ("Repay intake " ++ coin.asStr)
      let scaledPaid ← orPanic (amountToScaled pay idx.borrowIndex)
      let _ ← lendQuery (.updatePosition userId coin (.setDebt (position.scaledDebt - scaledPaid)))
      let _ ← lendQuery (.updateReserve coin (.subDebt scaledPaid))
      commit
      pure pay

end

/-! ## Liquidation -/

structure LiquidationResult where
  borrowerId : Uuid
  debtCoin : Coin
  collateralCoin : Coin
  repaid : ℕ
  seized : ℕ
  deriving DecidableEq, Repr

/-- What is repaid and what is seized for it: up to the close factor of the debt, with the
bonus, and no more than there is. -/
def liquidationAmounts (prices : PriceTable) (debtCoin collateralCoin : Coin)
    (amount closeFactorBps debtReal collReal : ℕ) : ℕ × ℕ :=
  let bonus := 10000 + (lendMarket collateralCoin).liquidationBonusBps
  let repay := min amount (wrap128 (debtReal * closeFactorBps) / 10000)
  let seizeUsd := wrap128 (valueUsd prices debtCoin repay * bonus) / 10000
  let seize := usdToAmount prices collateralCoin seizeUsd
  if collReal < seize then
    (usdToAmount prices debtCoin (wrap128 (valueUsd prices collateralCoin collReal * 10000) / bonus),
      collReal)
  else (repay, seize)

section
variable (liquidatorId borrowerId : Uuid) (debtCoin collateralCoin : Coin)

def liquidateAudit (repaid seized : ℕ) : AuditLog :=
  ⟨some liquidatorId, "LEND_LIQUIDATE", "LendPosition", some borrowerId, none,
    some (.object [("debtCoin", .string debtCoin.asStr),
      ("collateralCoin", .string collateralCoin.asStr), ("repaid", .string (toString repaid)),
      ("seized", .string (toString seized))])⟩

def moveLiquidated (repay seize : ℕ) : Lend LendError Unit := do
  let debtWallet ← getUserWalletId liquidatorId debtCoin
  let collWallet ← getUserWalletId liquidatorId collateralCoin
  let poolDebt ← getLendPoolWalletIdTx debtCoin
  let poolColl ← getLendPoolWalletIdTx collateralCoin
  (lockWallets [debtWallet, collWallet, poolDebt, poolColl]).mapErr .ledger
  ledgerMove debtWallet poolDebt repay .liquidation (lendKey borrowerId debtCoin)
    ("Liquidation repay " ++ debtCoin.asStr ++ " for " ++
      String.ofList ((toString borrowerId).toList.take 8) ++ "…")
    ("Liquidation repay intake " ++ debtCoin.asStr)
  ledgerMove poolColl collWallet seize .liquidation (lendKey borrowerId collateralCoin)
    ("Liquidation collateral release " ++ collateralCoin.asStr)
    ("Liquidation collateral seized " ++ collateralCoin.asStr ++ " (incl. bonus)")

def reducePositions (debtPosition collPosition : OpenPosition)
    (idxDebt idxColl : ReserveState) (repay seize : ℕ) : Lend LendError Unit := do
  let scaledRepaid ← orPanic (amountToScaled repay idxDebt.borrowIndex)
  let _ ← lendQuery (.updatePosition borrowerId debtCoin
    (.setDebt (debtPosition.scaledDebt - scaledRepaid)))
  let _ ← lendQuery (.updateReserve debtCoin (.subDebt scaledRepaid))
  let scaledSeized ← orPanic (amountToScaled seize idxColl.liquidityIndex)
  let _ ← lendQuery (.updatePosition borrowerId collateralCoin
    (.setSupply (collPosition.scaledSupply - scaledSeized)))
  let _ ← lendQuery (.updateReserve collateralCoin (.subSupply scaledSeized))
  pure ()

def accrueOther (idxDebt : ReserveState) : Lend LendError ReserveState :=
  if collateralCoin = debtCoin then .ret idxDebt else accrue collateralCoin

def freshIndexes (idxDebt idxColl : ReserveState) : List (Coin × ReserveState) :=
  if collateralCoin = debtCoin then [(debtCoin, idxDebt)]
  else [(debtCoin, idxDebt), (collateralCoin, idxColl)]

def liquidate (amount closeFactorBps maxStale : ℕ) : Lend LendError LiquidationResult :=
  if amount = 0 then .throw .invalidAmount
  else if liquidatorId = borrowerId then .throw .selfLiquidation
  else transaction do
    let prices ← loadPriceTable maxStale
    let idxDebt ← accrue debtCoin
    let idxColl ← accrueOther debtCoin collateralCoin idxDebt
    let debtPosition ← getOrCreatePosition borrowerId debtCoin
    if debtPosition.scaledDebt = 0 then .throw .noBorrowerDebt
    else do
      let collPosition ← getOrCreatePosition borrowerId collateralCoin
      if collPosition.scaledSupply = 0 ∨ ¬ collPosition.useAsCollateral ∨
          ¬ (lendMarket collateralCoin).canBeCollateral then .throw .noSeizableCollateral
      else do
        let liquidity ← computeAccountLiquidity borrowerId
          (freshIndexes debtCoin collateralCoin idxDebt idxColl) prices
        if ¬ (0 < liquidity.debtUsd ∧ liquidity.liquidationCollateralUsd < liquidity.debtUsd) then
          .throw .positionHealthy
        else do
          let debtReal ← orPanic (scaledToAmount debtPosition.scaledDebt idxDebt.borrowIndex)
          let collReal ← orPanic (scaledToAmount collPosition.scaledSupply idxColl.liquidityIndex)
          let (repay, seize) :=
            liquidationAmounts prices debtCoin collateralCoin amount closeFactorBps debtReal collReal
          if repay = 0 ∨ seize = 0 then .throw .liquidationTooSmall
          else do
            moveLiquidated liquidatorId borrowerId debtCoin collateralCoin repay seize
            reducePositions borrowerId debtCoin collateralCoin debtPosition collPosition idxDebt
              idxColl repay seize
            let _ ← (coreQuery (.insertAudit (liquidateAudit liquidatorId borrowerId debtCoin
              collateralCoin repay seize)) : Lend LendError Unit)
            commit
            pure ⟨borrowerId, debtCoin, collateralCoin, repay, seize⟩

end

end SatsPay
