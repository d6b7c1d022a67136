import SatsPay.Lend
import SatsPay.Stakes

/-!
# Reward programs

A program emits a coin from the inventory of the house. Each tick pays what has come due
since the last to the users, by the worth of all that they hold.
-/

namespace SatsPay

open Interleave ReadCommitted

/-! ## The tables -/

structure RewardProgram where
  rewardCoin : Coin
  emissionPerDay : ℤ
  startAt : Instant
  endAt : Option Instant
  active : Bool
  lastEmittedAt : Instant
  deriving DecidableEq, Repr

abbrev Accruals := AList fun _ : Uuid × Uuid => ℤ

structure RewardDb where
  programs : Table RewardProgram
  accruals : Accruals
  lend : LendDb
  stakes : Table Stake

def RewardDb.programOf (db : RewardDb) (id : Uuid) : Option RewardProgram := db.programs.lookup id

def RewardDb.claimed (db : RewardDb) (userId programId : Uuid) : ℤ :=
  (db.accruals.lookup (userId, programId)).getD 0

structure UserSum where
  userId : Uuid
  coin : Coin
  amount : ℤ
  deriving DecidableEq, Repr

/-- Of a lending position, with the indexes not yet read. -/
structure LendShare where
  userId : Uuid
  coin : Coin
  scaledSupply : ℕ
  scaledDebt : ℕ

/-- `SUM(amount)`, grouped by user and coin -/
def sumsByUser (l : List UserSum) : List UserSum :=
  (l.map fun x => (x.userId, x.coin)).dedup.map fun k =>
    ⟨k.1, k.2, ((l.filter fun x => (x.userId, x.coin) == k).map UserSum.amount).sum⟩

def RewardDb.activeStakes (db : RewardDb) : List UserSum :=
  sumsByUser ((db.stakes.entries.filter fun s => s.2.status == .active).map fun s =>
    ⟨s.2.userId, s.2.coin, s.2.principal⟩)

def RewardDb.indexes (db : RewardDb) (coin : Coin) : Option (ℕ × ℕ) :=
  (db.lend.books coin).reserve.map fun r => (r.liquidityIndex, r.borrowIndex)

def RewardDb.lendShares (db : RewardDb) : List LendShare :=
  coins.flatMap fun coin => (db.lend.books coin).positions.entries.map fun r =>
    ⟨r.1, coin, r.2.scaledSupply, r.2.scaledDebt⟩

def Core.personalBalances (c : Core) : List UserSum :=
  sumsByUser ((c.wallets.entries.filter fun w => w.2.kind == .personal).map fun w =>
    ⟨w.2.userId, w.2.coin, c.balance w.1⟩)

/-! ## Statements -/

inductive RewardStmt where
  | lockProgram (id : Uuid)
  | program (id : Uuid)
  | advance (id : Uuid) (now : Instant) (finished : Bool)
  | addAccrual (userId programId : Uuid) (share : ℕ)
  | findHouse
  /-- The wallet of the house, by way of its user. -/
  | houseWallet (coin : Coin)
  | personalBalances
  | activeStakes
  | indexes
  | lendShares
  | price (coin : Coin)

abbrev RewardStmt.Ans : RewardStmt → Type
  | .lockProgram _ => Unit
  | .program _ => Option RewardProgram
  | .advance _ _ _ => Unit
  | .addAccrual _ _ _ => Unit
  | .findHouse => Option Uuid
  | .houseWallet _ => Option Uuid
  | .personalBalances => List UserSum
  | .activeStakes => List UserSum
  | .indexes => Coin → Option (ℕ × ℕ)
  | .lendShares => List LendShare
  | .price _ => Option CachedPrice

inductive RewardWrite where
  | putProgram (id : Uuid) (program : RewardProgram)
  | putAccrual (userId programId : Uuid) (claimed : ℤ)

def RewardWrite.apply : RewardWrite → RewardDb → RewardDb
  | .putProgram id program, db => { db with programs := db.programs.insert id program }
  | .putAccrual userId programId claimed, db =>
    { db with accruals := db.accruals.insert (userId, programId) claimed }

/-- `UPDATE reward_programs SET last_emitted_at`, and `active` where the program has ended -/
def RewardProgram.advanced (now : Instant) (finished : Bool) (p : RewardProgram) : RewardProgram :=
  { p with lastEmittedAt := now, active := p.active && !finished }

/-- Where a query leaves the order of its rows open, nothing that reads them depends on it. -/
def RewardStmt.eval : (st : RewardStmt) → Core → RewardDb →
    List (Except DbError (st.Ans × List RewardWrite))
  | .lockProgram _, _, _ => [.ok ((), [])]
  | .program id, _, db => [.ok (db.programOf id, [])]
  | .advance id now finished, _, db =>
    match db.programOf id with
    | some p => [.ok ((), [.putProgram id (p.advanced now finished)])]
    | none => [.ok ((), [])]
  | .addAccrual userId programId share, _, db =>
    if |db.claimed userId programId + share| < 10 ^ 39 then
      [.ok ((), [.putAccrual userId programId (db.claimed userId programId + share)])]
    else [.error .numericOverflow]
  | .findHouse, _, db => [.ok (db.lend.house, [])]
  | .houseWallet coin, c, db => [.ok (db.lend.house.bind (c.walletOf · coin .house), [])]
  | .personalBalances, c, _ => [.ok (c.personalBalances, [])]
  | .activeStakes, _, db => [.ok (db.activeStakes, [])]
  | .indexes, _, db => [.ok (db.indexes, [])]
  | .lendShares, _, db => [.ok (db.lendShares, [])]
  | .price coin, _, db => [.ok (db.lend.prices coin, [])]

inductive RewardKey where
  | program (id : Uuid)
  | accrual (userId programId : Uuid)
  deriving DecidableEq

def RewardStmt.locks : RewardStmt → Core → RewardDb → List RewardKey
  | .lockProgram id, _, _ | .advance id _ _, _, _ => [.program id]
  | .addAccrual userId programId _, _, _ => [.accrual userId programId]
  | _, _, _ => []

abbrev RewardKey.Row : RewardKey → Type
  | .program _ => Option RewardProgram
  | .accrual _ _ => Option ℤ

def RewardKey.row : (k : RewardKey) → RewardDb → k.Row
  | .program id, db => db.programOf id
  | .accrual userId programId, db => db.accruals.lookup (userId, programId)

def RewardWrite.touches : RewardWrite → List RewardKey
  | .putProgram id _ => [.program id]
  | .putAccrual userId programId _ => [.accrual userId programId]

theorem RewardStmt.writes {st : RewardStmt} {c : Core} {db : RewardDb} {a : st.Ans}
    {ws : List RewardWrite} (h : .ok (a, ws) ∈ st.eval c db) :
    ∀ w ∈ ws, ∀ k ∈ w.touches, k ∈ st.locks c db := by
  intro w hw k hk
  cases st with
  | advance id now finished =>
    simp only [RewardStmt.eval] at h
    split at h
    · cases List.mem_singleton.1 h
      cases List.mem_singleton.1 hw
      exact hk
    · cases List.mem_singleton.1 h
      cases hw
  | addAccrual userId programId share =>
    simp only [RewardStmt.eval] at h
    split at h
    · cases List.mem_singleton.1 h
      cases List.mem_singleton.1 hw
      exact hk
    · cases List.mem_singleton.1 h
  | _ => cases List.mem_singleton.1 h; cases hw

/-- The clocks: when the tick takes its time, and when it looks at a price. -/
inductive RewardCall where
  | utcNow
  | priceClock (coin : Coin)
  deriving DecidableEq

def rewardExt : Ext where
  Db := RewardDb
  Key := RewardKey
  Write := RewardWrite
  Stmt := RewardStmt
  Ans := RewardStmt.Ans
  Call := RewardCall
  Reply _ := Instant
  locks := RewardStmt.locks
  eval := RewardStmt.eval
  apply := RewardWrite.apply
  Row := RewardKey.Row
  row := RewardKey.row
  touches := RewardWrite.touches
  row_apply k w db h := by
    cases w with
    | putProgram id program =>
      cases k with
      | accrual userId programId => rfl
      | program i =>
        exact AList.lookup_insert_ne fun e => h (by rw [e]; exact List.mem_singleton_self _)
    | putAccrual userId programId claimed =>
      cases k with
      | program i => rfl
      | accrual u i =>
        refine AList.lookup_insert_ne fun e => h ?_
        cases e
        exact List.mem_singleton_self _
  row_congr k w db db' h := by
    cases w with
    | putProgram id program =>
      cases k with
      | accrual userId programId => exact h
      | program i =>
        have h' : db'.programs.lookup i = db.programs.lookup i := h
        by_cases e : i = id
        · subst e
          simp only [RewardWrite.apply, RewardKey.row, RewardDb.programOf, AList.lookup_insert]
        · simp only [RewardWrite.apply, RewardKey.row, RewardDb.programOf, AList.lookup_insert_ne e, h']
    | putAccrual userId programId claimed =>
      cases k with
      | program i => exact h
      | accrual u i =>
        have h' : db'.accruals.lookup (u, i) = db.accruals.lookup (u, i) := h
        by_cases e : (u, i) = (userId, programId)
        · cases e
          simp only [RewardWrite.apply, RewardKey.row, AList.lookup_insert]
        · simp only [RewardWrite.apply, RewardKey.row, AList.lookup_insert_ne e, h']
  covered _ _ _ _ _ h := RewardStmt.writes h

instance : DecidableEq rewardExt.Key := inferInstanceAs (DecidableEq RewardKey)

abbrev Rewards (ε α : Type) := Code (satsPay rewardExt) ε α

section
variable {ε : Type}

def rewardQuery [FromErr DbError ε] (st : RewardStmt) : Rewards ε st.Ans :=
  extQuery (X := rewardExt) st

def rewardCall (c : RewardCall) : Rewards ε Instant := invoke (S := satsPay rewardExt) c

end

inductive RewardsError where
  | db (e : DbError)
  /-- `Db` of the text of a ledger error. -/
  | ledger (e : LedgerError)
  | house (e : HouseError)
  | pricing (e : PricingDbError)
  /-- The task ends. -/
  | panicked

instance : FromErr DbError RewardsError := ⟨.db⟩

def rewardHouse : Rewards HouseError (Option Uuid) := rewardQuery .findHouse

/-! ## Prices -/

namespace Rewards

def getPrice (coin : Coin) (maxStale : ℕ) : Rewards PricingDbError (ℕ × ℕ) := do
  let row ← rewardQuery (.price coin)
  match row with
  | none => .throw (.noCachedPrice coin)
  | some r => do
    let now ← rewardCall (.priceClock coin)
    .ofExcept (openPrice coin maxStale now r)

/-- The prices of these coins, on top of those there are. -/
def loadPrices (maxStale : ℕ) : List Coin → PriceTable → Rewards PricingDbError PriceTable
  | [], prices => .ret prices
  | coin :: coins, prices => do
    let price ← getPrice coin maxStale
    loadPrices maxStale coins (Function.update prices coin price)

def loadPriceTable (maxStale : ℕ) : Rewards RewardsError PriceTable :=
  (loadPrices maxStale coins fun _ => (0, 0)).mapErr .pricing

end Rewards

/-! ## Weights -/

abbrev Weights := Table ℕ

def addWeight (houseId : Option Uuid) (prices : PriceTable) (weights : Weights) (x : UserSum) :
    Weights :=
  if some x.userId = houseId ∨ x.amount ≤ 0 then weights
  else weights.insert x.userId
    ((weights.lookup x.userId).getD 0 + x.amount.toNat * (prices x.coin).1 / 10 ^ 8)

def LendShare.amounts (indexes : Coin → Option (ℕ × ℕ)) (x : LendShare) : Option (List UserSum) :=
  let (li, bi) := ((indexes x.coin).map fun i => (readU128 ray i.1, readU128 ray i.2)).getD (ray, ray)
  match scaledToAmount (readU128 0 x.scaledSupply) li, scaledToAmount (readU128 0 x.scaledDebt) bi with
  | some supply, some debt => some [⟨x.userId, x.coin, supply⟩, ⟨x.userId, x.coin, debt⟩]
  | _, _ => none

def UserSum.read (x : UserSum) : UserSum := { x with amount := readBigInt x.amount }

def userSums (wallets stakes : List UserSum) (indexes : Coin → Option (ℕ × ℕ))
    (lend : List LendShare) : Option (List UserSum) :=
  (lend.mapM (LendShare.amounts indexes)).map fun l =>
    wallets.map UserSum.read ++ stakes.map UserSum.read ++ l.flatten

def computeUserWeights (prices : PriceTable) : Rewards RewardsError Weights := do
  let houseId ← rewardQuery .findHouse
  let wallets ← rewardQuery .personalBalances
  let stakes ← rewardQuery .activeStakes
  let indexes ← rewardQuery .indexes
  let lend ← rewardQuery .lendShares
  match userSums wallets stakes indexes lend with
  | none => .throw .panicked
  | some sums => pure (sums.foldl (addWeight houseId prices) ∅)

/-! ## A tick -/

def msPerDay : ℕ := 24 * 60 * 60 * 1000

/-- The milliseconds to pay for, from the last tick or the start to now or the end. -/
def RewardProgram.elapsedMs (p : RewardProgram) (now : Instant) : ℤ :=
  ((match p.endAt with
    | some e => if e < now then e else now
    | none => now) - max p.lastEmittedAt p.startAt).tdiv 1000

def RewardProgram.finished (p : RewardProgram) (now : Instant) : Bool :=
  match p.endAt with
  | some e => decide (e ≤ now)
  | none => false

def RewardProgram.emission (p : RewardProgram) (elapsedMs : ℤ) : ℕ :=
  readU128 0 p.emissionPerDay * elapsedMs.toNat / msPerDay

structure Payout where
  userId : Uuid
  walletId : Uuid
  share : ℕ
  deriving DecidableEq, Repr

def totalWeight (weights : Weights) : ℕ := (weights.entries.map fun w => w.2).sum

def findPayouts (coin : Coin) (emission total : ℕ) :
    List (Sigma fun _ : Uuid => ℕ) → Rewards RewardsError (List Payout)
  | [] => .ret []
  | w :: ws => do
    let walletId ← coreQuery (.walletOf w.1 coin .personal)
    let payouts ← findPayouts coin emission total ws
    match walletId with
    | none => pure payouts
    | some walletId =>
      if 0 < emission * w.2 / total then
        pure (⟨w.1, walletId, (toU128 (emission * w.2 / total)).getD 0⟩ :: payouts)
      else pure payouts

/-- A sum of `u128`, which wraps. -/
def sumShares (payouts : List Payout) : ℕ := (payouts.map Payout.share).sum % 2 ^ 128

def advanceProgram (programId : Uuid) (now : Instant) (finished : Bool) : Rewards RewardsError Unit := do
  rewardQuery (.advance programId now finished)
  commit

def payUser (programId : Uuid) (coin : Coin) (x : Payout) : Rewards RewardsError Unit := do
  (applyLedgerEntry (referenced x.walletId x.share .reward programId "RewardProgram"
    ("Reward " ++ coin.asStr))).mapErr .ledger
  rewardQuery (.addAccrual x.userId programId x.share)

def payShares (programId : Uuid) (coin : Coin) (houseWalletId : Uuid) (payouts : List Payout) :
    Rewards RewardsError Unit := do
  (lockWallets (payouts.map Payout.walletId ++ [houseWalletId])).mapErr .ledger
  (debitHouse rewardHouse coin (sumShares payouts) .reward programId "RewardProgram"
    ("Auto reward distribution " ++ coin.asStr)).mapErr .house
  payouts.forM (payUser programId coin)

/-- From the emission on, which the inventory of the house bounds. -/
def payEmission (programId : Uuid) (maxStale : ℕ) (coin : Coin) (now : Instant) (finished : Bool)
    (houseWalletId : Uuid) (emission : ℕ) : Rewards RewardsError Unit := do
  let prices ← Rewards.loadPriceTable maxStale
  let weights ← computeUserWeights prices
  if totalWeight weights = 0 then advanceProgram programId now finished
  else do
    let payouts ← findPayouts coin emission (totalWeight weights) weights.entries
    if sumShares payouts = 0 then advanceProgram programId now finished
    else do
      payShares programId coin houseWalletId payouts
      advanceProgram programId now finished

def emitProgram (programId : Uuid) (maxStale : ℕ) (p : RewardProgram) (now : Instant) :
    Rewards RewardsError Unit :=
  if p.elapsedMs now ≤ 0 then advanceProgram programId now (p.finished now)
  else if p.emission (p.elapsedMs now) = 0 then advanceProgram programId now (p.finished now)
  else do
    let houseWallet ← rewardQuery (.houseWallet p.rewardCoin)
    match houseWallet with
    | none => pure ()
    | some houseWalletId => do
      let balance ← (getWalletBalance houseWalletId).mapErr .ledger
      -- waits for funding: the clock is not advanced
      if readBigInt balance ≤ 0 then commit
      else
        payEmission programId maxStale p.rewardCoin now (p.finished now) houseWalletId
          (min (p.emission (p.elapsedMs now)) (readBigInt balance).toNat)

def distributeProgram (programId : Uuid) (maxStale : ℕ) : Rewards RewardsError Unit :=
  transaction (do
    rewardQuery (.lockProgram programId)
    let row ← rewardQuery (.program programId)
    match row with
    | none => pure ()
    | some p =>
      if !p.active then pure ()
      else do
        let now ← rewardCall .utcNow
        if now < p.startAt then pure () else emitProgram programId maxStale p now)

end SatsPay
