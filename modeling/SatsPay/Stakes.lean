import SatsPay.Decimals
import SatsPay.References
import SatsPay.Requests

/-!
# Stakes

A stake locks an amount of its user, and gives it back when it is claimed, with a reward
from the inventory of the house, or canceled, without.
-/

namespace SatsPay

open Interleave ReadCommitted RowProtocol

/-! ## Plans -/

structure StakePlan where
  lockDays : ℕ
  rewardBps : ℕ
  label : String

def stakePlans : List StakePlan :=
  [⟨0, 200, "Flexible"⟩, ⟨7, 300, "Starter · 7d"⟩, ⟨30, 600, "Standard · 30d"⟩,
    ⟨90, 1000, "Growth · 90d"⟩, ⟨180, 1500, "Locked · 180d"⟩]

def isFlexiblePlan (lockDays : ℕ) : Bool := lockDays == 0

def calcStakeReward (principal rewardBps lockDays : ℕ) : ℕ :=
  saturate128 (saturate128 (principal * rewardBps) * lockDays) / (10000 * 365)

/-- Whole days, as a `u32`. -/
def elapsedDays (elapsedMs : ℤ) : ℕ := (max elapsedMs 0 / (24 * 60 * 60 * 1000)).toNat % 2 ^ 32

def calcFlexReward (principal rewardBps : ℕ) (elapsedMs : ℤ) : ℕ :=
  calcStakeReward principal rewardBps (elapsedDays elapsedMs)

/-! ## The tables -/

inductive StakeStatus where
  | active | completed | canceled
  deriving DecidableEq, Repr

/-- Times are in microseconds. -/
structure Stake where
  userId : Uuid
  coin : Coin
  principal : ℤ
  rewardBps : ℕ
  lockDays : ℕ
  reward : ℤ
  status : StakeStatus
  startedAt : ℤ
  maturesAt : ℤ
  claimedAt : Option ℤ

structure StakeDb where
  stakes : Table Stake
  /-- The user with the e-mail address of the house. -/
  house : Option Uuid

def StakeDb.stakeOf (db : StakeDb) (id : Uuid) : Option Stake := db.stakes.lookup id

inductive StakeUpdate where
  | complete (claimedAt reward : ℤ)
  | cancel (claimedAt : ℤ)

def StakeUpdate.set : StakeUpdate → Stake → Stake
  | .complete claimedAt reward, s =>
    { s with status := .completed, claimedAt := some claimedAt, reward := reward }
  | .cancel claimedAt, s => { s with status := .canceled, claimedAt := some claimedAt }

inductive StakeStmt where
  | lockStake (id : Uuid)
  | stake (id : Uuid)
  | insertStake (id : Uuid) (s : Stake)
  | updateStake (id : Uuid) (u : StakeUpdate)
  | findHouse

abbrev StakeStmt.Ans : StakeStmt → Type
  | .lockStake _ => Unit
  | .stake _ => Option Stake
  | .insertStake _ _ => Unit
  | .updateStake _ _ => Unit
  | .findHouse => Option Uuid

inductive StakeWrite where
  | putStake (id : Uuid) (s : Stake)

def StakeWrite.apply : StakeWrite → StakeDb → StakeDb
  | .putStake id s, db => { db with stakes := db.stakes.insert id s }

/-- `numeric(39, 0)` -/
def Stake.fits (s : Stake) : Bool := decide (|s.principal| < 10 ^ 39 ∧ |s.reward| < 10 ^ 39)

def StakeStmt.eval : (st : StakeStmt) → Core → StakeDb →
    List (Except DbError (st.Ans × List StakeWrite))
  | .lockStake _, _, _ => [.ok ((), [])]
  | .stake id, _, db => [.ok (db.stakeOf id, [])]
  | .insertStake id s, _, db =>
    if !s.fits then [.error .numericOverflow]
    else if (db.stakeOf id).isSome then [.error .uniqueViolation]
    else [.ok ((), [.putStake id s])]
  | .updateStake id u, _, db =>
    match db.stakeOf id with
    | some s => if (u.set s).fits then [.ok ((), [.putStake id (u.set s)])]
      else [.error .numericOverflow]
    | none => [.ok ((), [])]
  | .findHouse, _, db => [.ok (db.house, [])]

def StakeStmt.locks : StakeStmt → Core → StakeDb → List Uuid
  | .lockStake id, _, db => if (db.stakeOf id).isSome then [id] else []
  | .insertStake id _, _, _ | .updateStake id _, _, _ => [id]
  | _, _, _ => []

theorem insertStake_ok {id : Uuid} {s : Stake} {c : Core} {db : StakeDb} {a : Unit}
    {ws : List StakeWrite} (h : .ok (a, ws) ∈ (StakeStmt.insertStake id s).eval c db) :
    db.stakeOf id = none ∧ ws = [.putStake id s] := by
  simp only [StakeStmt.eval] at h
  split at h
  · cases List.mem_singleton.1 h
  · split at h
    · cases List.mem_singleton.1 h
    · rename_i hn
      cases List.mem_singleton.1 h
      exact ⟨by simpa using hn, rfl⟩

theorem updateStake_ok {id : Uuid} {u : StakeUpdate} {c : Core} {db : StakeDb} {a : Unit}
    {ws : List StakeWrite} (h : .ok (a, ws) ∈ (StakeStmt.updateStake id u).eval c db) :
    (∃ s, db.stakeOf id = some s ∧ ws = [.putStake id (u.set s)]) ∨
      (db.stakeOf id = none ∧ ws = []) := by
  simp only [StakeStmt.eval] at h
  split at h
  · rename_i s hs
    split at h
    · cases List.mem_singleton.1 h
      exact .inl ⟨s, hs, rfl⟩
    · cases List.mem_singleton.1 h
  · rename_i hs
    cases List.mem_singleton.1 h
    exact .inr ⟨hs, rfl⟩

inductive StakeError where
  | db (e : DbError)
  /-- `Db` of the text of a ledger error. -/
  | ledger (e : LedgerError)
  | house (e : HouseError)
  | invalidPlan
  | walletNotFound
  | notFound
  | notActive
  | notMatured

instance : FromErr DbError StakeError := ⟨.db⟩

structure StakeRow where
  id : Uuid
  coin : Coin
  principal : ℕ
  rewardBps : ℕ
  lockDays : ℕ
  reward : ℕ
  status : StakeStatus
  startedAt : ℤ
  maturesAt : ℤ

/-- The clocks of the server and of the database's transaction, a generated id, and what
a request is answered. -/
inductive StakeCall where
  | utcNow
  | transactionTimestamp
  | newStakeId
  | answer (r : Except StakeError (Option StakeRow))

abbrev StakeCall.Reply : StakeCall → Type
  | .utcNow => ℤ
  | .transactionTimestamp => ℤ
  | .newStakeId => Uuid
  | .answer _ => Unit

def stakeTables : Ext where
  Db := StakeDb
  Key := Uuid
  Write := StakeWrite
  Stmt := StakeStmt
  Ans := StakeStmt.Ans
  Call := StakeCall
  Reply := StakeCall.Reply
  locks := StakeStmt.locks
  eval := StakeStmt.eval
  apply := StakeWrite.apply
  Row _ := Option Stake
  row id db := db.stakeOf id
  touches | .putStake id _ => [id]
  row_apply id w db h := by
    cases w with
    | putStake i s => exact AList.lookup_insert_ne (by simpa using h)
  row_congr id w db db' h := by
    cases w with
    | putStake i s =>
      by_cases e : id = i
      · subst e
        simp only [StakeWrite.apply, StakeDb.stakeOf, AList.lookup_insert]
      · have h' : db'.stakes.lookup id = db.stakes.lookup id := h
        simp only [StakeWrite.apply, StakeDb.stakeOf, AList.lookup_insert_ne e, h']
  covered st c db a ws h w hw k hk := by
    cases st with
    | insertStake id s =>
      obtain ⟨-, rfl⟩ := insertStake_ok h
      cases List.mem_singleton.1 hw
      exact hk
    | updateStake id u =>
      obtain ⟨s, -, rfl⟩ | ⟨-, rfl⟩ := updateStake_ok h
      · cases List.mem_singleton.1 hw
        exact hk
      · cases hw
    | lockStake id | stake id | findHouse =>
      cases List.mem_singleton.1 h
      cases hw

instance : DecidableEq stakeTables.Key := inferInstanceAs (DecidableEq Uuid)

abbrev stakeExt : Ext := stakeTables.sum noExt

abbrev Staking (ε α : Type) := Code (satsPay stakeExt) ε α

section
variable {ε : Type}

def stakeQuery [FromErr DbError ε] (st : StakeStmt) : Staking ε st.Ans :=
  leftQuery (X := stakeTables) (Y := noExt) st

def stakeCall (c : StakeCall) : Staking ε c.Reply := invoke (S := satsPay stakeExt) (.inl c)

end

def stakeHouse : Staking HouseError (Option Uuid) := stakeQuery .findHouse

/-! ## The operations -/

def days (n : ℕ) : ℤ := n * 86400000000

def stakeWallet (userId : Uuid) (coin : Coin) : Staking StakeError Uuid := do
  let wallet ← coreQuery (.walletOf userId coin .personal)
  match wallet with
  | none => .throw .walletNotFound
  | some walletId => pure walletId

/-- `now()` is the time at which the transaction began. -/
def createStake (userId : Uuid) (coin : Coin) (amount lockDays : ℕ) :
    Staking StakeError StakeRow :=
  match stakePlans.find? fun p => p.lockDays == lockDays with
  | none => .throw .invalidPlan
  | some plan => transaction (do
    let startedAt ← stakeCall .transactionTimestamp
    let walletId ← stakeWallet userId coin
    let now ← stakeCall .utcNow
    let maturesAt := now + days lockDays
    let stakeId ← stakeCall .newStakeId
    stakeQuery (.insertStake stakeId ⟨userId, coin, amount, plan.rewardBps, lockDays, 0, .active,
      startedAt, maturesAt, none⟩)
    (applyLedgerEntry (referenced walletId (-amount) .stakeLock stakeId "Stake"
      ("Stake locked · " ++ plan.label))).mapErr .ledger
    commit
    let now ← stakeCall .utcNow
    pure ⟨stakeId, coin, amount, plan.rewardBps, lockDays, 0, .active, now, maturesAt⟩)

/-- The stake, if it is its user's and active. -/
def openStake (userId stakeId : Uuid) : Staking StakeError Stake := do
  let row ← stakeQuery (.stake stakeId)
  match row with
  | none => .throw .notFound
  | some s =>
    if s.userId ≠ userId then .throw .notFound
    else if s.status ≠ .active then .throw .notActive
    else pure s

def checkMatured (s : Stake) : Staking StakeError Unit :=
  if isFlexiblePlan s.lockDays then pure ()
  else do
    let now ← stakeCall .utcNow
    if now < s.maturesAt then .throw .notMatured else pure ()

def stakeReward (s : Stake) : Staking StakeError ℕ :=
  let principal := readU128 0 s.principal
  if isFlexiblePlan s.lockDays then do
    let now ← stakeCall .utcNow
    pure (calcFlexReward principal s.rewardBps ((now - s.startedAt).tdiv 1000))
  else pure (calcStakeReward principal s.rewardBps s.lockDays)

/-- `{}` of `reward_bps as f64 / 100.0` -/
def percentText (bps : ℕ) : String :=
  toString (bps / 100) ++
    if bps % 100 = 0 then ""
    else if bps % 10 = 0 then "." ++ toString (bps % 100 / 10)
    else "." ++ toString (bps % 100 / 10) ++ toString (bps % 10)

def rewardMemo (s : Stake) : String :=
  "Stake reward paid · " ++ percentText s.rewardBps ++ "% APY × " ++ toString s.lockDays ++ "d"

def payReward (stakeId walletId : Uuid) (s : Stake) (reward : ℕ) : Staking StakeError Unit :=
  if 0 < reward then do
    (debitHouse stakeHouse s.coin reward .stakeReward stakeId "Stake" (rewardMemo s)).mapErr .house
    (applyLedgerEntry (referenced walletId reward .stakeReward stakeId "Stake"
      (rewardMemo s))).mapErr .ledger
  else pure ()

/-- From the stake's row on. -/
def settleStake (now : ℤ) (stakeId : Uuid) (s : Stake) : Staking StakeError StakeRow := do
  checkMatured s
  let walletId ← stakeWallet s.userId s.coin
  let reward ← stakeReward s
  (applyLedgerEntry (referenced walletId s.principal .stakeUnlock stakeId "Stake"
    "Stake principal returned")).mapErr .ledger
  payReward stakeId walletId s reward
  stakeQuery (.updateStake stakeId (.complete now reward))
  commit
  pure ⟨stakeId, s.coin, readU128 0 s.principal, s.rewardBps, s.lockDays, reward, .completed,
    s.startedAt, s.maturesAt⟩

def claimStake (userId stakeId : Uuid) : Staking StakeError StakeRow :=
  transaction (do
    let now ← stakeCall .transactionTimestamp
    stakeQuery (.lockStake stakeId)
    let s ← openStake userId stakeId
    settleStake now stakeId s)

def cancelStake (userId stakeId : Uuid) : Staking StakeError Unit :=
  transaction (do
    let now ← stakeCall .transactionTimestamp
    stakeQuery (.lockStake stakeId)
    let s ← openStake userId stakeId
    let walletId ← stakeWallet s.userId s.coin
    (applyLedgerEntry (referenced walletId s.principal .stakeUnlock stakeId "Stake"
      "Stake canceled early (no reward)")).mapErr .ledger
    stakeQuery (.updateStake stakeId (.cancel now))
    commit)

/-! ## Requests -/

inductive StakeRequest where
  | create (userId : Uuid) (coin : Coin) (amount lockDays : ℕ)
  | claim (userId stakeId : Uuid)
  | cancel (userId stakeId : Uuid)

def StakeRequest.work : StakeRequest → Staking StakeError (Option StakeRow)
  | .create userId coin amount lockDays => do
    let row ← createStake userId coin amount lockDays
    pure (some row)
  | .claim userId stakeId => do
    let row ← claimStake userId stakeId
    pure (some row)
  | .cancel userId stakeId => do
    let _ ← cancelStake userId stakeId
    pure none

def serveStake (req : StakeRequest) : Staking Empty Unit :=
  req.work.attempt >>= fun r => stakeCall (.answer r) >>= fun _ => pure ()

end SatsPay
