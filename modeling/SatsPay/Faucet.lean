import SatsPay.Airdrop
import SatsPay.References

/-!
# The faucet

A claim takes its reward from the inventory of the house, once in a while for each user and
coin.
-/

namespace SatsPay

open Interleave ReadCommitted RowProtocol

/-! ## The tables -/

/-- `createdAt` in microseconds. -/
structure FaucetClaim where
  userId : Uuid
  coin : Coin
  amount : ℤ
  ip : String
  createdAt : ℤ

structure FaucetDb where
  claims : Table FaucetClaim
  /-- The user with the e-mail address of the house. -/
  house : Option Uuid

def FaucetDb.claimTimes (db : FaucetDb) (userId : Uuid) (coin : Coin) : List ℤ :=
  (db.claims.entries.filter fun c => c.2.userId == userId && c.2.coin == coin).map
    fun c => c.2.createdAt

inductive FaucetStmt where
  | lockIp (key : ℤ)
  | lastClaim (userId : Uuid) (coin : Coin)
  | insertClaim (id : Uuid) (claim : FaucetClaim)
  | findHouse

abbrev FaucetStmt.Ans : FaucetStmt → Type
  | .lockIp _ => Unit
  | .lastClaim _ _ => Option ℤ
  | .insertClaim _ _ => Unit
  | .findHouse => Option Uuid

inductive FaucetWrite where
  | putClaim (id : Uuid) (claim : FaucetClaim)

def FaucetWrite.apply : FaucetWrite → FaucetDb → FaucetDb
  | .putClaim id claim, db => { db with claims := db.claims.insert id claim }

def FaucetStmt.eval : (st : FaucetStmt) → Core → FaucetDb →
    List (Except DbError (st.Ans × List FaucetWrite))
  | .lockIp _, _, _ => [.ok ((), [])]
  | .lastClaim userId coin, _, db => [.ok ((db.claimTimes userId coin).max?, [])]
  | .insertClaim id claim, _, db =>
    if (db.claims.lookup id).isSome then [.error .uniqueViolation]
    else [.ok ((), [.putClaim id claim])]
  | .findHouse, _, db => [.ok (db.house, [])]

inductive FaucetKey where
  | ip (key : ℤ)
  | claim (id : Uuid)
  deriving DecidableEq

def FaucetStmt.locks : FaucetStmt → Core → FaucetDb → List FaucetKey
  | .lockIp key, _, _ => [.ip key]
  | .insertClaim id _, _, _ => [.claim id]
  | _, _, _ => []

abbrev FaucetKey.Row : FaucetKey → Type
  | .ip _ => Unit
  | .claim _ => Option FaucetClaim

def FaucetKey.row : (k : FaucetKey) → FaucetDb → k.Row
  | .ip _, _ => ()
  | .claim id, db => db.claims.lookup id

def FaucetWrite.touches : FaucetWrite → List FaucetKey
  | .putClaim id _ => [.claim id]

theorem insertClaim_ok {id : Uuid} {claim : FaucetClaim} {c : Core} {db : FaucetDb} {a : Unit}
    {ws : List FaucetWrite} (h : .ok (a, ws) ∈ (FaucetStmt.insertClaim id claim).eval c db) :
    db.claims.lookup id = none ∧ ws = [.putClaim id claim] := by
  simp only [FaucetStmt.eval] at h
  split at h
  · cases List.mem_singleton.1 h
  · rename_i hn
    cases List.mem_singleton.1 h
    exact ⟨by simpa using hn, rfl⟩

structure ClaimResult where
  amount : ℤ
  coin : Coin
  nextClaimAt : ℤ
  pointsAwarded : Bool
  seasonActive : Bool

inductive FaucetError where
  | db (e : DbError)
  /-- `Db` of the text of a ledger error. -/
  | ledger (e : LedgerError)
  | house (e : HouseError)
  | notFound
  | cooldown (nextClaimAt : ℤ)

instance : FromErr DbError FaucetError := ⟨.db⟩

/-- The clocks of the server and of the database's transaction, a generated id, and what
the request is answered. -/
inductive FaucetCall where
  | utcNow
  | transactionTimestamp
  | newClaimId
  | answer (r : Except FaucetError ClaimResult)

abbrev FaucetCall.Reply : FaucetCall → Type
  | .utcNow => ℤ
  | .transactionTimestamp => ℤ
  | .newClaimId => Uuid
  | .answer _ => Unit

def faucetTables : Ext where
  Db := FaucetDb
  Key := FaucetKey
  Write := FaucetWrite
  Stmt := FaucetStmt
  Ans := FaucetStmt.Ans
  Call := FaucetCall
  Reply := FaucetCall.Reply
  locks := FaucetStmt.locks
  eval := FaucetStmt.eval
  apply := FaucetWrite.apply
  Row := FaucetKey.Row
  row := FaucetKey.row
  touches := FaucetWrite.touches
  row_apply k w db h := by
    cases w with
    | putClaim id claim =>
      cases k with
      | ip key => rfl
      | claim i =>
        exact AList.lookup_insert_ne fun e => h (by rw [e]; exact List.mem_singleton_self _)
  row_congr k w db db' h := by
    cases w with
    | putClaim id claim =>
      cases k with
      | ip key => rfl
      | claim i =>
        by_cases e : i = id
        · subst e
          simp only [FaucetWrite.apply, FaucetKey.row, AList.lookup_insert]
        · have h' : db'.claims.lookup i = db.claims.lookup i := h
          simp only [FaucetWrite.apply, FaucetKey.row, AList.lookup_insert_ne e, h']
  covered st c db a ws h w hw k hk := by
    cases st with
    | insertClaim id claim =>
      obtain ⟨-, rfl⟩ := insertClaim_ok h
      cases List.mem_singleton.1 hw
      exact hk
    | lockIp key | lastClaim userId coin | findHouse =>
      cases List.mem_singleton.1 h
      cases hw

instance : DecidableEq faucetTables.Key := inferInstanceAs (DecidableEq FaucetKey)

abbrev faucetExt : Ext := faucetTables.sum airdropExt

abbrev Faucet (ε α : Type) := Code (satsPay faucetExt) ε α

section
variable {ε : Type}

def faucetQuery [FromErr DbError ε] (st : FaucetStmt) : Faucet ε st.Ans :=
  leftQuery (X := faucetTables) (Y := airdropExt) st

def faucetCall (c : FaucetCall) : Faucet ε c.Reply := invoke (S := satsPay faucetExt) (.inl c)

def faucetAirdrop (st : AirdropStmt) : Faucet DbError st.Ans :=
  rightQuery (X := faucetTables) (Y := airdropExt) st

end

def faucetHouse : Faucet HouseError (Option Uuid) := faucetQuery .findHouse

/-! ## Claims -/

structure ClaimRequest where
  userId : Uuid
  coin : Coin
  ip : String

def minutes (n : ℤ) : ℤ := n * 60000000

def checkCooldown (cooldown now : ℤ) (last : Option ℤ) : Faucet FaucetError Unit :=
  match last with
  | some last => if now < last + cooldown then .throw (.cooldown (last + cooldown)) else pure ()
  | none => pure ()

/-- `coin_config(coin).faucet_reward`, which is one unit of every coin. -/
def faucetReward (_ : Coin) : ℤ := 1

def payClaim (cooldown now createdAt : ℤ) (req : ClaimRequest) (walletId : Uuid) :
    Faucet FaucetError ClaimResult := do
  let amount := faucetReward req.coin
  let claimId ← faucetCall .newClaimId
  faucetQuery (.insertClaim claimId ⟨req.userId, req.coin, amount, req.ip, createdAt⟩)
  (debitHouse faucetHouse req.coin amount .faucet claimId "FaucetClaim"
    ("Faucet payout " ++ req.coin.asStr)).mapErr .house
  (applyLedgerEntry (referenced walletId amount .faucet claimId "FaucetClaim"
    ("Faucet reward " ++ req.coin.asStr))).mapErr .ledger
  let award ← (awardAirdropPointsTx faucetAirdrop req.userId 50 0 "FAUCET_CLAIM").mapErr .db
  commit
  pure ⟨amount, req.coin, now + cooldown, award == .awarded, award == .awarded⟩

def claimTo (cooldown now createdAt : ℤ) (req : ClaimRequest) (walletId : Uuid) :
    Faucet FaucetError ClaimResult := do
  (lockWallet walletId).mapErr .ledger
  let last ← faucetQuery (.lastClaim req.userId req.coin)
  checkCooldown cooldown now last
  payClaim cooldown now createdAt req walletId

/-- `now()` is the time at which the transaction began. -/
def claim (faucetIpLockKey : String → Coin → ℤ) (cooldownMinutes : ℤ) (req : ClaimRequest) :
    Faucet FaucetError ClaimResult := do
  let now ← faucetCall .utcNow
  transaction (do
    let createdAt ← faucetCall .transactionTimestamp
    faucetQuery (.lockIp (faucetIpLockKey req.ip req.coin))
    let walletId ← coreQuery (.walletOf req.userId req.coin .personal)
    match walletId with
    | none => .throw .notFound
    | some walletId => claimTo (minutes cooldownMinutes) now createdAt req walletId)

def serveClaim (faucetIpLockKey : String → Coin → ℤ) (cooldownMinutes : ℤ) (req : ClaimRequest) :
    Faucet Empty Unit :=
  (claim faucetIpLockKey cooldownMinutes req).attempt >>= fun r =>
    faucetCall (.answer r) >>= fun _ => pure ()

end SatsPay
