import SatsPay.EvmBroadcast
import SatsPay.Json
import SatsPay.Ledger
import Mathlib.Data.List.Permutation

/-!
# Withdrawals

Requests, admin decisions, the broadcast worker and its job queue.
-/

namespace SatsPay

open Interleave ReadCommitted

/-! ## The table -/

inductive WithdrawalStatus where
  | pending | queued | approved | broadcasting | broadcasted | confirmed | failed | canceled
  deriving DecidableEq, Repr

structure Withdrawal where
  walletId : Uuid
  toAddress : String
  amount : ℤ
  feeAmount : ℤ
  status : WithdrawalStatus
  requiresApproval : Bool
  requestedIp : String
  idempotencyKey : Option String
  txHash : Option String
  approvedById : Option Uuid
  createdAt : Time

structure NewWithdrawal where
  walletId : Uuid
  toAddress : String
  amount : ℚ
  feeAmount : ℚ
  status : WithdrawalStatus
  requiresApproval : Bool
  requestedIp : String
  idempotencyKey : Option String

inductive NetworkFeeKind where
  | withdrawal | sweep | dexDeposit | gasTopup
  deriving DecidableEq, Repr

structure NetworkFee where
  coin : Coin
  kind : NetworkFeeKind
  amount : ℕ
  txHash : Option String
  referenceId : Option Uuid
  referenceType : Option String

structure WithdrawalsDb where
  withdrawals : Table Withdrawal
  networkFees : List NetworkFee

/-! ## Statements -/

/-- The `UPDATE`s of a withdrawal row. -/
inductive WithdrawalUpdate where
  | claim
  | failed
  | broadcasted (txHash : String)
  | confirmed
  | approve (adminId : Uuid)
  | cancel

/-- The status that the `WHERE` clause asks for; two of them ask for none. -/
def WithdrawalUpdate.guard : WithdrawalUpdate → WithdrawalStatus → Bool
  | .claim, s => s == .queued || s == .approved
  | .failed, _ => true
  | .broadcasted _, _ => true
  | .confirmed, s => s == .broadcasted
  | .approve _, s => s == .pending
  | .cancel, s => s == .pending

def WithdrawalUpdate.set : WithdrawalUpdate → Withdrawal → Withdrawal
  | .claim, r => { r with status := .broadcasting }
  | .failed, r => { r with status := .failed }
  | .broadcasted txHash, r => { r with status := .broadcasted, txHash := some txHash }
  | .confirmed, r => { r with status := .confirmed }
  | .approve adminId, r => { r with status := .approved, approvedById := some adminId }
  | .cancel, r => { r with status := .canceled }

structure WithdrawalToSend where
  walletId : Uuid
  toAddress : String
  amount : ℤ
  feeAmount : ℤ
  coin : Coin
  userId : Uuid

inductive WithdrawalsStmt where
  | insertWithdrawal (id : Uuid) (input : NewWithdrawal)
  | findByIdempotencyKey (key : String)
  | update (id : Uuid) (u : WithdrawalUpdate)
  | withdrawalStatus (id : Uuid)
  | withdrawalToSend (id : Uuid)
  | withdrawalAmounts (id : Uuid)
  | listEligible (take : ℕ)
  | recordNetworkFee (fee : NetworkFee)

abbrev WithdrawalsStmt.Ans : WithdrawalsStmt → Type
  | .insertWithdrawal _ _ => Unit
  | .findByIdempotencyKey _ => Option (Uuid × Withdrawal)
  -- the row as it is now, if there was one to update
  | .update _ _ => Option Withdrawal
  | .withdrawalStatus _ => Option WithdrawalStatus
  | .withdrawalToSend _ => Option WithdrawalToSend
  | .withdrawalAmounts _ => Option (Uuid × ℤ × ℤ)
  | .listEligible _ => List Uuid
  | .recordNetworkFee _ => Bool

inductive WithdrawalsWrite where
  | put (id : Uuid) (r : Withdrawal)
  | addNetworkFee (fee : NetworkFee)

/-- A row, and the entry of the unique index on `idempotency_key`. -/
inductive WithdrawalsKey where
  | row (id : Uuid)
  | idempotencyKey (key : String)
  deriving DecidableEq

abbrev WithdrawalsKey.Row : WithdrawalsKey → Type
  | .row _ => Option Withdrawal
  | .idempotencyKey _ => Unit

def WithdrawalsDb.find (db : WithdrawalsDb) (key : String) : Option (Uuid × Withdrawal) :=
  (db.withdrawals.entries.find? fun r => r.2.idempotencyKey == some key).map fun r => (r.1, r.2)

def NewWithdrawal.row (input : NewWithdrawal) (amount feeAmount : ℤ) (createdAt : Time) :
    Withdrawal :=
  { walletId := input.walletId, toAddress := input.toAddress, amount := amount,
    feeAmount := feeAmount, status := input.status, requiresApproval := input.requiresApproval,
    requestedIp := input.requestedIp, idempotencyKey := input.idempotencyKey, txHash := none,
    approvedById := none, createdAt := createdAt }

def WithdrawalsDb.insert (c : Core) (db : WithdrawalsDb) (id : Uuid) (input : NewWithdrawal) :
    Except DbError (Unit × List WithdrawalsWrite) :=
  match numeric39 input.amount, numeric39 input.feeAmount with
  | some amount, some feeAmount =>
    if (db.withdrawals.lookup id).isSome ∨ (input.idempotencyKey.bind db.find).isSome then
      .error .uniqueViolation
    else if (c.wallets.lookup input.walletId).isNone then .error .foreignKey
    else .ok ((), [.put id (input.row amount feeAmount c.now)])
  | _, _ => .error .numericOverflow

def WithdrawalsDb.target (db : WithdrawalsDb) (id : Uuid) (u : WithdrawalUpdate) :
    Option Withdrawal :=
  (db.withdrawals.lookup id).filter fun r => u.guard r.status

def WithdrawalsDb.eligible (db : WithdrawalsDb) : List (Uuid × Withdrawal) :=
  (db.withdrawals.entries.map fun r => (r.1, r.2)).filter fun r =>
    r.2.status == .queued || r.2.status == .approved

/-- The orders in which `ORDER BY created_at` may list rows. -/
def byCreatedAt (rows : List (Uuid × Withdrawal)) : List (List (Uuid × Withdrawal)) :=
  rows.permutations.filter fun l => decide (l.Pairwise fun r r' => r.2.createdAt ≤ r'.2.createdAt)

def WithdrawalsStmt.eval : (st : WithdrawalsStmt) → Core → WithdrawalsDb →
    List (Except DbError (st.Ans × List WithdrawalsWrite))
  | .insertWithdrawal id input, c, db => [db.insert c id input]
  | .findByIdempotencyKey key, _, db => [.ok (db.find key, [])]
  | .update id u, _, db =>
    match db.target id u with
    | some r => [.ok (some (u.set r), [.put id (u.set r)])]
    | none => [.ok (none, [])]
  | .withdrawalStatus id, _, db => [.ok ((db.withdrawals.lookup id).map Withdrawal.status, [])]
  | .withdrawalToSend id, c, db =>
    [.ok ((db.withdrawals.lookup id).bind fun r => (c.wallets.lookup r.walletId).map fun wa =>
      ⟨r.walletId, r.toAddress, r.amount, r.feeAmount, wa.coin, wa.userId⟩, [])]
  | .withdrawalAmounts id, _, db =>
    [.ok ((db.withdrawals.lookup id).map fun r => (r.walletId, r.amount, r.feeAmount), [])]
  | .listEligible take, _, db =>
    (byCreatedAt db.eligible).map fun l => .ok ((l.take (min take 500)).map Prod.fst, [])
  | .recordNetworkFee fee, _, db =>
    -- `ON CONFLICT (coin, tx_hash) WHERE tx_hash IS NOT NULL DO NOTHING`
    if fee.txHash.isSome ∧ db.networkFees.any fun f => f.coin == fee.coin && f.txHash == fee.txHash
    then [.ok (false, [])]
    else [.ok (true, [.addNetworkFee fee])]

def WithdrawalsStmt.locks : WithdrawalsStmt → Core → WithdrawalsDb → List WithdrawalsKey
  | .insertWithdrawal id input, _, _ =>
    .row id :: input.idempotencyKey.toList.map .idempotencyKey
  | .update id u, _, db => if (db.target id u).isSome then [.row id] else []
  | _, _, _ => []

/-- `broadcast_withdrawal` of the coin's client. The id is not sent: it only says
here for which withdrawal the call is made. -/
inductive WithdrawalsCall where
  | newUuid
  | broadcastWithdrawal (id : Uuid) (coin : Coin) (toAddress : String) (amount : ℕ)

abbrev WithdrawalsCall.Reply : WithdrawalsCall → Type
  | .newUuid => Uuid
  | .broadcastWithdrawal _ _ _ _ => Except BroadcastError BroadcastResult

def WithdrawalsWrite.apply : WithdrawalsWrite → WithdrawalsDb → WithdrawalsDb
  | .put id r, db => { db with withdrawals := db.withdrawals.insert id r }
  | .addNetworkFee fee, db => { db with networkFees := fee :: db.networkFees }

def WithdrawalsKey.read : (k : WithdrawalsKey) → WithdrawalsDb → k.Row
  | .row id, db => db.withdrawals.lookup id
  | .idempotencyKey _, _ => ()

def WithdrawalsWrite.touches : WithdrawalsWrite → List WithdrawalsKey
  | .put id _ => [.row id]
  | .addNetworkFee _ => []

theorem insertWithdrawal_ok {c : Core} {db : WithdrawalsDb} {id : Uuid} {input : NewWithdrawal}
    {a : Unit} {ws : List WithdrawalsWrite} (h : db.insert c id input = .ok (a, ws)) :
    ∃ amount feeAmount, numeric39 input.amount = some amount ∧
      numeric39 input.feeAmount = some feeAmount ∧ db.withdrawals.lookup id = none ∧
      ws = [.put id (input.row amount feeAmount c.now)] := by
  unfold WithdrawalsDb.insert at h
  split at h
  · rename_i amount feeAmount ha hf
    split at h
    · cases h
    · rename_i hk
      split at h
      · cases h
      · cases h
        have hid : ¬ (db.withdrawals.lookup id).isSome := fun hs => hk (.inl hs)
        exact ⟨amount, feeAmount, ha, hf, by simpa using hid, rfl⟩
  · cases h

/-- But for an insert and an update, no statement writes a withdrawal. -/
theorem WithdrawalsStmt.writes {st : WithdrawalsStmt} {c : Core} {db : WithdrawalsDb} {a : st.Ans}
    {ws : List WithdrawalsWrite} (h : .ok (a, ws) ∈ st.eval c db) : ∀ w ∈ ws, match w with
      | .put id _ => .row id ∈ st.locks c db ∧
        ((∃ input, st = .insertWithdrawal id input) ∨ ∃ u, st = .update id u)
      | .addNetworkFee _ => True := by
  intro w hw
  cases st with
  | insertWithdrawal id input =>
    obtain ⟨_, _, -, -, -, rfl⟩ := insertWithdrawal_ok (List.mem_singleton.1 h).symm
    cases List.mem_singleton.1 hw
    exact ⟨List.mem_cons_self, .inl ⟨input, rfl⟩⟩
  | update id u =>
    simp only [WithdrawalsStmt.eval] at h
    split at h
    · rename_i r hr
      cases List.mem_singleton.1 h
      cases List.mem_singleton.1 hw
      simp [WithdrawalsStmt.locks, hr]
    · cases List.mem_singleton.1 h; cases hw
  | listEligible take =>
    obtain ⟨l, -, hl⟩ := List.mem_map.1 h
    cases hl
    cases hw
  | recordNetworkFee fee =>
    simp only [WithdrawalsStmt.eval] at h
    split at h
    · cases List.mem_singleton.1 h; cases hw
    · cases List.mem_singleton.1 h
      cases List.mem_singleton.1 hw; trivial
  | _ => cases List.mem_singleton.1 h; cases hw

def withdrawalsExt : Ext where
  Db := WithdrawalsDb
  Key := WithdrawalsKey
  Write := WithdrawalsWrite
  Stmt := WithdrawalsStmt
  Ans := WithdrawalsStmt.Ans
  Call := WithdrawalsCall
  Reply := WithdrawalsCall.Reply
  locks := WithdrawalsStmt.locks
  eval := WithdrawalsStmt.eval
  apply := WithdrawalsWrite.apply
  Row := WithdrawalsKey.Row
  row := WithdrawalsKey.read
  touches := WithdrawalsWrite.touches
  row_apply := by
    intro k w db h
    cases w with
    | addNetworkFee fee => cases k <;> rfl
    | put id r =>
      cases k with
      | idempotencyKey key => rfl
      | row id' => exact AList.lookup_insert_ne (by simpa [WithdrawalsWrite.touches] using h)
  row_congr := by
    intro k w db db' h
    cases k with
    | idempotencyKey key => rfl
    | row id =>
      cases w with
      | addNetworkFee fee => exact h
      | put id' r =>
        simp only [WithdrawalsKey.read, WithdrawalsWrite.apply] at h ⊢
        by_cases e : id = id'
        · subst e; simp only [AList.lookup_insert]
        · simpa only [AList.lookup_insert_ne e] using h
  covered := by
    intro st c db a ws h w hw k hk
    have := WithdrawalsStmt.writes h w hw
    cases w with
    | put id r => cases List.mem_singleton.1 hk; exact this.1
    | addNetworkFee fee => cases hk

instance : DecidableEq withdrawalsExt.Key := inferInstanceAs (DecidableEq WithdrawalsKey)

abbrev Withdrawals (ε α : Type) := Code (satsPay withdrawalsExt) ε α

section
variable {ε : Type} [FromErr DbError ε]

def wdQuery (st : WithdrawalsStmt) : Withdrawals ε st.Ans := extQuery (X := withdrawalsExt) st
def wdPool (st : WithdrawalsStmt) : Withdrawals ε st.Ans := extPool (X := withdrawalsExt) st

end

def newUuid {ε : Type} : Withdrawals ε Uuid :=
  invoke (S := satsPay withdrawalsExt) WithdrawalsCall.newUuid

def broadcastWithdrawal {ε : Type} (id : Uuid) (coin : Coin) (toAddress : String) (amount : ℕ) :
    Withdrawals ε (Except BroadcastError BroadcastResult) :=
  invoke (S := satsPay withdrawalsExt) (WithdrawalsCall.broadcastWithdrawal id coin toAddress amount)

/-! ## Errors and settings -/

inductive WithdrawalsError where
  | db (e : DbError)
  | outbox (e : DbError)
  | invalidAddress
  | belowMinimum (min : ℕ)
  | notFound

instance : FromErr DbError WithdrawalsError := ⟨.db⟩

inductive AdminError where
  | db (e : DbError)
  | withdrawalNotFound
  | notPending

instance : FromErr DbError AdminError := ⟨.db⟩

/-- The chain clients' address checks, the environment, the sealing of personal
data, and how other crates print their values. -/
structure WithdrawalsEnv where
  validateAddress : Coin → String → Bool
  /-- `WITHDRAWAL_APPROVAL_THRESHOLD_<COIN>` -/
  approvalThreshold : Coin → Option String
  sealAddress : Uuid → String → String
  openAddress : Uuid → String → String
  storeIp : String → String
  ipFingerprint : String → String
  decimalText : ℚ → String
  dbText : DbError → String
  malformedText : Payload → String

def LedgerError.toText (E : WithdrawalsEnv) : LedgerError → String
  | .db e => E.dbText e
  | .insufficientBalance walletId available required =>
    "insufficient balance: wallet " ++ toString walletId ++ " has " ++ E.decimalText available ++
      ", needs " ++ E.decimalText required
  | .reorgHold walletId =>
    "wallet " ++ toString walletId ++ " is restricted pending deposit reorganization review"

def WithdrawalsError.toText (E : WithdrawalsEnv) : WithdrawalsError → String
  | .db e => E.dbText e
  | .outbox e => "failed to stage outbox event: " ++ E.dbText e
  | .invalidAddress => "invalid destination address"
  | .belowMinimum min => "minimum withdrawal is " ++ toString min ++ " (smallest unit)"
  | .notFound => "wallet not found"

/-- `sqlx_from_ledger` -/
def dbFromLedger (E : WithdrawalsEnv) : LedgerError → DbError
  | .db e => e
  | e => .protocol (e.toText E)

def resolveApprovalThreshold (coin : Coin) (envVal : Option String) : ℕ :=
  match envVal with
  | none => (coinConfig coin).approvalThreshold
  | some raw => (parseU128 (trim raw.toList)).getD (coinConfig coin).approvalThreshold

/-! ## Requests -/

structure WithdrawalRow where
  id : Uuid
  walletId : Uuid
  toAddress : String
  amount : ℚ
  feeAmount : ℚ
  status : WithdrawalStatus
  requiresApproval : Bool

def openRow (E : WithdrawalsEnv) (id : Uuid) (r : Withdrawal) : WithdrawalRow :=
  ⟨id, r.walletId, E.openAddress id r.toAddress, r.amount, r.feeAmount, r.status,
    r.requiresApproval⟩

def findByKey {ε : Type} (find : String → Withdrawals ε (Option (Uuid × Withdrawal)))
    (key : Option String) : Withdrawals ε (Option (Uuid × Withdrawal)) :=
  match key with
  | none => pure none
  | some key => find key

def withdrawalDebit (walletId id : Uuid) (amount : ℚ) : LedgerCreditInput :=
  ⟨walletId, -amount, .withdrawal, some id, some "Withdrawal", none,
    some ("withdrawal:" ++ toString id)⟩

def withdrawalFeeDebit (walletId id : Uuid) (feeAmount : ℚ) : LedgerCreditInput :=
  ⟨walletId, -feeAmount, .withdrawalFee, some id, some "Withdrawal", none,
    some "Withdrawal network fee (-25% discount)"⟩

def withdrawalReversal (walletId id : Uuid) (amount feeAmount : ℤ) (memo : String) :
    LedgerCreditInput :=
  ⟨walletId, ((amount + feeAmount : ℤ) : ℚ), .withdrawalReversal, some id, some "Withdrawal", none,
    some memo⟩

def debitWithdrawal (E : WithdrawalsEnv) (id : Uuid) (input : NewWithdrawal) :
    Withdrawals WithdrawalsError Unit := do
  (applyLedgerEntry (withdrawalDebit input.walletId id input.amount)).mapErr
    (.db ∘ dbFromLedger E)
  if 0 < input.feeAmount then
    (applyLedgerEntry (withdrawalFeeDebit input.walletId id input.feeAmount)).mapErr
      (.db ∘ dbFromLedger E)
  else pure ()
  commit

inductive Requested where
  | found (id : Uuid) (r : Withdrawal)
  | created (row : WithdrawalRow)
  /-- Another request with the key, or the id, was first. -/
  | raced

def createWithdrawal (E : WithdrawalsEnv) (toAddress : String) (id : Uuid) (input : NewWithdrawal) :
    Withdrawals WithdrawalsError Requested := do
  let inserted ← (wdQuery (.insertWithdrawal id input) : Withdrawals DbError Unit).attempt
  match inserted with
  | .ok () => do
    debitWithdrawal E id input
    pure (.created ⟨id, input.walletId, toAddress, input.amount, input.feeAmount, input.status,
      input.requiresApproval⟩)
  | .error .uniqueViolation => pure .raced
  | .error e => .throw (.db e)

def requestTx (E : WithdrawalsEnv) (userId : Uuid) (coin : Coin) (toAddress : String) (amount : ℚ)
    (requestedIp : String) (scopedKey : Option String) :
    Withdrawals WithdrawalsError Requested := do
  let existing ← findByKey (fun key => wdQuery (.findByIdempotencyKey key)) scopedKey
  match existing with
  | some (id, r) => do
    commit
    pure (.found id r)
  | none => do
    let walletId ← coreQuery (.walletOf userId coin .personal)
    match walletId with
    | none => .throw .notFound
    | some walletId => do
      let threshold := resolveApprovalThreshold coin (E.approvalThreshold coin)
      let requiresApproval := decide ((threshold : ℚ) ≤ amount)
      let id ← newUuid
      createWithdrawal E toAddress id
        { walletId := walletId, toAddress := E.sealAddress id toAddress, amount := amount,
          feeAmount := (coinConfig coin).withdrawalFee,
          status := if requiresApproval then .pending else .queued,
          requiresApproval := requiresApproval, requestedIp := E.storeIp requestedIp,
          idempotencyKey := scopedKey }

/-- The row, and whether this call made it. -/
def requestWithdrawal (E : WithdrawalsEnv) (userId : Uuid) (coin : Coin) (toAddress : String)
    (amount : ℚ) (requestedIp : String) (idempotencyKey : Option String) :
    Withdrawals WithdrawalsError (WithdrawalRow × Bool) :=
  if !E.validateAddress coin toAddress then .throw .invalidAddress
  else if amount < (coinConfig coin).minWithdrawal then
    .throw (.belowMinimum (coinConfig coin).minWithdrawal)
  else do
    let scopedKey := idempotencyKey.map fun k => toString userId ++ ":" ++ k
    let existing ← findByKey (fun key => wdPool (.findByIdempotencyKey key)) scopedKey
    match existing with
    | some (id, r) => pure (openRow E id r, false)
    | none => do
      let requested ← transaction (requestTx E userId coin toAddress amount requestedIp scopedKey)
      match requested with
      | .found id r => pure (openRow E id r, false)
      | .created row => pure (row, true)
      | .raced => do
        let winner ← findByKey (fun key => wdPool (.findByIdempotencyKey key)) scopedKey
        match winner with
        | some (id, r) => pure (openRow E id r, false)
        | none => .throw .notFound

/-! ## Broadcast -/

/-- `OutboxWriter::stage` -/
def stage (event : DomainEvent) : Withdrawals WithdrawalsError Unit :=
  (coreQuery (.insertOutbox event) : Withdrawals DbError Unit).mapErr .outbox

/-- BROADCASTED to CONFIRMED, where it is BROADCASTED. -/
def finalizeTx (id : Uuid) : Withdrawals WithdrawalsError Unit := do
  let row ← wdQuery (.update id .confirmed)
  match row with
  | none => pure ()
  | some r => do
    stage (.withdrawalConfirmed r.walletId id 1)
    commit

def finalizeBroadcasted (id : Uuid) : Withdrawals WithdrawalsError Unit :=
  transaction (finalizeTx id)

def failTx (E : WithdrawalsEnv) (id : Uuid) (row : WithdrawalToSend) (message : String) :
    Withdrawals WithdrawalsError Unit := do
  let _ ← wdQuery (.update id .failed)
  (applyLedgerEntry (withdrawalReversal row.walletId id row.amount row.feeAmount
    ("Reversal (safe): " ++ message))).mapErr (.db ∘ dbFromLedger E)
  stage (.withdrawalFailed row.walletId id message true)
  commit

def broadcastedTx (E : WithdrawalsEnv) (id : Uuid) (row : WithdrawalToSend) (txHash : String) :
    Withdrawals WithdrawalsError Unit := do
  let _ ← wdQuery (.update id (.broadcasted txHash))
  stage (.withdrawalBroadcasted row.walletId id row.coin.asStr (E.decimalText row.amount) txHash)
  commit

/-- An amount of zero is not recorded. -/
def recordNetworkFee (fee : NetworkFee) : Withdrawals DbError Bool :=
  if fee.amount = 0 then pure false else wdPool (.recordNetworkFee fee)

def settleBroadcast (E : WithdrawalsEnv) (id : Uuid) (row : WithdrawalToSend) :
    Except BroadcastError BroadcastResult → Withdrawals WithdrawalsError Unit
  | .error e =>
    if e.safeToReverse then do
      transaction (failTx E id row e.message)
      let _ ← (corePool (.insertAudit ⟨some row.userId, "WITHDRAWAL_FAILED", "Withdrawal", some id, none,
        some (.object [("coin", .string row.coin.asStr), ("reason", .string e.message),
          ("safeToReverse", .bool true)])⟩) : Withdrawals DbError Unit).attempt
      pure ()
    -- ambiguous: the row stays BROADCASTING
    else pure ()
  | .ok result => do
    transaction (broadcastedTx E id row result.txHash)
    let _ ← (recordNetworkFee ⟨row.coin, .withdrawal, result.feeAmount, some result.txHash, some id,
      some "Withdrawal"⟩).attempt
    finalizeBroadcasted id

def sendClaimed (E : WithdrawalsEnv) (id : Uuid) : Withdrawals WithdrawalsError Unit := do
  let row ← wdPool (.withdrawalToSend id)
  match row with
  | none => pure ()
  | some row => do
    let amount := (parseU128 (E.decimalText row.amount).toList).getD 0
    let result ← broadcastWithdrawal id row.coin (E.openAddress id row.toAddress) amount
    settleBroadcast E id row result

/-- For a withdrawal that was not there to claim. -/
def finalizeStuck (id : Uuid) : Withdrawals WithdrawalsError Unit := do
  let status ← wdPool (.withdrawalStatus id)
  if status = some .broadcasted then finalizeBroadcasted id else pure ()

def processBroadcast (E : WithdrawalsEnv) (id : Uuid) : Withdrawals WithdrawalsError Unit := do
  let claimed ← wdPool (.update id .claim)
  match claimed with
  | none => finalizeStuck id
  | some _ => sendClaimed E id

/-! ## Decisions -/

def adminAudit (adminId id : Uuid) (action : String) (ip : Option String) : AuditLog :=
  ⟨some adminId, action, "Withdrawal", some id, ip, none⟩

def approveTx (id adminId : Uuid) (ip : Option String) : Withdrawals AdminError Unit := do
  let row ← wdQuery (.update id (.approve adminId))
  match row with
  | none => .throw .notPending
  | some _ => do
    coreQuery (.insertAudit (adminAudit adminId id "WITHDRAWAL_APPROVE" ip))
    commit

def approveWithdrawal (id adminId : Uuid) (ip : Option String) : Withdrawals AdminError Unit :=
  transaction (approveTx id adminId ip)

def cancelTx (E : WithdrawalsEnv) (id adminId : Uuid) (ip : Option String)
    (amounts : Uuid × ℤ × ℤ) : Withdrawals AdminError Unit := do
  let row ← wdQuery (.update id .cancel)
  match row with
  | none => .throw .notPending
  | some _ => do
    (applyLedgerEntry (withdrawalReversal amounts.1 id amounts.2.1 amounts.2.2
      "Rejected by admin")).mapErr fun e => .db (.protocol (e.toText E))
    coreQuery (.insertAudit (adminAudit adminId id "WITHDRAWAL_REJECT" ip))
    commit

def rejectTx (E : WithdrawalsEnv) (id adminId : Uuid) (ip : Option String) :
    Withdrawals AdminError Unit := do
  let amounts ← wdQuery (.withdrawalAmounts id)
  match amounts with
  | none => .throw .withdrawalNotFound
  | some amounts => cancelTx E id adminId ip amounts

def rejectWithdrawal (E : WithdrawalsEnv) (id adminId : Uuid) (ip : Option String) :
    Withdrawals AdminError Unit :=
  transaction (rejectTx E id adminId ip)

/-! ## Handlers and the worker -/

def withdrawalBroadcastJob : String := "withdrawal_broadcast"

/-- `queue::enqueue`, whose failure is only logged. -/
def enqueueBroadcast {ε : Type} (id : Uuid) : Withdrawals ε Unit := do
  let _ ← (corePool (.enqueue withdrawalBroadcastJob (.withdrawalId id)) :
    Withdrawals DbError Uuid).attempt
  pure ()

inductive RequestResponse where
  | created (id : Uuid) (status : WithdrawalStatus) (requiresApproval : Bool)
  | badRequest (error : String)

def requestWithdrawalHandler (E : WithdrawalsEnv) (userId : Uuid) (coin : Coin) (toAddress : String)
    (amount : ℚ) (ip : String) (idempotencyKey : Option String) :
    Withdrawals Empty RequestResponse := do
  let result ← (requestWithdrawal E userId coin toAddress amount ip idempotencyKey).attempt
  match result with
  | .ok (row, freshlyCreated) => do
    if freshlyCreated && !row.requiresApproval then enqueueBroadcast row.id else pure ()
    pure (.created row.id row.status row.requiresApproval)
  | .error e => pure (.badRequest (e.toText E))

inductive AdminResponse where
  | status (id : Uuid) (status : WithdrawalStatus)
  | conflict (e : AdminError)

def approveWithdrawalHandler (E : WithdrawalsEnv) (id adminId : Uuid) (ip : String) :
    Withdrawals Empty AdminResponse := do
  let result ← (approveWithdrawal id adminId (some (E.ipFingerprint ip))).attempt
  match result with
  | .error e => pure (.conflict e)
  | .ok () => do
    enqueueBroadcast id
    pure (.status id .approved)

def rejectWithdrawalHandler (E : WithdrawalsEnv) (id adminId : Uuid) (ip : String) :
    Withdrawals Empty AdminResponse := do
  let result ← (rejectWithdrawal E id adminId (some ip)).attempt
  match result with
  | .error e => pure (.conflict e)
  | .ok () => pure (.status id .canceled)

/-- What a worker does with a job, and the text of its failure. -/
def runBroadcastJob (E : WithdrawalsEnv) (payload : Payload) : Withdrawals String Unit :=
  match payload with
  | .withdrawalId id => (processBroadcast E id).mapErr (WithdrawalsError.toText E)
  | payload => .throw ("malformed job payload: " ++ E.malformedText payload)

/-- `queue::complete` or `queue::fail`, whose own failure is only logged. -/
def closeJob (job : Uuid) (outcome : Except String Unit) : Withdrawals Empty Unit := do
  let _ ← (match outcome with
    | .ok () => (corePool (.completeJob job) : Withdrawals DbError Unit)
    | .error error => corePool (.failJob job error)).attempt
  pure ()

/-- `fuel` bounds the jobs that one call takes. -/
def drainBroadcastQueue (E : WithdrawalsEnv) (lockedBy : String) : ℕ → Withdrawals Empty Unit
  | 0 => pure ()
  | fuel + 1 => do
    let claimed ← (corePool (.claimNext withdrawalBroadcastJob lockedBy) :
      Withdrawals DbError (Option (Uuid × Job))).attempt
    match claimed with
    | .ok (some (job, j)) => do
      let outcome ← (runBroadcastJob E j.payload).attempt
      closeJob job outcome
      drainBroadcastQueue E lockedBy fuel
    | _ => pure ()

def requeueAll : List Uuid → Withdrawals Empty Unit
  | [] => pure ()
  | id :: ids => do
    enqueueBroadcast id
    requeueAll ids

def requeueEligible : Withdrawals Empty Unit := do
  let ids ← (wdPool (.listEligible 100) : Withdrawals DbError (List Uuid)).attempt
  match ids with
  | .ok ids => requeueAll ids
  | .error _ => pure ()

/-- `record_log_spawned`: a task of its own. -/
def recordLog (log : AuditLog) : Withdrawals DbError Unit := corePool (.insertAudit log)

/-- A deposit of the wallet was reorganized away. -/
def placeReorgHold (walletId : Uuid) : Withdrawals DbError Unit := corePool (.setReorgHold walletId)

inductive PipelineProcess (E : WithdrawalsEnv) : Withdrawals Empty Unit → Prop
  | request (userId : Uuid) (coin : Coin) (toAddress : String) (amount : ℚ) (ip : String)
      (idempotencyKey : Option String) : PipelineProcess E
        (requestWithdrawalHandler E userId coin toAddress amount ip idempotencyKey).spawn
  | approve (id adminId : Uuid) (ip : String) :
      PipelineProcess E (approveWithdrawalHandler E id adminId ip).spawn
  | reject (id adminId : Uuid) (ip : String) :
      PipelineProcess E (rejectWithdrawalHandler E id adminId ip).spawn
  | drain (lockedBy : String) (fuel : ℕ) :
      PipelineProcess E (drainBroadcastQueue E lockedBy fuel).spawn
  | requeue : PipelineProcess E requeueEligible.spawn
  | log (l : AuditLog) : PipelineProcess E (recordLog l).spawn
  | hold (walletId : Uuid) : PipelineProcess E (placeReorgHold walletId).spawn

inductive WithdrawalProcess (E : WithdrawalsEnv) : Withdrawals Empty Unit → Prop
  | pipeline {c : Withdrawals Empty Unit} (h : PipelineProcess E c) : WithdrawalProcess E c
  | broadcast (id : Uuid) : WithdrawalProcess E (processBroadcast E id).spawn
  | finalize (id : Uuid) : WithdrawalProcess E (finalizeBroadcasted id).spawn

end SatsPay
