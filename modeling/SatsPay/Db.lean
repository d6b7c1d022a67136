import SatsPay.Coins
import SatsPay.Json
import SatsPay.ReadCommitted
import Mathlib.Data.List.AList
import Mathlib.Data.Rat.Cast.Order

/-!
# The store

The tables every part of the system shares (wallets, ledger, job queue, outbox,
audit log) and the statements on them. A part with tables of its own adds them
as an `Ext`; `satsPay X` is the store with the shared tables and those of `X`.
-/

namespace SatsPay

open ReadCommitted

abbrev Uuid := Nat
/-- Seconds. -/
abbrev Time := Nat

abbrev Table (α : Type) := AList fun _ : Uuid => α

inductive WalletKind where
  | personal | developer | house | lendPool | merchant
  deriving DecidableEq, Repr

inductive LedgerType where
  | deposit | depositReversal
  | withdrawal | withdrawalFee | withdrawalReversal
  | faucet | transferIn | transferOut | adjustment
  | stakeLock | stakeUnlock | stakeReward
  | swapOut | swapIn | swapFee
  | lendSupply | lendWithdraw | lendBorrow | lendRepay | lendInterest
  | liquidation | reward
  | dexSwapOut | dexSwapIn | dexSwapRefund
  | merchantDeposit | merchantCheckout
  deriving DecidableEq, Repr

structure Wallet where
  userId : Uuid
  coin : Coin
  kind : WalletKind
  reorgHoldAt : Option Time

structure LedgerEntry where
  walletId : Uuid
  amount : ℤ
  type : LedgerType
  referenceId : Option Uuid
  referenceType : Option String
  referenceKey : Option String
  memo : Option String

/-- What `apply_ledger_entry` is given: `amount` is positive for a credit,
negative for a debit, and not yet rounded. -/
structure LedgerCreditInput where
  walletId : Uuid
  amount : ℚ
  ledgerType : LedgerType
  referenceId : Option Uuid
  referenceType : Option String
  referenceKey : Option String
  memo : Option String

inductive JobStatus where
  | pending | running | done | failed
  deriving DecidableEq, Repr

/-- The JSON of a job: the shapes the workers read, or any other. -/
inductive Payload where
  | withdrawalId (id : Uuid)
  | swapId (id : Uuid)
  | other (text : String)
  deriving DecidableEq, Repr

structure Job where
  jobType : String
  payload : Payload
  status : JobStatus
  attempts : Nat
  maxAttempts : Nat
  runAfter : Time
  lockedBy : Option String
  lastError : Option String

inductive DomainEvent where
  | depositConfirmed (walletId depositId : Uuid) (coin amount txHash : String)
  | withdrawalBroadcasted (walletId withdrawalId : Uuid) (coin amount txHash : String)
  | withdrawalConfirmed (walletId withdrawalId : Uuid) (confirmations : Nat)
  | withdrawalFailed (walletId withdrawalId : Uuid) (reason : String) (safeToReverse : Bool)
  | swapExecuted (swapId walletId : Uuid) (fromCoin toCoin fromAmount toAmount feeAmount : String)
  | ledgerEntryCreated (walletId entryId : Uuid) (ledgerType amount : String) (referenceId : Uuid)
      (referenceType : String)
  | faucetClaimed (walletId : Uuid) (coin amount : String)
  | stakeCreated (stakeId walletId : Uuid) (coin principal : String) (lockDays : Nat)
  | stakeClosed (stakeId walletId : Uuid) (rewardPaid : String)
  | lendPositionOpened (positionId walletId : Uuid) (coin kind amount : String)
  | lendPositionClosed (positionId walletId : Uuid)
  | rewardGranted (walletId : Uuid) (coin amount reason : String)
  | adminActionPerformed (adminId : Uuid) (action : String) (targetId : Option Uuid)
      (details : String)

structure AuditLog where
  userId : Option Uuid
  action : String
  entity : String
  entityId : Option Uuid
  ip : Option String
  metadata : Option Value

structure Core where
  now : Time
  wallets : Table Wallet
  ledger : List LedgerEntry
  jobs : Table Job
  outbox : List DomainEvent
  auditLogs : List AuditLog

inductive DbError where
  | io
  | uniqueViolation
  | foreignKey
  | numericOverflow
  | protocol (text : String)
  deriving DecidableEq, Repr

/-! ## Ledger sums -/

/-- `SUM(amount)` over the entries that `p` selects. -/
def sumWhere (p : LedgerEntry → Bool) : List LedgerEntry → ℤ
  | [] => 0
  | e :: l => (if p e then e.amount else 0) + sumWhere p l

@[simp] theorem sumWhere_nil (p : LedgerEntry → Bool) : sumWhere p [] = 0 := rfl
@[simp] theorem sumWhere_cons (p : LedgerEntry → Bool) (e : LedgerEntry) (l : List LedgerEntry) :
    sumWhere p (e :: l) = (if p e then e.amount else 0) + sumWhere p l := rfl

theorem sumWhere_filter (p : LedgerEntry → Bool) : ∀ l : List LedgerEntry,
    sumWhere p (l.filter p) = sumWhere p l
  | [] => rfl
  | e :: l => by
    by_cases h : p e
    · rw [List.filter_cons_of_pos h, sumWhere_cons, sumWhere_cons, sumWhere_filter p l]
    · rw [List.filter_cons_of_neg h, sumWhere_cons, if_neg h, zero_add, sumWhere_filter p l]

/-- `COALESCE(SUM(amount), 0)` of a wallet. -/
def Core.balance (c : Core) (walletId : Uuid) : ℤ := sumWhere (fun e => e.walletId == walletId) c.ledger

/-- The two unique indexes: an entry of the same wallet, reference and type. -/
def LedgerEntry.clash (e f : LedgerEntry) : Bool :=
  e.walletId == f.walletId && e.type == f.type && e.referenceType.isSome &&
    e.referenceType == f.referenceType &&
    ((e.referenceId.isSome && e.referenceId == f.referenceId) ||
      (e.referenceKey.isSome && e.referenceKey == f.referenceKey))

/-! ## Statements on the shared tables -/

inductive CoreStmt where
  | lockWallet (id : Uuid)
  | reorgHoldAt (id : Uuid)
  | walletBalance (id : Uuid)
  | insertLedgerEntry (input : LedgerCreditInput)
  | ledgerByReferenceKey (referenceType referenceKey : String)
  | walletOf (userId : Uuid) (coin : Coin) (kind : WalletKind)
  | setReorgHold (id : Uuid)
  | insertOutbox (event : DomainEvent)
  | insertAudit (log : AuditLog)
  | enqueue (jobType : String) (payload : Payload)
  | claimNext (jobType lockedBy : String)
  | completeJob (id : Uuid)
  | failJob (id : Uuid) (error : String)

abbrev CoreStmt.Ans : CoreStmt → Type
  | .lockWallet _ => Option Uuid
  | .reorgHoldAt _ => Option (Option Time)
  | .walletBalance _ => ℤ
  | .insertLedgerEntry _ => Unit
  | .ledgerByReferenceKey _ _ => Bool
  | .walletOf _ _ _ => Option Uuid
  | .setReorgHold _ => Unit
  | .insertOutbox _ => Unit
  | .insertAudit _ => Unit
  | .enqueue _ _ => Uuid
  | .claimNext _ _ => Option (Uuid × Job)
  | .completeJob _ => Unit
  | .failJob _ _ => Unit

inductive CoreWrite where
  | putWallet (id : Uuid) (w : Wallet)
  | addEntry (e : LedgerEntry)
  | putJob (id : Uuid) (j : Job)
  | addOutbox (event : DomainEvent)
  | addAudit (log : AuditLog)

def CoreWrite.apply : CoreWrite → Core → Core
  | .putWallet id w, c => { c with wallets := c.wallets.insert id w }
  | .addEntry e, c => { c with ledger := e :: c.ledger }
  | .putJob id j, c => { c with jobs := c.jobs.insert id j }
  | .addOutbox event, c => { c with outbox := event :: c.outbox }
  | .addAudit log, c => { c with auditLogs := log :: c.auditLogs }

/-- The runnable jobs of a type with the earliest `run_after`. -/
def Core.oldestRunnable (c : Core) (jobType : String) : List (Uuid × Job) :=
  let runnable := (c.jobs.entries.map fun j => (j.1, j.2)).filter fun j =>
    j.2.jobType == jobType && j.2.status == .pending && decide (j.2.runAfter ≤ c.now)
  runnable.filter fun j => runnable.all fun i => decide (j.2.runAfter ≤ i.2.runAfter)

def Job.claim (j : Job) (lockedBy : String) : Job :=
  { j with status := .running, attempts := j.attempts + 1, lockedBy := some lockedBy }

def Job.fail (j : Job) (now : Time) (error : String) : Job :=
  { j with
    status := if j.attempts ≥ j.maxAttempts then .failed else .pending
    runAfter := now + 30 * j.attempts
    lastError := some error
    lockedBy := none }

def Core.newJobId (c : Core) : Uuid := (c.jobs.keys.foldr max 0) + 1

def LedgerCreditInput.entry (input : LedgerCreditInput) (amount : ℤ) : LedgerEntry :=
  { walletId := input.walletId, amount := amount, type := input.ledgerType,
    referenceId := input.referenceId, referenceType := input.referenceType,
    referenceKey := input.referenceKey, memo := input.memo }

def Core.insertLedgerEntry (c : Core) (input : LedgerCreditInput) :
    Except DbError (Unit × List CoreWrite) :=
  match numeric39 input.amount with
  | none => .error .numericOverflow
  | some n =>
    if (c.wallets.lookup input.walletId).isNone then .error .foreignKey
    else if c.ledger.any (input.entry n).clash then .error .uniqueViolation
    else .ok ((), [.addEntry (input.entry n)])

def Core.walletOf (c : Core) (userId : Uuid) (coin : Coin) (kind : WalletKind) : Option Uuid :=
  (c.wallets.entries.find? fun w =>
    w.2.userId == userId && w.2.coin == coin && w.2.kind == kind).map Sigma.fst

theorem Core.wallet_of_walletOf {c : Core} {userId id : Uuid} {coin : Coin} {kind : WalletKind}
    (h : c.walletOf userId coin kind = some id) :
    ∃ w, c.wallets.lookup id = some w ∧ w.userId = userId ∧ w.coin = coin ∧ w.kind = kind := by
  obtain ⟨x, hx, rfl⟩ := Option.map_eq_some_iff.1 h
  have hp := List.find?_some hx
  simp only [Bool.and_eq_true, beq_iff_eq] at hp
  exact ⟨x.2, AList.mem_lookup_iff.2 (List.mem_of_find?_eq_some hx), hp.1.1, hp.1.2, hp.2⟩

def CoreStmt.eval : (st : CoreStmt) → Core → List (Except DbError (st.Ans × List CoreWrite))
  | .lockWallet id, c => [.ok ((c.wallets.lookup id).map fun _ => id, [])]
  | .reorgHoldAt id, c => [.ok ((c.wallets.lookup id).map Wallet.reorgHoldAt, [])]
  | .walletBalance id, c => [.ok (c.balance id, [])]
  | .insertLedgerEntry input, c => [c.insertLedgerEntry input]
  | .ledgerByReferenceKey referenceType referenceKey, c =>
    [.ok (c.ledger.any fun e =>
      e.referenceType == some referenceType && e.referenceKey == some referenceKey, [])]
  | .walletOf userId coin kind, c => [.ok (c.walletOf userId coin kind, [])]
  | .setReorgHold id, c =>
    [.ok ((), match c.wallets.lookup id with
      | some w => [.putWallet id { w with reorgHoldAt := some c.now }]
      | none => [])]
  | .insertOutbox event, _ => [.ok ((), [.addOutbox event])]
  | .insertAudit log, _ => [.ok ((), [.addAudit log])]
  | .enqueue jobType payload, c =>
    [.ok (c.newJobId, [.putJob c.newJobId
      { jobType, payload, status := .pending, attempts := 0, maxAttempts := 5, runAfter := c.now,
        lockedBy := none, lastError := none }])]
  | .claimNext jobType lockedBy, c =>
    match c.oldestRunnable jobType with
    | [] => [.ok (none, [])]
    | l => l.map fun j => .ok (some (j.1, j.2.claim lockedBy), [.putJob j.1 (j.2.claim lockedBy)])
  | .completeJob id, c =>
    [.ok ((), match c.jobs.lookup id with
      | some j => [.putJob id { j with status := .done }]
      | none => [])]
  | .failJob id error, c =>
    [.ok ((), match c.jobs.lookup id with
      | some j => [.putJob id (j.fail c.now error)]
      | none => [])]

/-- The locks on the shared tables: wallet rows. Every statement on the job table
commits by itself and `claim_next` skips what is locked, so job rows need none. -/
abbrev CoreKey := Uuid

def CoreStmt.locks : CoreStmt → Core → List CoreKey
  | .lockWallet id, c => if (c.wallets.lookup id).isSome then [id] else []
  | .setReorgHold id, c => if (c.wallets.lookup id).isSome then [id] else []
  | _, _ => []

/-- A wallet lock guards the wallet row and, by the code's discipline, the
wallet's ledger entries. -/
def CoreWrite.touches : CoreWrite → List CoreKey
  | .putWallet id _ => [id]
  | .addEntry e => [e.walletId]
  | _ => []

def Core.row (c : Core) (id : CoreKey) : Option Wallet × List LedgerEntry :=
  (c.wallets.lookup id, c.ledger.filter fun e => e.walletId == id)

/-- But for a ledger entry, a statement writes no wallet that it has not found
and locked. -/
theorem CoreStmt.writes {st : CoreStmt} (hst : ∀ input, st ≠ .insertLedgerEntry input) {c : Core}
    {a : st.Ans} {ws : List CoreWrite} (h : .ok (a, ws) ∈ st.eval c) : ∀ w ∈ ws, match w with
      | .putWallet id _ => (c.wallets.lookup id).isSome ∧ id ∈ st.locks c
      | .addEntry _ => False
      | _ => True := by
  intro w hw
  cases st with
  | insertLedgerEntry input => exact absurd rfl (hst input)
  | setReorgHold id =>
    cases List.mem_singleton.1 h
    cases hl : c.wallets.lookup id with
    | none => rw [hl] at hw; cases hw
    | some u =>
      rw [hl] at hw
      cases List.mem_singleton.1 hw
      simp [CoreStmt.locks, hl]
  | claimNext jobType lockedBy =>
    simp only [CoreStmt.eval] at h
    split at h
    · cases List.mem_singleton.1 h; cases hw
    · obtain ⟨j, -, hj⟩ := List.mem_map.1 h
      cases hj
      cases List.mem_singleton.1 hw; trivial
  | completeJob id | failJob id error =>
    cases List.mem_singleton.1 h
    split at hw
    · cases List.mem_singleton.1 hw; trivial
    · cases hw
  | insertOutbox event | insertAudit log | enqueue jobType payload =>
    cases List.mem_singleton.1 h
    cases List.mem_singleton.1 hw; trivial
  | _ => cases List.mem_singleton.1 h; cases hw

theorem Core.row_apply (id : CoreKey) (w : CoreWrite) (c : Core) (h : id ∉ w.touches) :
    (w.apply c).row id = c.row id := by
  cases w with
  | putWallet id' w =>
    have h' : id ≠ id' := by simpa [CoreWrite.touches] using h
    exact congrArg (·, _) (AList.lookup_insert_ne h')
  | addEntry e =>
    have h' : (e.walletId == id) = false :=
      beq_false_of_ne fun he => h (he ▸ List.mem_singleton_self _)
    simp only [CoreWrite.apply, Core.row, List.filter_cons, h', Bool.false_eq_true, if_false]
  | putJob id' j => rfl
  | addOutbox event => rfl
  | addAudit log => rfl

theorem Core.row_congr (id : CoreKey) (w : CoreWrite) (c c' : Core) (h : c'.row id = c.row id) :
    (w.apply c').row id = (w.apply c).row id := by
  simp only [Core.row, Prod.mk.injEq] at h
  cases w with
  | putWallet id' w =>
    by_cases e : id = id'
    · subst e; simp only [CoreWrite.apply, Core.row, AList.lookup_insert, h.2]
    · simp only [CoreWrite.apply, Core.row, AList.lookup_insert_ne e, h.1, h.2]
  | addEntry e => simp only [CoreWrite.apply, Core.row, List.filter_cons, h.1, h.2]
  | putJob id' j => exact Prod.ext h.1 h.2
  | addOutbox event => exact Prod.ext h.1 h.2
  | addAudit log => exact Prod.ext h.1 h.2

theorem Core.balance_eq_of_row {c c' : Core} {id : CoreKey} (h : c'.row id = c.row id) :
    c'.balance id = c.balance id := by
  have := congrArg (fun r => sumWhere (fun e => e.walletId == id) r.2) h
  simpa only [Core.row, Core.balance, sumWhere_filter] using this

/-! ## The store with the tables of one part -/

/-- The tables of one part of the system and the statements on them. They may
read the shared tables, and write only their own. -/
structure Ext where
  Db : Type
  Key : Type
  Write : Type
  Stmt : Type
  Ans : Stmt → Type
  Call : Type
  Reply : Call → Type
  locks : Stmt → Core → Db → List Key
  eval : (st : Stmt) → Core → Db → List (Except DbError (Ans st × List Write))
  apply : Write → Db → Db
  Row : Key → Type
  row : (k : Key) → Db → Row k
  touches : Write → List Key
  row_apply : ∀ (k : Key) (w : Write) (db : Db), k ∉ touches w → row k (apply w db) = row k db
  row_congr : ∀ (k : Key) (w : Write) (db db' : Db), row k db' = row k db →
    row k (apply w db') = row k (apply w db)
  /-- A statement locks the rows it writes. -/
  covered : ∀ (st : Stmt) (c : Core) (db : Db) (a : Ans st) (ws : List Write),
    .ok (a, ws) ∈ eval st c db → ∀ w ∈ ws, ∀ k ∈ touches w, k ∈ locks st c db

section
variable (X : Ext)

structure Db where
  core : Core
  ext : X.Db

inductive Key where
  | core (k : CoreKey)
  | ext (k : X.Key)

instance [DecidableEq X.Key] : DecidableEq (Key X)
  | .core k, .core k' => decidable_of_iff (k = k') (by simp)
  | .ext k, .ext k' => decidable_of_iff (k = k') (by simp)
  | .core _, .ext _ => isFalse (by simp)
  | .ext _, .core _ => isFalse (by simp)

inductive Write where
  | core (w : CoreWrite)
  | ext (w : X.Write)

inductive Stmt where
  | core (st : CoreStmt)
  | ext (st : X.Stmt)

abbrev Stmt.Ans : Stmt X → Type
  | .core st => st.Ans
  | .ext st => X.Ans st

abbrev Key.Row : Key X → Type
  | .core _ => Option Wallet × List LedgerEntry
  | .ext k => X.Row k

end

variable {X : Ext}

def Write.apply : Write X → Db X → Db X
  | .core w, db => { db with core := w.apply db.core }
  | .ext w, db => { db with ext := X.apply w db.ext }

def Write.touches : Write X → List (Key X)
  | .core w => w.touches.map .core
  | .ext w => (X.touches w).map .ext

def Key.row : (k : Key X) → Db X → k.Row
  | .core k, db => db.core.row k
  | .ext k, db => X.row k db.ext

def Stmt.locks : Stmt X → Db X → List (Key X)
  | .core st, db => (st.locks db.core).map .core
  | .ext st, db => (X.locks st db.core db.ext).map .ext

def Stmt.eval : (st : Stmt X) → Db X → List (Except DbError (st.Ans × List (Write X)))
  | .core st, db => (st.eval db.core).map fun r => r.map fun (a, ws) => (a, ws.map .core)
  | .ext st, db => (X.eval st db.core db.ext).map fun r => r.map fun (a, ws) => (a, ws.map .ext)

def Db.tick (db db' : Db X) : Prop :=
  ∃ t, db.core.now ≤ t ∧ db' = { db with core := { db.core with now := t } }

def Db.wait (n : Nat) (db : Db X) : Db X :=
  { db with core := { db.core with now := db.core.now + n } }

theorem Db.tick_wait (n : Nat) (db : Db X) : db.tick (db.wait n) := ⟨_, Nat.le_add_right _ _, rfl⟩

theorem Key.row_apply (k : Key X) (w : Write X) (db : Db X) (h : k ∉ w.touches) :
    k.row (w.apply db) = k.row db := by
  cases w with
  | core w =>
    cases k with
    | core k => exact Core.row_apply k w db.core fun hk => h (List.mem_map_of_mem hk)
    | ext k => rfl
  | ext w =>
    cases k with
    | core k => rfl
    | ext k => exact X.row_apply k w db.ext fun hk => h (List.mem_map_of_mem hk)

theorem Key.row_congr (k : Key X) (w : Write X) (db db' : Db X) (h : k.row db' = k.row db) :
    k.row (w.apply db') = k.row (w.apply db) := by
  cases w with
  | core w =>
    cases k with
    | core k => exact Core.row_congr k w _ _ h
    | ext k => exact h
  | ext w =>
    cases k with
    | core k => exact h
    | ext k => exact X.row_congr k w _ _ h

theorem Key.row_tick (k : Key X) (db db' : Db X) (h : db.tick db') : k.row db' = k.row db := by
  obtain ⟨t, -, rfl⟩ := h
  cases k <;> rfl

abbrev satsPay (X : Ext) : Schema where
  Db := Db X
  Key := Key X
  Write := Write X
  Err := DbError
  Stmt := Stmt X
  Ans := Stmt.Ans X
  Call := X.Call
  Reply := X.Reply
  io := .io
  locks := Stmt.locks
  eval := Stmt.eval
  apply := Write.apply
  tick := Db.tick
  Row := Key.Row X
  row := Key.row
  touches := Write.touches
  row_apply := Key.row_apply
  row_congr := Key.row_congr
  row_tick := Key.row_tick

def noExt : Ext where
  Db := Unit
  Key := Empty
  Write := Empty
  Stmt := Empty
  Ans := Empty.elim
  Call := Empty
  Reply := Empty.elim
  locks := nofun
  eval := nofun
  apply := nofun
  Row := Empty.elim
  row := nofun
  touches := nofun
  row_apply := nofun
  row_congr := nofun
  covered := nofun

instance : DecidableEq noExt.Key := inferInstanceAs (DecidableEq Empty)

section
variable {ε : Type} [FromErr DbError ε]

def coreQuery (st : CoreStmt) : Code (satsPay X) ε st.Ans := query (S := satsPay X) (.core st)
def extQuery (st : X.Stmt) : Code (satsPay X) ε (X.Ans st) := query (S := satsPay X) (.ext st)
def corePool (st : CoreStmt) : Code (satsPay X) ε st.Ans := poolQuery (S := satsPay X) (.core st)
def extPool (st : X.Stmt) : Code (satsPay X) ε (X.Ans st) := poolQuery (S := satsPay X) (.ext st)

end

end SatsPay
