import SatsPay.Decimals
import SatsPay.UtxoNodeRpc
import SatsPay.Withdrawals

/-!
# Deposits

What the watcher has seen at a deposit address is recorded by its outpoint, and
credited to the wallet's ledger once it has enough confirmations.
-/

namespace SatsPay

open Interleave ReadCommitted

/-! ## The table -/

structure Outpoint where
  txHash : String
  vout : ℤ
  deriving DecidableEq, Repr

inductive DepositStatus where
  | pending | confirmed | credited | orphaned
  deriving DecidableEq, Repr

structure Deposit where
  walletId : Uuid
  outpoint : Outpoint
  amount : ℤ
  confirmations : ℤ
  status : DepositStatus
  deriving DecidableEq, Repr

structure WalletAddress where
  address : String
  hdIndex : Option ℕ
  deriving DecidableEq, Repr

/-- The deposits with the unique index on `(tx_hash, vout)`. -/
structure DepositsDb where
  deposits : Table Deposit
  outpoints : AList fun _ : Outpoint => Uuid
  addresses : Table WalletAddress
  networkFees : List NetworkFee

structure Outside where
  Call : Type
  Reply : Call → Type

inductive DepositCall (O : Outside) where
  | newUuid
  | outside (c : O.Call)

abbrev DepositCall.Reply {O : Outside} : DepositCall O → Type
  | .newUuid => Uuid
  | .outside c => O.Reply c

/-! ## Statements -/

inductive DepositUpdate where
  | seen (confirmations : ℤ) (status : DepositStatus)
  | credited
  | orphaned (confirmations : ℤ)

def DepositUpdate.set : DepositUpdate → Deposit → Deposit
  | .seen confirmations status, r => { r with confirmations := confirmations, status := status }
  | .credited, r => { r with status := .credited }
  | .orphaned confirmations, r => { r with status := .orphaned, confirmations := confirmations }

structure NewDeposit where
  walletId : Uuid
  outpoint : Outpoint
  amount : ℚ
  confirmations : ℤ
  status : DepositStatus

def NewDeposit.row (input : NewDeposit) (amount : ℤ) : Deposit :=
  { walletId := input.walletId, outpoint := input.outpoint, amount := amount,
    confirmations := input.confirmations, status := input.status }

structure WatchedWallet where
  id : Uuid
  userId : Uuid
  coin : Coin
  address : String
  hdIndex : Option ℕ

inductive DepositStmt where
  | findByOutpoint (o : Outpoint)
  | insertDeposit (id : Uuid) (input : NewDeposit)
  | update (id : Uuid) (u : DepositUpdate)
  | watchedWallets
  | recordNetworkFee (fee : NetworkFee)

abbrev DepositStmt.Ans : DepositStmt → Type
  | .findByOutpoint _ => Option (Uuid × Deposit)
  | .insertDeposit _ _ => Unit
  | .update _ _ => Unit
  | .watchedWallets => List WatchedWallet
  | .recordNetworkFee _ => Bool

inductive DepositWrite where
  | insert (id : Uuid) (r : Deposit)
  | update (id : Uuid) (u : DepositUpdate)
  | addNetworkFee (fee : NetworkFee)

inductive DepositKey where
  | row (id : Uuid)
  | outpoint (o : Outpoint)
  deriving DecidableEq

abbrev DepositKey.Row : DepositKey → Type
  | .row _ => Option Deposit
  | .outpoint _ => Option Uuid

def DepositsDb.find (db : DepositsDb) (o : Outpoint) : Option (Uuid × Deposit) :=
  (db.outpoints.lookup o).bind fun id => (db.deposits.lookup id).map fun r => (id, r)

def DepositsDb.watched (db : DepositsDb) (c : Core) : List WatchedWallet :=
  c.wallets.entries.filterMap fun w =>
    if w.2.kind = .personal then
      (db.addresses.lookup w.1).map fun a => ⟨w.1, w.2.userId, w.2.coin, a.address, a.hdIndex⟩
    else none

def DepositsDb.insertDeposit (db : DepositsDb) (c : Core) (id : Uuid) (input : NewDeposit) :
    Except DbError (Unit × List DepositWrite) :=
  match numeric39 input.amount with
  | none => .error .numericOverflow
  | some n =>
    if (db.deposits.lookup id).isSome ∨ (db.outpoints.lookup input.outpoint).isSome then
      .error .uniqueViolation
    else if (c.wallets.lookup input.walletId).isNone then .error .foreignKey
    else .ok ((), [.insert id (input.row n)])

def DepositStmt.eval : (st : DepositStmt) → Core → DepositsDb →
    List (Except DbError (st.Ans × List DepositWrite))
  | .findByOutpoint o, _, db => [.ok (db.find o, [])]
  | .insertDeposit id input, c, db => [db.insertDeposit c id input]
  | .update id u, _, db =>
    [.ok ((), if (db.deposits.lookup id).isSome then [.update id u] else [])]
  | .watchedWallets, c, db => (db.watched c).permutations.map fun l => .ok (l, [])
  | .recordNetworkFee fee, _, db =>
    -- `ON CONFLICT (coin, tx_hash) WHERE tx_hash IS NOT NULL DO NOTHING`
    if fee.txHash.isSome ∧ db.networkFees.any fun f => f.coin == fee.coin && f.txHash == fee.txHash
    then [.ok (false, [])]
    else [.ok (true, [.addNetworkFee fee])]

def DepositStmt.locks : DepositStmt → Core → DepositsDb → List DepositKey
  | .insertDeposit id input, _, _ => [.row id, .outpoint input.outpoint]
  | .update id _, _, db => if (db.deposits.lookup id).isSome then [.row id] else []
  | _, _, _ => []

def DepositWrite.apply : DepositWrite → DepositsDb → DepositsDb
  | .insert id r, db =>
    { db with deposits := db.deposits.insert id r, outpoints := db.outpoints.insert r.outpoint id }
  | .update id u, db =>
    match db.deposits.lookup id with
    | some r => { db with deposits := db.deposits.insert id (u.set r) }
    | none => db
  | .addNetworkFee fee, db => { db with networkFees := fee :: db.networkFees }

def DepositKey.read : (k : DepositKey) → DepositsDb → k.Row
  | .row id, db => db.deposits.lookup id
  | .outpoint o, db => db.outpoints.lookup o

def DepositWrite.touches : DepositWrite → List DepositKey
  | .insert id r => [.row id, .outpoint r.outpoint]
  | .update id _ => [.row id]
  | .addNetworkFee _ => []

theorem DepositsDb.insertDeposit_ok {db : DepositsDb} {c : Core} {id : Uuid} {input : NewDeposit}
    {a : Unit} {ws : List DepositWrite} (h : db.insertDeposit c id input = .ok (a, ws)) :
    ∃ n, numeric39 input.amount = some n ∧ db.deposits.lookup id = none ∧
      db.outpoints.lookup input.outpoint = none ∧ (c.wallets.lookup input.walletId).isSome ∧
      ws = [.insert id (input.row n)] := by
  unfold DepositsDb.insertDeposit at h
  split at h
  · cases h
  · rename_i n hn
    split at h
    · cases h
    · rename_i hf
      obtain ⟨h₁, h₂⟩ := not_or.1 hf
      split at h
      · cases h
      · rename_i hw
        cases h
        exact ⟨n, hn, by simpa using h₁, by simpa using h₂,
          by simpa [Option.isSome_iff_ne_none] using hw, rfl⟩

/-- A deposit after a write, where the write is no insert of its row. -/
theorem DepositWrite.lookup_update (id i : Uuid) (u : DepositUpdate) (db : DepositsDb) :
    ((DepositWrite.update i u).apply db).deposits.lookup id =
      if i = id then (db.deposits.lookup id).map u.set else db.deposits.lookup id := by
  cases hr : db.deposits.lookup i with
  | none =>
    rw [show (DepositWrite.update i u).apply db = db by simp only [DepositWrite.apply, hr]]
    split
    · rename_i e
      rw [← e, hr, Option.map_none]
    · rfl
  | some r =>
    rw [show (DepositWrite.update i u).apply db = { db with deposits := db.deposits.insert i (u.set r) }
      by simp only [DepositWrite.apply, hr]]
    split
    · rename_i e
      rw [← e, AList.lookup_insert, hr, Option.map_some]
    · rename_i e
      exact AList.lookup_insert_ne (Ne.symm e)

theorem DepositWrite.outpoints_update (i : Uuid) (u : DepositUpdate) (db : DepositsDb) :
    ((DepositWrite.update i u).apply db).outpoints = db.outpoints := by
  unfold DepositWrite.apply
  dsimp only
  split <;> rfl

theorem DepositStmt.writes {st : DepositStmt} {c : Core} {db : DepositsDb} {a : st.Ans}
    {ws : List DepositWrite} (h : .ok (a, ws) ∈ st.eval c db) :
    ∀ w ∈ ws, ∀ k ∈ w.touches, k ∈ st.locks c db := by
  intro w hw k hk
  cases st with
  | insertDeposit id input =>
    obtain ⟨n, -, -, -, -, rfl⟩ := DepositsDb.insertDeposit_ok (List.mem_singleton.1 h).symm
    cases List.mem_singleton.1 hw
    exact hk
  | update id u =>
    cases List.mem_singleton.1 h
    split at hw
    · rename_i hs
      cases List.mem_singleton.1 hw
      cases List.mem_singleton.1 hk
      simp [DepositStmt.locks, hs]
    · cases hw
  | watchedWallets =>
    simp only [DepositStmt.eval, List.mem_map, Except.ok.injEq, Prod.mk.injEq] at h
    obtain ⟨l, -, -, rfl⟩ := h
    cases hw
  | recordNetworkFee fee =>
    simp only [DepositStmt.eval] at h
    split at h
    · cases List.mem_singleton.1 h; cases hw
    · cases List.mem_singleton.1 h
      cases List.mem_singleton.1 hw
      cases hk
  | findByOutpoint o => cases List.mem_singleton.1 h; cases hw

def depositsExt (O : Outside) : Ext where
  Db := DepositsDb
  Key := DepositKey
  Write := DepositWrite
  Stmt := DepositStmt
  Ans := DepositStmt.Ans
  Call := DepositCall O
  Reply := DepositCall.Reply
  locks := DepositStmt.locks
  eval := DepositStmt.eval
  apply := DepositWrite.apply
  Row := DepositKey.Row
  row := DepositKey.read
  touches := DepositWrite.touches
  row_apply := by
    intro k w db h
    cases w with
    | addNetworkFee fee => cases k <;> rfl
    | update id u =>
      cases k with
      | outpoint o => exact congrArg (AList.lookup o) (DepositWrite.outpoints_update id u db)
      | row id' =>
        have hne : ¬ id = id' := fun e => h (e ▸ List.mem_singleton_self _)
        exact (DepositWrite.lookup_update id' id u db).trans (if_neg hne)
    | insert id r =>
      simp only [DepositWrite.touches, List.mem_cons, List.not_mem_nil, or_false, not_or] at h
      cases k with
      | outpoint o => exact AList.lookup_insert_ne (by simpa using h.2)
      | row id' => exact AList.lookup_insert_ne (by simpa using h.1)
  row_congr := by
    intro k w db db' h
    cases w with
    | addNetworkFee fee => cases k <;> exact h
    | update id u =>
      cases k with
      | outpoint o =>
        show AList.lookup o _ = AList.lookup o _
        rw [DepositWrite.outpoints_update, DepositWrite.outpoints_update]
        exact h
      | row id' =>
        have h' : db'.deposits.lookup id' = db.deposits.lookup id' := h
        show AList.lookup id' _ = AList.lookup id' _
        rw [DepositWrite.lookup_update, DepositWrite.lookup_update, h']
    | insert id r =>
      cases k with
      | outpoint o =>
        simp only [DepositKey.read, DepositWrite.apply] at h ⊢
        by_cases e : o = r.outpoint
        · subst e; simp only [AList.lookup_insert]
        · simpa only [AList.lookup_insert_ne e] using h
      | row id' =>
        simp only [DepositKey.read, DepositWrite.apply] at h ⊢
        by_cases e : id' = id
        · subst e; simp only [AList.lookup_insert]
        · simpa only [AList.lookup_insert_ne e] using h
  covered := fun _ _ _ _ _ h => DepositStmt.writes h

instance {O : Outside} : DecidableEq (depositsExt O).Key := inferInstanceAs (DecidableEq DepositKey)

abbrev Deposits (O : Outside) (ε α : Type) := Code (satsPay (depositsExt O)) ε α

section
variable {O : Outside} {ε : Type} [FromErr DbError ε]

def depositQuery (st : DepositStmt) : Deposits O ε st.Ans := extQuery (X := depositsExt O) st
def depositPool (st : DepositStmt) : Deposits O ε st.Ans := extPool (X := depositsExt O) st

end

section
variable {O : Outside} {ε : Type}

def depositCall (c : DepositCall O) : Deposits O ε c.Reply := invoke (S := satsPay (depositsExt O)) c

end

/-! ## Crediting -/

inductive DepositsError where
  | db (e : DbError)
  | ledger (e : LedgerError)
  | outbox (e : DbError)
  | notFound
  | chain (message : String)
  /-- The task ends. -/
  | panicked

instance : FromErr DbError DepositsError := ⟨.db⟩

inductive CreditDepositOutcome where
  | noop | recorded | newlyCredited
  deriving DecidableEq, Repr

/-- `&tx_hash[..12]` panics within a character. -/
def depositMemo (txHash : String) : Option String :=
  (takeBytes 12 txHash.toList).map fun s => "Deposit " ++ String.ofList s ++ "…"

structure Observation where
  walletId : Uuid
  coin : Coin
  outpoint : Outpoint
  amount : ℚ
  confirmations : ℤ

def Observation.confirmed (x : Observation) : Bool := decide ((x.coin.minConfirmations : ℤ) ≤ x.confirmations)

def Observation.newStatus (x : Observation) : DepositStatus :=
  if x.confirmed then .confirmed else .pending

def depositCredit (walletId : Uuid) (amount : ℚ) (depositId : Uuid) (memo : String) :
    LedgerCreditInput :=
  ⟨walletId, amount, .deposit, some depositId, some "Deposit", none, some memo⟩

def depositReversal (walletId : Uuid) (amount : ℤ) (depositId : Uuid) (reason : String) :
    LedgerCreditInput :=
  ⟨walletId, -(amount : ℚ), .depositReversal, some depositId, some "Deposit", none,
    some ("Reorg reversal: " ++ reason)⟩

section
variable {O : Outside} (numericText : ℚ → String)

def recordDeposit (x : Observation) :
    Option (Uuid × Deposit) → Deposits O DepositsError Uuid
  | some existing => do
    let _ ← (depositQuery (.update existing.1 (.seen x.confirmations x.newStatus)) :
      Deposits O DepositsError Unit)
    pure existing.1
  | none => do
    -- `gen_random_uuid()`, the default of the column
    let id ← depositCall .newUuid
    let _ ← (depositQuery (.insertDeposit id
      ⟨x.walletId, x.outpoint, x.amount, x.confirmations, x.newStatus⟩) :
        Deposits O DepositsError Unit)
    pure id

def creditRecorded (x : Observation) (depositId : Uuid) :
    Deposits O DepositsError CreditDepositOutcome :=
  match depositMemo x.outpoint.txHash with
  | none => .throw .panicked
  | some memo => do
    (applyLedgerEntry (depositCredit x.walletId x.amount depositId memo)).mapErr .ledger
    let _ ← (depositQuery (.update depositId .credited) : Deposits O DepositsError Unit)
    let _ ← (coreQuery (.insertOutbox (.depositConfirmed x.walletId depositId x.coin.asStr
      (numericText x.amount) x.outpoint.txHash)) : Deposits O DbError Unit).mapErr .outbox
    commit
    pure .newlyCredited

/-- Once per outpoint. -/
def creditDeposit (x : Observation) : Deposits O DepositsError CreditDepositOutcome :=
  transaction do
    (lockWallet x.walletId).mapErr .ledger
    let existing ← (depositQuery (.findByOutpoint x.outpoint) :
      Deposits O DepositsError (Option (Uuid × Deposit)))
    if (existing.map fun r => r.2.status) = some .credited then pure .noop
    else do
      let depositId ← recordDeposit x existing
      if x.confirmed then creditRecorded numericText x depositId
      else do
        commit
        pure .recorded

end

/-! ## Reorganisations -/

def depositAudit (action : String) (depositId : Uuid) (metadata : List (String × String)) : AuditLog :=
  ⟨none, action, "Deposit", some depositId, none,
    some (.object (metadata.map fun (key, text) => (key, .string text)))⟩

section
variable {O : Outside}

def reorgReason (minConfirmations : ℕ) : Option ℤ → String
  | none => "Output no longer present in successful chain snapshot"
  | some confirmations => "Confirmations dropped below required minimum (" ++
      toString confirmations ++ "/" ++ toString minConfirmations ++ ")"

/-- Take back a credit, or put the wallet on hold if it has been spent. -/
def orphanCredited (walletId depositId : Uuid) (amount onchainConfirmations : ℤ) (reason : String) :
    Deposits O DepositsError Unit := do
  let balance ← (getWalletBalance walletId).mapErr .ledger
  let _ ← (depositQuery (.update depositId (.orphaned onchainConfirmations)) :
    Deposits O DepositsError Unit)
  if amount ≤ balance then do
    (applyLedgerEntry (depositReversal walletId amount depositId reason)).mapErr .ledger
    let _ ← (coreQuery (.insertAudit (depositAudit "DEPOSIT_REORG_REVERSED" depositId
      [("reason", reason)])) : Deposits O DepositsError Unit)
    commit
  else do
    let _ ← (coreQuery (.setReorgHold walletId) : Deposits O DepositsError Unit)
    let _ ← (coreQuery (.insertAudit (depositAudit "DEPOSIT_REORG_REVERSAL_BLOCKED" depositId
      [("reason", reason), ("amount", storedText amount), ("availableBalance", storedText balance)])) :
      Deposits O DepositsError Unit)
    commit

def orphanUncredited (depositId : Uuid) (onchainConfirmations : ℤ) (reason : String) :
    Deposits O DepositsError Unit := do
  let _ ← (depositQuery (.update depositId (.orphaned onchainConfirmations)) :
    Deposits O DepositsError Unit)
  let _ ← (coreQuery (.insertAudit (depositAudit "DEPOSIT_ORPHANED_UNCREDITED" depositId
    [("reason", reason)])) : Deposits O DepositsError Unit)
  commit

/-- `onchainConfirmations` is what a chain snapshot has of the output, if it has it. -/
def reconcileDeposit (walletId : Uuid) (coin : Coin) (o : Outpoint)
    (onchainConfirmations : Option ℤ) : Deposits O DepositsError Unit :=
  if onchainConfirmations.any fun n => decide ((coin.minConfirmations : ℤ) ≤ n) then pure ()
  else transaction do
    (lockWallet walletId).mapErr .ledger
    match ← (depositQuery (.findByOutpoint o) : Deposits O DepositsError (Option (Uuid × Deposit))) with
    | none => pure ()
    | some (depositId, row) =>
      if row.walletId ≠ walletId ∨ row.status = .orphaned then pure ()
      else
        let confirmations := onchainConfirmations.getD 0
        let reason := reorgReason coin.minConfirmations onchainConfirmations
        if row.status ≠ .credited then orphanUncredited depositId confirmations reason
        else orphanCredited walletId depositId row.amount confirmations reason

end

end SatsPay
