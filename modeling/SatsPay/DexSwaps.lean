import SatsPay.DexRoutes
import SatsPay.Withdrawals

/-!
# Custodial DEX swaps

A swap debits the user when it is created, and is either credited, when the venue
has paid, or refunded.
-/

namespace SatsPay

open Interleave ReadCommitted

/-! ## The table -/

def DexSwapStatus.asStr : DexSwapStatus → String
  | .quoted => "QUOTED"
  | .locked => "LOCKED"
  | .broadcasting => "BROADCASTING"
  | .inFlight => "IN_FLIGHT"
  | .crediting => "CREDITING"
  | .completed => "COMPLETED"
  | .failed => "FAILED"
  | .refunding => "REFUNDING"
  | .refunded => "REFUNDED"

structure DexSwap where
  userId : Uuid
  fromCoin : Coin
  toCoin : Coin
  fromAmount : ℕ
  expectedToAmount : ℕ
  minToAmount : Option ℕ
  actualToAmount : Option ℕ
  status : DexSwapStatus
  provider : String
  providers : List String
  quoteId : Option String
  platformFeeBps : ℤ
  platformFeeAmount : ℕ
  txHint : Option String
  inboundMemo : Option String
  depositAddress : Option String
  inboundTx : Option String
  outboundTx : Option String
  swapPayload : Option Value
  error : Option String
  idempotencyKey : String
  updatedAt : Time

structure LockDexSwapInput where
  userId : Uuid
  fromCoin : Coin
  toCoin : Coin
  fromAmount : ℕ
  expectedToAmount : ℕ
  minToAmount : Option ℕ
  provider : String
  providers : List String
  quoteId : Option String
  platformFeeBps : ℕ
  platformFeeAmount : ℕ
  txHint : Option String
  swapPayload : Option Value
  idempotencyKey : String

structure DexSwapsDb where
  dexSwaps : Table DexSwap
  networkFees : List NetworkFee

/-! ## Statements -/

inductive DexSwapUpdate where
  | broadcasting (depositAddress : String) (memo : Option String) (swapPayload : Value)
  | inFlight (inboundTx : String)
  | crediting
  | completed (toAmount : ℕ) (outboundTx : Option String)
  | failed (error : String)
  | refunding (reason : String)
  | refunded

def DexSwapUpdate.guard : DexSwapUpdate → DexSwapStatus → Bool
  | .broadcasting _ _ _, s => s == .locked || s == .broadcasting
  | .inFlight _, s => s == .broadcasting || s == .inFlight
  | .failed _, s => s != .completed && s != .refunded
  | .crediting, _ | .completed _ _, _ | .refunding _, _ | .refunded, _ => true

def DexSwapUpdate.set (now : Time) : DexSwapUpdate → DexSwap → DexSwap
  | .broadcasting depositAddress memo swapPayload, r =>
    { r with
      status := .broadcasting, depositAddress := some depositAddress, inboundMemo := memo,
      swapPayload := some swapPayload, updatedAt := now }
  | .inFlight inboundTx, r =>
    { r with status := .inFlight, inboundTx := some inboundTx, updatedAt := now }
  | .crediting, r => { r with status := .crediting, updatedAt := now }
  | .completed toAmount outboundTx, r =>
    { r with
      status := .completed, actualToAmount := some toAmount,
      outboundTx := outboundTx.or r.outboundTx, updatedAt := now, error := none }
  | .failed error, r => { r with status := .failed, error := some error, updatedAt := now }
  | .refunding reason, r => { r with status := .refunding, error := some reason, updatedAt := now }
  | .refunded, r => { r with status := .refunded, updatedAt := now }

inductive DexStmt where
  | findByIdempotency (key : String)
  | insertLocked (id : Uuid) (key : String) (input : LockDexSwapInput)
  | getById (id : Uuid)
  | selectForUpdate (id : Uuid)
  | update (id : Uuid) (u : DexSwapUpdate)
  | listActive (limit : ℕ)
  | recordNetworkFee (fee : NetworkFee)

abbrev DexStmt.Ans : DexStmt → Type
  | .findByIdempotency _ => Option (Uuid × DexSwap)
  | .insertLocked _ _ _ => Unit
  | .getById _ => Option DexSwap
  | .selectForUpdate _ => Option DexSwap
  -- `rows_affected`: the row as it is now, if there was one to update
  | .update _ _ => Option DexSwap
  | .listActive _ => List (Uuid × DexSwap)
  | .recordNetworkFee _ => Bool

inductive DexWrite where
  | put (id : Uuid) (r : DexSwap)
  | addNetworkFee (fee : NetworkFee)

inductive DexKey where
  | row (id : Uuid)
  | idempotencyKey (key : String)
  deriving DecidableEq

abbrev DexKey.Row : DexKey → Type
  | .row _ => Option DexSwap
  | .idempotencyKey _ => Unit

def DexSwapsDb.find (db : DexSwapsDb) (key : String) : Option (Uuid × DexSwap) :=
  (db.dexSwaps.entries.find? fun r => r.2.idempotencyKey == key).map fun r => (r.1, r.2)

def LockDexSwapInput.row (input : LockDexSwapInput) (key : String) (now : Time) : DexSwap :=
  { userId := input.userId, fromCoin := input.fromCoin, toCoin := input.toCoin,
    fromAmount := input.fromAmount, expectedToAmount := input.expectedToAmount,
    minToAmount := input.minToAmount, actualToAmount := none, status := .locked,
    provider := input.provider, providers := input.providers, quoteId := input.quoteId,
    platformFeeBps := asI32 input.platformFeeBps, platformFeeAmount := input.platformFeeAmount,
    txHint := input.txHint, inboundMemo := none, depositAddress := none, inboundTx := none,
    outboundTx := none, swapPayload := input.swapPayload, error := none, idempotencyKey := key,
    updatedAt := now }

def DexSwapsDb.target (db : DexSwapsDb) (id : Uuid) (u : DexSwapUpdate) : Option DexSwap :=
  (db.dexSwaps.lookup id).filter fun r => u.guard r.status

def DexSwapStatus.active : DexSwapStatus → Bool
  | .locked | .broadcasting | .inFlight | .crediting | .failed | .refunding => true
  | _ => false

def DexSwapsDb.active (db : DexSwapsDb) : List (Uuid × DexSwap) :=
  (db.dexSwaps.entries.map fun r => (r.1, r.2)).filter fun r => r.2.status.active

def byUpdatedAt (rows : List (Uuid × DexSwap)) : List (List (Uuid × DexSwap)) :=
  rows.permutations.filter fun l => decide (l.Pairwise fun r r' => r.2.updatedAt ≤ r'.2.updatedAt)

def DexStmt.eval : (st : DexStmt) → Core → DexSwapsDb →
    List (Except DbError (st.Ans × List DexWrite))
  | .findByIdempotency key, _, db => [.ok (db.find key, [])]
  | .insertLocked id key input, c, db =>
    if (db.dexSwaps.lookup id).isSome ∨ (db.find key).isSome then [.error .uniqueViolation]
    else [.ok ((), [.put id (input.row key c.now)])]
  | .getById id, _, db => [.ok (db.dexSwaps.lookup id, [])]
  | .selectForUpdate id, _, db => [.ok (db.dexSwaps.lookup id, [])]
  | .update id u, c, db =>
    match db.target id u with
    | some r => [.ok (some (u.set c.now r), [.put id (u.set c.now r)])]
    | none => [.ok (none, [])]
  | .listActive limit, _, db => (byUpdatedAt db.active).map fun l => .ok (l.take limit, [])
  | .recordNetworkFee fee, _, db =>
    -- `ON CONFLICT (coin, tx_hash) WHERE tx_hash IS NOT NULL DO NOTHING`
    if fee.txHash.isSome ∧ db.networkFees.any fun f => f.coin == fee.coin && f.txHash == fee.txHash
    then [.ok (false, [])]
    else [.ok (true, [.addNetworkFee fee])]

def DexStmt.locks : DexStmt → Core → DexSwapsDb → List DexKey
  | .insertLocked id key _, _, _ => [.row id, .idempotencyKey key]
  | .selectForUpdate id, _, db => if (db.dexSwaps.lookup id).isSome then [.row id] else []
  | .update id u, _, db => if (db.target id u).isSome then [.row id] else []
  | _, _, _ => []

/-! ## Calls -/

structure ChangeNowStatus where
  status : String
  toAmountHuman : Option String
  payoutHash : Option String

structure RelayIntentStatus where
  status : String
  outboundTx : Option String
  failReason : Option String

/-- What `TrackResponse` says, a number in it as it is printed. -/
structure TrackResponse where
  status : Option String
  trackingStatus : Option String
  outboundTx : Option String
  outboundAmountHuman : Option String

/-- The chain client's broadcast for a swap and the questions put to the venues. The
id is not sent: it only says here for which swap the call is made. -/
inductive DexCall where
  | newUuid
  | broadcast (id : Uuid) (coin : Coin) (plan : BroadcastPlan)
  | changenowStatus (id : Uuid) (exchangeId : String)
  | relayStatus (id : Uuid) (requestId : String)
  | swapkitTrack (id : Uuid) (hash : String)

abbrev DexCall.Reply : DexCall → Type
  | .newUuid => Uuid
  | .broadcast _ _ _ => Except BroadcastError BroadcastResult
  | .changenowStatus _ _ => Except String ChangeNowStatus
  | .relayStatus _ _ => Except String RelayIntentStatus
  | .swapkitTrack _ _ => Except String TrackResponse

def DexWrite.apply : DexWrite → DexSwapsDb → DexSwapsDb
  | .put id r, db => { db with dexSwaps := db.dexSwaps.insert id r }
  | .addNetworkFee fee, db => { db with networkFees := fee :: db.networkFees }

def DexKey.read : (k : DexKey) → DexSwapsDb → k.Row
  | .row id, db => db.dexSwaps.lookup id
  | .idempotencyKey _, _ => ()

def DexWrite.touches : DexWrite → List DexKey
  | .put id _ => [.row id]
  | .addNetworkFee _ => []

/-- But for an insert and an update, no statement writes a swap. -/
theorem DexStmt.writes {st : DexStmt} {c : Core} {db : DexSwapsDb} {a : st.Ans}
    {ws : List DexWrite} (h : .ok (a, ws) ∈ st.eval c db) : ∀ w ∈ ws, match w with
      | .put id _ => .row id ∈ st.locks c db ∧
        ((∃ key input, st = .insertLocked id key input) ∨ ∃ u, st = .update id u)
      | .addNetworkFee _ => True := by
  intro w hw
  cases st with
  | insertLocked id key input =>
    simp only [DexStmt.eval] at h
    split at h
    · cases List.mem_singleton.1 h
    · cases List.mem_singleton.1 h
      cases List.mem_singleton.1 hw
      exact ⟨List.mem_cons_self, .inl ⟨key, input, rfl⟩⟩
  | update id u =>
    simp only [DexStmt.eval] at h
    split at h
    · rename_i r hr
      cases List.mem_singleton.1 h
      cases List.mem_singleton.1 hw
      simp [DexStmt.locks, hr]
    · cases List.mem_singleton.1 h; cases hw
  | listActive limit =>
    obtain ⟨l, -, hl⟩ := List.mem_map.1 h
    cases hl
    cases hw
  | recordNetworkFee fee =>
    simp only [DexStmt.eval] at h
    split at h
    · cases List.mem_singleton.1 h; cases hw
    · cases List.mem_singleton.1 h
      cases List.mem_singleton.1 hw; trivial
  | _ => cases List.mem_singleton.1 h; cases hw

def dexExt : Ext where
  Db := DexSwapsDb
  Key := DexKey
  Write := DexWrite
  Stmt := DexStmt
  Ans := DexStmt.Ans
  Call := DexCall
  Reply := DexCall.Reply
  locks := DexStmt.locks
  eval := DexStmt.eval
  apply := DexWrite.apply
  Row := DexKey.Row
  row := DexKey.read
  touches := DexWrite.touches
  row_apply := by
    intro k w db h
    cases w with
    | addNetworkFee fee => cases k <;> rfl
    | put id r =>
      cases k with
      | idempotencyKey key => rfl
      | row id' => exact AList.lookup_insert_ne (by simpa [DexWrite.touches] using h)
  row_congr := by
    intro k w db db' h
    cases k with
    | idempotencyKey key => rfl
    | row id =>
      cases w with
      | addNetworkFee fee => exact h
      | put id' r =>
        simp only [DexKey.read, DexWrite.apply] at h ⊢
        by_cases e : id = id'
        · subst e; simp only [AList.lookup_insert]
        · simpa only [AList.lookup_insert_ne e] using h
  covered := by
    intro st c db a ws h w hw k hk
    have := DexStmt.writes h w hw
    cases w with
    | put id r => cases List.mem_singleton.1 hk; exact this.1
    | addNetworkFee fee => cases hk

instance : DecidableEq dexExt.Key := inferInstanceAs (DecidableEq DexKey)

abbrev DexSwaps (ε α : Type) := Code (satsPay dexExt) ε α

section
variable {ε : Type} [FromErr DbError ε]

def dexQuery (st : DexStmt) : DexSwaps ε st.Ans := extQuery (X := dexExt) st
def dexPool (st : DexStmt) : DexSwaps ε st.Ans := extPool (X := dexExt) st

end

def dexCall {ε : Type} (c : DexCall) : DexSwaps ε c.Reply := invoke (S := satsPay dexExt) c

/-! ## Orders -/

inductive DexSwapError where
  | db (e : DbError)
  | ledger (e : LedgerError)
  | sameCoin
  | notFound
  | idempotencyConflict
  | badStatus (status : String)
  | swapNotFound
  | slippageExceeded

instance : FromErr DbError DexSwapError := ⟨.db⟩

/-- Which venues are set up, and how other crates print their values. -/
structure DexEnv where
  changenowConfigured : Bool
  relayConfigured : Bool
  /-- `BigDecimal`'s `to_string` -/
  numericText : ℕ → String
  /-- `str::to_uppercase` -/
  toUppercase : String → String
  dbText : DbError → String
  ledgerText : LedgerError → String
  malformedText : Payload → String

def DexSwapError.toText (E : DexEnv) : DexSwapError → String
  | .db e => E.dbText e
  | .ledger e => E.ledgerText e
  | .sameCoin => "fromCoin and toCoin must differ"
  | .notFound => "wallet not found"
  | .idempotencyConflict => "idempotency conflict"
  | .badStatus status => "invalid status transition from " ++ status
  | .swapNotFound => "swap not found"
  | .slippageExceeded => "slippage exceeded"

def mapRow (E : DexEnv) (id : Uuid) (r : DexSwap) : DexSwapRow :=
  { id := id, userId := r.userId, fromCoin := r.fromCoin, toCoin := r.toCoin,
    fromAmount := E.numericText r.fromAmount,
    expectedToAmount := E.numericText r.expectedToAmount,
    minToAmount := r.minToAmount.map E.numericText,
    actualToAmount := r.actualToAmount.map E.numericText, status := r.status,
    provider := r.provider, providers := r.providers, quoteId := r.quoteId, txHint := r.txHint,
    inboundMemo := r.inboundMemo, depositAddress := r.depositAddress, inboundTx := r.inboundTx,
    outboundTx := r.outboundTx, swapPayload := r.swapPayload, error := r.error }

section
variable (E : DexEnv)

def getById (id : Uuid) : DexSwaps DexSwapError (Option DexSwapRow) := do
  let row ← dexPool (.getById id)
  pure (row.map (mapRow E id))

def listActive (limit : ℕ) : DexSwaps DexSwapError (List DexSwapRow) := do
  let rows ← dexPool (.listActive limit)
  pure (rows.map fun r => mapRow E r.1 r.2)

def dexSwapOut (walletId id : Uuid) (input : LockDexSwapInput) : LedgerCreditInput :=
  ⟨walletId, -(input.fromAmount : ℚ), .dexSwapOut, some id, some "DexSwap", none,
    some ("DEX swap → " ++ input.toCoin.asStr)⟩

def dexSwapIn (walletId id : Uuid) (toAmount : ℕ) : LedgerCreditInput :=
  ⟨walletId, toAmount, .dexSwapIn, some id, some "DexSwap", none, some "DEX swap credit"⟩

def dexSwapRefund (walletId id : Uuid) (fromAmount : ℕ) (reason : String) : LedgerCreditInput :=
  ⟨walletId, fromAmount, .dexSwapRefund, some id, some "DexSwap",
    some ("dex-swap-refund:" ++ toString id), some reason⟩

inductive LockOutcome where
  | existing (id : Uuid) (r : DexSwap)
  | locked (id : Uuid)
  /-- The insert has met the unique index. -/
  | lost

def personalWallet (userId : Uuid) (coin : Coin) : DexSwaps DexSwapError Uuid := do
  match ← (coreQuery (.walletOf userId coin .personal) : DexSwaps DexSwapError (Option Uuid)) with
  | none => .throw .notFound
  | some id => .ret id

def lockTx (key : String) (input : LockDexSwapInput) : DexSwaps DexSwapError LockOutcome := do
  match ← (dexQuery (.findByIdempotency key) : DexSwaps DexSwapError (Option (Uuid × DexSwap))) with
  | some existing =>
    commit
    pure (.existing existing.1 existing.2)
  | none =>
    let fromWalletId ← personalWallet input.userId input.fromCoin
    let _ ← personalWallet input.userId input.toCoin
    (lockWallets [fromWalletId]).mapErr .ledger
    -- `gen_random_uuid()`, the default of the column
    let id ← dexCall .newUuid
    match ← (dexQuery (.insertLocked id key input) : DexSwaps DbError Unit).attempt with
    | .error .uniqueViolation => pure .lost
    | .error e => .throw (.db e)
    | .ok _ =>
      (applyLedgerEntry (dexSwapOut fromWalletId id input)).mapErr .ledger
      commit
      pure (.locked id)

def belowMin (amount : ℕ) : Option ℕ → Bool
  | none => false
  | some min => decide (amount < min)

/-- Debit `fromCoin` and insert a LOCKED row; the same key leads to the same row. -/
def lockAndCreate (input : LockDexSwapInput) : DexSwaps DexSwapError (DexSwapRow × Bool) :=
  if input.fromCoin = input.toCoin then .throw .sameCoin
  else if belowMin input.expectedToAmount input.minToAmount then .throw .slippageExceeded
  else do
    let key := toString input.userId ++ ":" ++ input.idempotencyKey
    match ← (dexPool (.findByIdempotency key) : DexSwaps DexSwapError (Option (Uuid × DexSwap))) with
    | some existing => pure (mapRow E existing.1 existing.2, false)
    | none =>
      match ← transaction (lockTx key input) with
      | .existing id r => pure (mapRow E id r, false)
      | .locked id =>
        match ← getById E id with
        | none => .throw .swapNotFound
        | some row => pure (row, true)
      | .lost =>
        match ← (dexPool (.findByIdempotency key) :
            DexSwaps DexSwapError (Option (Uuid × DexSwap))) with
        | some existing => pure (mapRow E existing.1 existing.2, false)
        | none => .throw .idempotencyConflict

end

def markBroadcasting (id : Uuid) (depositAddress : String) (memo : Option String)
    (swapPayload : Value) : DexSwaps DexSwapError Unit := do
  match ← (dexPool (.update id (.broadcasting depositAddress memo swapPayload)) :
      DexSwaps DexSwapError (Option DexSwap)) with
  | none => .throw (.badStatus "not LOCKED")
  | some _ => pure ()

def markInFlight (id : Uuid) (inboundTx : String) : DexSwaps DexSwapError Unit := do
  match ← (dexPool (.update id (.inFlight inboundTx)) :
      DexSwaps DexSwapError (Option DexSwap)) with
  | none => .throw (.badStatus "not BROADCASTING")
  | some _ => pure ()

def markFailed (id : Uuid) (error : String) : DexSwaps DexSwapError Unit := do
  let _ ← (dexPool (.update id (.failed error)) : DexSwaps DexSwapError (Option DexSwap))
  pure ()

def lockedRow (id : Uuid) : DexSwaps DexSwapError DexSwap := do
  match ← (dexQuery (.selectForUpdate id) : DexSwaps DexSwapError (Option DexSwap)) with
  | none => .throw .swapNotFound
  | some row => .ret row

def setRow (id : Uuid) (u : DexSwapUpdate) : DexSwaps DexSwapError Unit := do
  let _ ← (dexQuery (.update id u) : DexSwaps DexSwapError (Option DexSwap))
  pure ()

def creditable : DexSwapStatus → Bool
  | .inFlight | .crediting | .broadcasting => true
  | _ => false

def creditTx (id : Uuid) (toAmount : ℕ) (outboundTx : Option String) (row : DexSwap) :
    DexSwaps DexSwapError Unit := do
  setRow id .crediting
  let toWalletId ← personalWallet row.userId row.toCoin
  (lockWallets [toWalletId]).mapErr .ledger
  (applyLedgerEntry (dexSwapIn toWalletId id toAmount)).mapErr .ledger
  setRow id (.completed toAmount outboundTx)
  commit

def creditAndComplete (id : Uuid) (toAmount : ℕ) (outboundTx : Option String) :
    DexSwaps DexSwapError Unit :=
  transaction do
    let row ← lockedRow id
    if row.status = .completed then commit
    else if creditable row.status then creditTx id toAmount outboundTx row
    else .throw (.badStatus row.status.asStr)

def refundTx (id : Uuid) (reason : String) (row : DexSwap) : DexSwaps DexSwapError Unit := do
  setRow id (.refunding reason)
  let fromWalletId ← personalWallet row.userId row.fromCoin
  (lockWallets [fromWalletId]).mapErr .ledger
  (applyLedgerEntry (dexSwapRefund fromWalletId id row.fromAmount reason)).mapErr .ledger
  setRow id .refunded
  commit

def refund (id : Uuid) (reason : String) : DexSwaps DexSwapError Unit :=
  transaction do
    let row ← lockedRow id
    if row.status = .refunded then commit
    else if row.status = .completed ∨ row.status = .crediting then
      .throw (.badStatus row.status.asStr)
    else refundTx id reason row

end SatsPay
