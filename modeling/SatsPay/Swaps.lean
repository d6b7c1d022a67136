import SatsPay.Lend
import SatsPay.References
import SatsPay.SwapQuotes
import SatsPay.WithdrawalKeys

/-!
# Swaps against the house

A swap at the cached prices takes one coin from its user into the inventory of the house and
pays another out of it, once for each key of the user.
-/

namespace SatsPay

open Interleave ReadCommitted RowProtocol

/-! ## The tables -/

structure SwapRecord where
  userId : Uuid
  fromCoin : Coin
  toCoin : Coin
  fromAmount : ℕ
  toAmount : ℕ
  feeAmount : ℕ
  feeBps : ℕ
  priceFrom : ℕ
  priceTo : ℕ
  priceDecimals : ℕ
  idempotencyKey : Option String
  deriving DecidableEq

/-- Swaps are only ever inserted: the newest comes first. -/
structure SwapDb where
  swaps : List (Uuid × SwapRecord)
  prices : Coin → Option CachedPrice
  /-- The user with the e-mail address of the house. -/
  house : Option Uuid

def SwapDb.swapOf (db : SwapDb) (id : Uuid) : Option SwapRecord :=
  (db.swaps.find? fun r => r.1 == id).map Prod.snd

def SwapDb.byKey (db : SwapDb) (key : String) : Option (Uuid × SwapRecord) :=
  db.swaps.find? fun r => r.2.idempotencyKey == some key

inductive SwapStmt where
  | price (coin : Coin)
  | putPrice (coin : Coin) (price : CachedPrice)
  | findByIdempotencyKey (key : String)
  | insertSwap (id : Uuid) (r : SwapRecord)
  | findHouse

abbrev SwapStmt.Ans : SwapStmt → Type
  | .price _ => Option CachedPrice
  | .putPrice _ _ => Unit
  | .findByIdempotencyKey _ => Option (Uuid × SwapRecord)
  | .insertSwap _ _ => Unit
  | .findHouse => Option Uuid

inductive SwapWrite where
  | addSwap (id : Uuid) (r : SwapRecord)
  | putPrice (coin : Coin) (price : CachedPrice)

def SwapWrite.apply : SwapWrite → SwapDb → SwapDb
  | .addSwap id r, db => { db with swaps := (id, r) :: db.swaps }
  | .putPrice coin price, db => { db with prices := Function.update db.prices coin (some price) }

/-- `numeric(39, 0)` -/
def SwapRecord.fits (r : SwapRecord) : Bool :=
  decide (∀ n ∈ [r.fromAmount, r.toAmount, r.feeAmount, r.priceFrom, r.priceTo], n < 10 ^ 39)

def SwapStmt.eval : (st : SwapStmt) → Core → SwapDb →
    List (Except DbError (st.Ans × List SwapWrite))
  | .price coin, _, db => [.ok (db.prices coin, [])]
  | .putPrice coin p, _, _ => [.ok ((), [.putPrice coin p])]
  | .findByIdempotencyKey key, _, db => [.ok (db.byKey key, [])]
  | .insertSwap id r, _, db =>
    if !r.fits then [.error .numericOverflow]
    else if (db.swapOf id).isSome ∨ (r.idempotencyKey.bind db.byKey).isSome then
      [.error .uniqueViolation]
    else [.ok ((), [.addSwap id r])]
  | .findHouse, _, db => [.ok (db.house, [])]

/-- A row, and the entry of the unique index on `idempotency_key`. -/
inductive SwapKey where
  | row (id : Uuid)
  | idempotencyKey (key : String)
  | price (coin : Coin)
  deriving DecidableEq

def SwapStmt.locks : SwapStmt → Core → SwapDb → List SwapKey
  | .insertSwap id r, _, _ => .row id :: r.idempotencyKey.toList.map .idempotencyKey
  | .putPrice coin _, _, _ => [.price coin]
  | _, _, _ => []

abbrev SwapKey.Row : SwapKey → Type
  | .row _ => Option SwapRecord
  | .idempotencyKey _ => Option (Uuid × SwapRecord)
  | .price _ => Option CachedPrice

def SwapKey.read : (k : SwapKey) → SwapDb → k.Row
  | .row id, db => db.swapOf id
  | .idempotencyKey key, db => db.byKey key
  | .price coin, db => db.prices coin

def SwapWrite.touches : SwapWrite → List SwapKey
  | .addSwap id r => .row id :: r.idempotencyKey.toList.map .idempotencyKey
  | .putPrice coin _ => [.price coin]

theorem swapOf_add (id : Uuid) (r : SwapRecord) (db : SwapDb) (j : Uuid) :
    ((SwapWrite.addSwap id r).apply db).swapOf j = if j = id then some r else db.swapOf j := by
  simp only [SwapWrite.apply, SwapDb.swapOf]
  by_cases h : j = id
  · rw [List.find?_cons_of_pos (by simp [h]), if_pos h]
    rfl
  · rw [List.find?_cons_of_neg (by simp [Ne.symm h]), if_neg h]

theorem byKey_add (id : Uuid) (r : SwapRecord) (db : SwapDb) (key : String) :
    ((SwapWrite.addSwap id r).apply db).byKey key =
      if r.idempotencyKey = some key then some (id, r) else db.byKey key := by
  simp only [SwapWrite.apply, SwapDb.byKey]
  by_cases h : r.idempotencyKey = some key
  · rw [List.find?_cons_of_pos (by simp [h]), if_pos h]
  · rw [List.find?_cons_of_neg (by simp [h]), if_neg h]

theorem insertSwap_ok {id : Uuid} {r : SwapRecord} {c : Core} {db : SwapDb} {a : Unit}
    {ws : List SwapWrite} (h : .ok (a, ws) ∈ (SwapStmt.insertSwap id r).eval c db) :
    db.swapOf id = none ∧ r.idempotencyKey.bind db.byKey = none ∧ ws = [.addSwap id r] := by
  simp only [SwapStmt.eval] at h
  split at h
  · cases List.mem_singleton.1 h
  · split at h
    · cases List.mem_singleton.1 h
    · rename_i hn
      cases List.mem_singleton.1 h
      rw [not_or] at hn
      exact ⟨by simpa using hn.1, by simpa using hn.2, rfl⟩

inductive SwapServiceError where
  | db (e : DbError)
  /-- `Db` of the text of a ledger error. -/
  | ledger (e : LedgerError)
  | house (e : HouseError)
  | outbox (e : DbError)
  | quote (e : SwapError)
  | pricing (e : PricingDbError)
  | sameCoin
  | amountTooSmall
  | slippageExceeded
  | notFound
  /-- The task ends. -/
  | panicked

instance : FromErr DbError SwapServiceError := ⟨.db⟩

structure SwapRow where
  id : Uuid
  fromAmount : ℕ
  toAmount : ℕ
  feeAmount : ℕ

structure SwapRequest where
  userId : Uuid
  fromCoin : Coin
  toCoin : Coin
  fromAmount : ℕ
  minToAmount : Option ℕ
  idempotencyKey : String
  /-- The amount is a `u128`. -/
  bounded : fromAmount < 2 ^ 128

def SwapRequest.scopedKey (req : SwapRequest) : String :=
  SatsPay.scopedKey req.userId req.idempotencyKey

/-- The server's clock, a generated id, the prices that the providers agree on, and what a
request is answered. -/
inductive SwapCall where
  | utcNow
  | newSwapId
  | fetchUsdPrices
  | answer (req : SwapRequest) (r : Except SwapServiceError (SwapRow × Bool))

/-- A fetched price is scaled and rounded. -/
abbrev SwapCall.Reply : SwapCall → Type
  | .utcNow => Instant
  | .newSwapId => Uuid
  | .fetchUsdPrices => Option (List (Coin × ℤ))
  | .answer _ _ => Unit

def swapTables : Ext where
  Db := SwapDb
  Key := SwapKey
  Write := SwapWrite
  Stmt := SwapStmt
  Ans := SwapStmt.Ans
  Call := SwapCall
  Reply := SwapCall.Reply
  locks := SwapStmt.locks
  eval := SwapStmt.eval
  apply := SwapWrite.apply
  Row := SwapKey.Row
  row := SwapKey.read
  touches := SwapWrite.touches
  row_apply k w db h := by
    cases w with
    | addSwap id r =>
      simp only [SwapWrite.touches, List.mem_cons, List.mem_map, Option.mem_toList, not_or,
        not_exists, not_and] at h
      cases k with
      | row j => exact (swapOf_add id r db j).trans (if_neg fun e => h.1 (congrArg _ e))
      | idempotencyKey key =>
        exact (byKey_add id r db key).trans (if_neg fun e => h.2 key e rfl)
      | price coin => rfl
    | putPrice coin price =>
      cases k with
      | row j => rfl
      | idempotencyKey key => rfl
      | price c =>
        exact Function.update_of_ne (fun e => h (by rw [e]; exact List.mem_singleton_self _)) _ _
  row_congr k w db db' h := by
    cases w with
    | addSwap id r =>
      cases k with
      | row j =>
        have h' : db'.swapOf j = db.swapOf j := h
        show SwapDb.swapOf _ j = SwapDb.swapOf _ j
        rw [swapOf_add, swapOf_add, h']
      | idempotencyKey key =>
        have h' : db'.byKey key = db.byKey key := h
        show SwapDb.byKey _ key = SwapDb.byKey _ key
        rw [byKey_add, byKey_add, h']
      | price c => exact h
    | putPrice coin price =>
      cases k with
      | row j => exact h
      | idempotencyKey key => exact h
      | price c =>
        have h' : db'.prices c = db.prices c := h
        show Function.update _ coin _ c = Function.update _ coin _ c
        by_cases e : c = coin
        · rw [e, Function.update_self, Function.update_self]
        · rw [Function.update_of_ne e, Function.update_of_ne e, h']
  covered st c db a ws h w hw k hk := by
    cases st with
    | insertSwap id r =>
      obtain ⟨-, -, rfl⟩ := insertSwap_ok h
      cases List.mem_singleton.1 hw
      exact hk
    | putPrice coin price =>
      cases List.mem_singleton.1 h
      cases List.mem_singleton.1 hw
      exact hk
    | price coin | findByIdempotencyKey key | findHouse =>
      cases List.mem_singleton.1 h
      cases hw

instance : DecidableEq swapTables.Key := inferInstanceAs (DecidableEq SwapKey)

abbrev swapExt : Ext := swapTables.sum noExt

abbrev Swapping (ε α : Type) := Code (satsPay swapExt) ε α

section
variable {ε : Type}

def swapQuery [FromErr DbError ε] (st : SwapStmt) : Swapping ε st.Ans :=
  leftQuery (X := swapTables) (Y := noExt) st

def swapPool [FromErr DbError ε] (st : SwapStmt) : Swapping ε st.Ans :=
  extPool (X := swapExt) (.inl st)

def swapCall (c : SwapCall) : Swapping ε c.Reply := invoke (S := satsPay swapExt) (.inl c)

end

def swapHouse : Swapping HouseError (Option Uuid) := swapQuery .findHouse

/-! ## Quotes -/

def swapFeeBps : ℕ := 25

def getSwapPrice (coin : Coin) (maxStale : ℕ) : Swapping PricingDbError (ℕ × ℕ) := do
  let row ← swapPool (.price coin)
  match row with
  | none => .throw (.noCachedPrice coin)
  | some r => do
    let now ← swapCall .utcNow
    .ofExcept (openPrice coin maxStale now r)

def swapQuote (fromCoin toCoin : Coin) (fromAmount maxStale : ℕ) :
    Swapping SwapServiceError SwapQuote :=
  if fromCoin = toCoin then .throw .sameCoin
  else do
    let from_ ← (getSwapPrice fromCoin maxStale).mapErr .pricing
    let to_ ← (getSwapPrice toCoin maxStale).mapErr .pricing
    -- that the two have the same decimals is asserted in debug builds only
    match computeSwap fromCoin toCoin fromAmount from_.1 to_.1 swapFeeBps from_.2 with
    | none => .throw .panicked
    | some (.error e) => .throw (.quote e)
    | some (.ok q) => pure q

/-! ## Swaps -/

def readSwap (r : Uuid × SwapRecord) : SwapRow :=
  ⟨r.1, readU128 0 r.2.fromAmount, readU128 0 r.2.toAmount, readU128 0 r.2.feeAmount⟩

def SwapRequest.record (req : SwapRequest) (q : SwapQuote) : SwapRecord :=
  ⟨req.userId, req.fromCoin, req.toCoin, q.fromAmount, q.toAmount, q.feeAmount, q.feeBps,
    q.priceFrom, q.priceTo, q.priceDecimals, some req.scopedKey⟩

def swapExecuted (swapId walletId : Uuid) (r : SwapRecord) : DomainEvent :=
  .swapExecuted swapId walletId r.fromCoin.asStr r.toCoin.asStr (toString r.fromAmount)
    (toString r.toAmount) (toString r.feeAmount)

/-- `Swap intake from user {}…` of the first eight characters of the id, and the payout. -/
def intakeMemo (userId : Uuid) : String :=
  "Swap intake from user " ++ String.ofList ((toString userId).toList.take 8) ++ "…"

def payoutMemo (userId : Uuid) : String :=
  "Swap payout to user " ++ String.ofList ((toString userId).toList.take 8) ++ "…"

def swapEntries (swapId fromWalletId toWalletId : Uuid) (r : SwapRecord) :
    Swapping SwapServiceError Unit := do
  (applyLedgerEntry (referenced fromWalletId (-r.fromAmount) .swapOut swapId "Swap"
    ("Swap → " ++ r.toCoin.asStr))).mapErr .ledger
  (creditHouse swapHouse r.fromCoin r.fromAmount .swapIn swapId "Swap"
    (intakeMemo r.userId)).mapErr .house
  (debitHouse swapHouse r.toCoin r.toAmount .swapOut swapId "Swap"
    (payoutMemo r.userId)).mapErr .house
  (applyLedgerEntry (referenced toWalletId r.toAmount .swapIn swapId "Swap"
    ("Swap from " ++ r.fromCoin.asStr))).mapErr .ledger

/-- The row with its entries; nothing where the insert meets the unique index. -/
def insertAndSettle (fromWalletId toWalletId : Uuid) (r : SwapRecord) :
    Swapping SwapServiceError (Option (SwapRow × Bool)) := do
  let swapId ← swapCall .newSwapId
  let inserted ← (swapQuery (.insertSwap swapId r) : Swapping DbError Unit).attempt
  match inserted with
  | .error .uniqueViolation => pure none
  | .error e => .throw (.db e)
  | .ok () => do
    swapEntries swapId fromWalletId toWalletId r
    (coreQuery (.insertOutbox (swapExecuted swapId fromWalletId r)) :
      Swapping DbError Unit).mapErr .outbox
    commit
    pure (some (⟨swapId, r.fromAmount, r.toAmount, r.feeAmount⟩, true))

def executeTx (r : SwapRecord) (scopedKey : String) :
    Swapping SwapServiceError (Option (SwapRow × Bool)) := do
  let existing ← swapQuery (.findByIdempotencyKey scopedKey)
  match existing with
  | some row => do
    commit
    pure (some (readSwap row, false))
  | none => do
    let fromWallet ← coreQuery (.walletOf r.userId r.fromCoin .personal)
    let toWallet ← coreQuery (.walletOf r.userId r.toCoin .personal)
    match fromWallet, toWallet with
    | some fromWalletId, some toWalletId => do
      let fromHouseId ← (getHouseWalletId swapHouse r.fromCoin).mapErr .house
      let toHouseId ← (getHouseWalletId swapHouse r.toCoin).mapErr .house
      (lockWallets [fromWalletId, toWalletId, fromHouseId, toHouseId]).mapErr .ledger
      insertAndSettle fromWalletId toWalletId r
    | _, _ => .throw .notFound

def replaySwap (scopedKey : String) : Swapping SwapServiceError (Option (SwapRow × Bool)) := do
  let existing ← swapPool (.findByIdempotencyKey scopedKey)
  pure (existing.map fun row => (readSwap row, false))

/-- The row, and whether this call made it. -/
def executeSwap (maxStale : ℕ) (req : SwapRequest) : Swapping SwapServiceError (SwapRow × Bool) := do
  let q ← swapQuote req.fromCoin req.toCoin req.fromAmount maxStale
  if q.toAmount = 0 then .throw .amountTooSmall
  else if req.minToAmount.any (q.toAmount < ·) then .throw .slippageExceeded
  else do
    let existing ← replaySwap req.scopedKey
    match existing with
    | some found => pure found
    | none => do
      let made ← transaction (executeTx (req.record q) req.scopedKey)
      match made with
      | some done => pure done
      | none => do
        -- the insert has lost against another with the same key
        let winner ← replaySwap req.scopedKey
        match winner with
        | some found => pure found
        | none => .throw .notFound

/-! ## Prices -/

def putPrices (now : Instant) (priceDecimals : ℕ) : List (Coin × ℤ) → Swapping PricingDbError Unit
  | [] => pure ()
  | p :: prices => do
    swapQuery (.putPrice p.1 ⟨p.2, priceDecimals, now⟩)
    putPrices now priceDecimals prices

/-- Nothing is changed where the providers do not agree. -/
def refreshAll (priceDecimals : ℕ) : Swapping PricingDbError Unit := do
  let fetched ← swapCall .fetchUsdPrices
  match fetched with
  | none => pure ()
  | some prices => do
    let now ← swapCall .utcNow
    transaction (do
      putPrices now priceDecimals prices
      commit)

/-! ## What runs -/

/-- Entries that other parts of the system make, in a transaction of theirs. -/
def postEntries (inputs : List LedgerCreditInput) : Swapping SwapServiceError Unit :=
  transaction (do
    inputs.forM fun input => (applyLedgerEntry input).mapErr .ledger
    commit)

def serveSwap (maxStale : ℕ) (req : SwapRequest) : Swapping Empty Unit :=
  (executeSwap maxStale req).attempt >>= fun r => swapCall (.answer req r) >>= fun _ => pure ()

/-- Any requests of any users, among refreshed prices and entries that are not of swaps. -/
inductive SwapProcess (maxStale : ℕ) : Swapping Empty Unit → Prop
  | serve (req : SwapRequest) : SwapProcess maxStale (serveSwap maxStale req)
  | refresh (priceDecimals : ℕ) : SwapProcess maxStale (refreshAll priceDecimals).spawn
  | post (inputs : List LedgerCreditInput)
      (h : ∀ input ∈ inputs, input.referenceType ≠ some "Swap") :
      SwapProcess maxStale (postEntries inputs).spawn

end SatsPay
