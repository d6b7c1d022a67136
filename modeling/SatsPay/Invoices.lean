import SatsPay.InvoiceAmounts
import SatsPay.Transfers
import SatsPay.Fallible

/-!
# Invoices of merchants

An invoice is paid out of the balance of a user, or on chain at one of the addresses that it has
shown; either credits its merchant, whose wallet is made where there is none.
-/

namespace SatsPay

open Interleave ReadCommitted RowProtocol

/-! ## The tables -/

inductive InvoiceStatus where
  | pending | detected | confirmed | expired | cancelled
  deriving DecidableEq, Repr

structure Invoice where
  merchantId : Uuid
  orderId : String
  coin : Coin
  amount : ℚ
  feeAmount : ℚ
  netAmount : ℚ
  depositAddress : String
  hdIndex : Option ℤ
  txHash : Option String
  confirmations : ℤ
  receivedAmount : ℚ
  status : InvoiceStatus
  expiresAt : Time
  paidAt : Option Time
  acceptedCoins : List Coin
  priceUsdScaled : Option ℚ
  coinLockedAt : Option Time
  quotePriceScaled : Option ℚ
  deriving DecidableEq

/-- An address that an invoice has shown, with the amount that is locked for its coin. -/
structure InvoiceAddressRow extends InvoiceAddress where
  invoiceId : Uuid
  hdIndex : Option ℤ
  quotePriceScaled : Option ℚ

structure InvoiceDb where
  invoices : Table Invoice
  /-- Newest first. -/
  addresses : List InvoiceAddressRow

/-- The value a `numeric(38, 18)` column stores. -/
def numeric38 (q : ℚ) : Except DbError ℚ :=
  let n := roundHalfAway (q * 10 ^ 18)
  if |n| < 10 ^ 38 then .ok (n / 10 ^ 18) else .error .numericOverflow

def numeric38? : Option ℚ → Except DbError (Option ℚ)
  | none => .ok none
  | some q => (numeric38 q).map some

def Invoice.isOpen (r : Invoice) : Bool := r.status = .pending || r.status = .detected

inductive InvoiceUpdate where
  | confirm (txHash : Option String)
  | payInternally
  | markDetected (received : ℚ) (confirmations : ℤ) (txHash : Option String)
  | select (coin : Coin) (addr : InvoiceAddressRow) (fee net : ℚ) (lock : Bool)
  | lockCoin
  | pointSelectionAt (coin : Coin) (addr : InvoiceAddressRow) (fee net : ℚ)
  | markSwept

def Invoice.selected (r : Invoice) (coin : Coin) (addr : InvoiceAddressRow) (fee net : ℚ) :
    Except DbError Invoice := do
  let amount ← numeric38 addr.amount
  let fee ← numeric38 fee
  let net ← numeric38 net
  let quote ← numeric38? addr.quotePriceScaled
  pure { r with
    coin := coin, amount := amount, feeAmount := fee, netAmount := net,
    depositAddress := addr.address, hdIndex := addr.hdIndex, quotePriceScaled := quote }

def InvoiceUpdate.row (now : Time) (r : Invoice) : InvoiceUpdate → Except DbError (Option Invoice)
  | .confirm txHash =>
    .ok (some { r with status := .confirmed, txHash := txHash.or r.txHash, paidAt := some now })
  | .payInternally =>
    .ok (some { r with
      status := .confirmed, txHash := some "internal_satspay", receivedAmount := r.amount,
      paidAt := some now })
  | .markDetected received confirmations txHash =>
    if r.isOpen then
      (numeric38 received).map fun received => some { r with
        status := .detected, receivedAmount := received, confirmations := confirmations,
        txHash := txHash.or r.txHash }
    else .ok none
  | .select coin addr fee net lock =>
    if r.coinLockedAt.isNone ∧ r.status = .pending ∧ now < r.expiresAt then
      (r.selected coin addr fee net).map fun r => some { r with
        coinLockedAt := if lock then some now else r.coinLockedAt }
    else .ok none
  | .lockCoin =>
    .ok (if r.coinLockedAt.isNone then some { r with coinLockedAt := some now } else none)
  | .pointSelectionAt coin addr fee net =>
    if r.status ≠ .confirmed then (r.selected coin addr fee net).map some else .ok none
  | .markSwept => .ok (some { r with hdIndex := none })

inductive InvoiceStmt where
  | insertInvoice (r : Invoice)
  | upsertAddress (a : InvoiceAddressRow)
  | findAddress (invoiceId : Uuid) (coin : Coin)
  | listAddresses (invoiceId : Uuid)
  | lockInvoice (id : Uuid)
  | invoiceById (id : Uuid)
  | openInvoices (limit : ℕ)
  | countAtAddress (address : String)
  | update (id : Uuid) (u : InvoiceUpdate)
  | expireDue

/-- An update answers how many rows it has changed. -/
abbrev InvoiceStmt.Ans : InvoiceStmt → Type
  | .insertInvoice _ => Uuid × Invoice
  | .upsertAddress _ => InvoiceAddressRow
  | .findAddress _ _ => Option InvoiceAddressRow
  | .listAddresses _ => List InvoiceAddressRow
  | .lockInvoice _ => Option Invoice
  | .invoiceById _ => Option Invoice
  | .openInvoices _ => List (Uuid × Invoice)
  | .countAtAddress _ => ℕ
  | .update _ _ => ℕ
  | .expireDue => ℕ

inductive InvoiceWrite where
  | putInvoice (id : Uuid) (r : Invoice)
  | addAddress (a : InvoiceAddressRow)

def InvoiceWrite.apply : InvoiceWrite → InvoiceDb → InvoiceDb
  | .putInvoice id r, db => { db with invoices := db.invoices.insert id r }
  | .addAddress a, db => { db with addresses := a :: db.addresses }

def InvoiceDb.newId (db : InvoiceDb) : Uuid := (db.invoices.keys.foldr max 0) + 1

def InvoiceDb.ordered (db : InvoiceDb) (merchantId : Uuid) (orderId : String) : Bool :=
  db.invoices.entries.any fun e => e.2.merchantId == merchantId && e.2.orderId == orderId

def InvoiceDb.addressOf (db : InvoiceDb) (invoiceId : Uuid) (coin : Coin) :
    Option InvoiceAddressRow :=
  db.addresses.find? fun a => a.invoiceId == invoiceId && a.coin == coin

def InvoiceDb.due (db : InvoiceDb) (now : Time) : List (Uuid × Invoice) :=
  (db.invoices.entries.map fun e => (e.1, e.2)).filter fun e => e.2.isOpen && decide (e.2.expiresAt ≤ now)

def InvoiceDb.open (db : InvoiceDb) (now : Time) : List (Uuid × Invoice) :=
  (db.invoices.entries.map fun e => (e.1, e.2)).filter fun e => e.2.isOpen && decide (now < e.2.expiresAt)

def Invoice.stored (r : Invoice) : Except DbError Invoice := do
  let amount ← numeric38 r.amount
  let fee ← numeric38 r.feeAmount
  let net ← numeric38 r.netAmount
  let usd ← numeric38? r.priceUsdScaled
  let quote ← numeric38? r.quotePriceScaled
  pure { r with
    amount := amount, feeAmount := fee, netAmount := net, priceUsdScaled := usd,
    quotePriceScaled := quote }

def InvoiceAddressRow.stored (a : InvoiceAddressRow) : Except DbError InvoiceAddressRow := do
  let amount ← numeric38 a.amount
  let quote ← numeric38? a.quotePriceScaled
  pure { a with amount := amount, quotePriceScaled := quote }

abbrev InvoiceOutcome (α : Type) := List (Except DbError (α × List InvoiceWrite))

def InvoiceDb.insertInvoice (db : InvoiceDb) (r : Invoice) : InvoiceOutcome (Uuid × Invoice) :=
  match r.stored with
  | .error e => [.error e]
  | .ok r =>
    if db.ordered r.merchantId r.orderId then [.error .uniqueViolation]
    -- the table of users is not in the model: there may be no such merchant
    else [.ok ((db.newId, r), [.putInvoice db.newId r]), .error .foreignKey]

def InvoiceDb.upsertAddress (db : InvoiceDb) (a : InvoiceAddressRow) :
    InvoiceOutcome InvoiceAddressRow :=
  match a.stored with
  | .error e => [.error e]
  | .ok a =>
    match db.addressOf a.invoiceId a.coin with
    | some old => [.ok (old, [])]
    | none =>
      if (db.invoices.lookup a.invoiceId).isSome then [.ok (a, [.addAddress a])]
      else [.error .foreignKey]

def InvoiceDb.update (db : InvoiceDb) (now : Time) (i : Uuid) (u : InvoiceUpdate) : InvoiceOutcome ℕ :=
  match db.invoices.lookup i with
  | none => [.ok (0, [])]
  | some r =>
    match u.row now r with
    | .error e => [.error e]
    | .ok none => [.ok (0, [])]
    | .ok (some r) => [.ok (1, [.putInvoice i r])]

/-- By `expires_at`: those of one time come in any order. -/
def InvoiceDb.openInvoices (db : InvoiceDb) (now : Time) (limit : ℕ) :
    InvoiceOutcome (List (Uuid × Invoice)) :=
  ((db.open now).permutations.filter fun l =>
    decide (l.Pairwise fun a b => a.2.expiresAt ≤ b.2.expiresAt)).map fun l => .ok (l.take limit, [])

def InvoiceDb.expireDue (db : InvoiceDb) (now : Time) : InvoiceOutcome ℕ :=
  [.ok ((db.due now).length,
    (db.due now).map fun e => .putInvoice e.1 { e.2 with status := .expired })]

def InvoiceStmt.eval : (st : InvoiceStmt) → Core → InvoiceDb → InvoiceOutcome st.Ans
  | .insertInvoice r, _, db => db.insertInvoice r
  | .upsertAddress a, _, db => db.upsertAddress a
  | .findAddress i coin, _, db => [.ok (db.addressOf i coin, [])]
  | .listAddresses i, _, db => [.ok ((db.addresses.filter (·.invoiceId == i)).reverse, [])]
  | .lockInvoice i, _, db => [.ok (db.invoices.lookup i, [])]
  | .invoiceById i, _, db => [.ok (db.invoices.lookup i, [])]
  | .openInvoices limit, c, db => db.openInvoices c.now limit
  | .countAtAddress address, _, db =>
    [.ok (db.invoices.entries.countP fun e => e.2.depositAddress == address, [])]
  | .update i u, c, db => db.update c.now i u
  | .expireDue, c, db => db.expireDue c.now

inductive InvoiceKey where
  | invoice (id : Uuid)
  | order (merchantId : Uuid) (orderId : String)
  | address (invoiceId : Uuid) (coin : Coin)
  deriving DecidableEq

def InvoiceStmt.locks : InvoiceStmt → Core → InvoiceDb → List InvoiceKey
  | .insertInvoice r, _, db => [.invoice db.newId, .order r.merchantId r.orderId]
  | .upsertAddress a, _, _ => [.address a.invoiceId a.coin]
  | .lockInvoice i, _, db | .update i _, _, db =>
    if (db.invoices.lookup i).isSome then [.invoice i] else []
  | .expireDue, c, db => (db.due c.now).map fun e => .invoice e.1
  | _, _, _ => []

abbrev InvoiceKey.Row : InvoiceKey → Type
  | .invoice _ => Option Invoice
  | .order _ _ | .address _ _ => Unit

def InvoiceKey.read : (k : InvoiceKey) → InvoiceDb → k.Row
  | .invoice i, db => db.invoices.lookup i
  | .order _ _, _ | .address _ _, _ => ()

def InvoiceWrite.touches : InvoiceWrite → List InvoiceKey
  | .putInvoice i _ => [.invoice i]
  | .addAddress a => [.address a.invoiceId a.coin]

inductive MerchantDepositError where
  | db (e : DbError)
  | ledger (e : LedgerError)
  | notFound
  | invalidStatus
  | insufficientBalance
  | merchantWalletNotFound
  | payerWalletNotFound
  | payerIsMerchant
  | duplicateOrderId
  /-- `Db` of a protocol error with the text of `e`. -/
  | addressNotStored (e : DbError)

instance : FromErr DbError MerchantDepositError := ⟨.db⟩

/-- The server's clock, the id of a wallet that is made, what the chain shows at an address, what
is derived for a merchant, a cached price, and what a payer is told. -/
inductive InvoiceCall where
  | utcNow
  | newWalletId
  | fetchDeposits (coin : Coin) (address : String)
  | generateAddress (coin : Coin) (merchantId : Uuid)
  | getPrice (coin : Coin)
  | sweepDepositToHot (coin : Coin) (index : ℕ)
  | answer (invoiceId userId : Uuid) (r : Except MerchantDepositError Invoice)

abbrev InvoiceCall.Reply : InvoiceCall → Type
  | .utcNow => Time
  | .newWalletId => Uuid
  | .fetchDeposits _ _ => Except ChainError (List OnchainTx)
  | .generateAddress _ _ => Except ChainError (String × Option ℕ)
  | .getPrice _ => Except Unit (ℕ × ℕ)
  | .sweepDepositToHot _ _ => Except ChainError Bool
  | .answer _ _ _ => Unit

section
variable {db : InvoiceDb} {ws : List InvoiceWrite}

theorem invoiceUpdate_ok {i : Uuid} {u : InvoiceUpdate} {now : Time} {n : ℕ}
    (h : .ok (n, ws) ∈ db.update now i u) :
    (n = 0 ∧ ws = []) ∨ ∃ r r', db.invoices.lookup i = some r ∧ u.row now r = .ok (some r') ∧
      n = 1 ∧ ws = [.putInvoice i r'] := by
  unfold InvoiceDb.update at h
  split at h
  · cases List.mem_singleton.1 h
    exact .inl ⟨rfl, rfl⟩
  · rename_i r hr
    split at h
    · cases List.mem_singleton.1 h
    · cases List.mem_singleton.1 h
      exact .inl ⟨rfl, rfl⟩
    · rename_i r' hu
      cases List.mem_singleton.1 h
      exact .inr ⟨r, r', hr, hu, rfl, rfl⟩

theorem insertInvoice_ok {r : Invoice} {a : Uuid × Invoice}
    (h : .ok (a, ws) ∈ db.insertInvoice r) :
    ∃ r', r.stored = .ok r' ∧ db.ordered r'.merchantId r'.orderId = false ∧ a = (db.newId, r') ∧
      ws = [.putInvoice db.newId r'] := by
  unfold InvoiceDb.insertInvoice at h
  split at h
  · cases List.mem_singleton.1 h
  · rename_i r' hr
    split at h
    · cases List.mem_singleton.1 h
    · rename_i hn
      rcases List.mem_cons.1 h with h | h
      · cases h
        exact ⟨r', hr, by simpa using hn, rfl, rfl⟩
      · cases List.mem_singleton.1 h

theorem stored_ok {r r' : Invoice} (h : r.stored = .ok r') :
    ∃ amount fee net, numeric38 r.amount = .ok amount ∧ numeric38 r.feeAmount = .ok fee ∧
      numeric38 r.netAmount = .ok net ∧ ∃ usd quote, r' = { r with
        amount := amount, feeAmount := fee, netAmount := net, priceUsdScaled := usd,
        quotePriceScaled := quote } := by
  unfold Invoice.stored at h
  obtain ⟨amount, ha, h⟩ := Fallible.bind_eq_ok h
  obtain ⟨fee, hf, h⟩ := Fallible.bind_eq_ok h
  obtain ⟨net, hn, h⟩ := Fallible.bind_eq_ok h
  obtain ⟨usd, -, h⟩ := Fallible.bind_eq_ok h
  obtain ⟨quote, -, h⟩ := Fallible.bind_eq_ok h
  cases h
  exact ⟨amount, fee, net, ha, hf, hn, usd, quote, rfl⟩

theorem addressStored_ok {a b : InvoiceAddressRow} (h : a.stored = .ok b) :
    b.invoiceId = a.invoiceId ∧ b.coin = a.coin := by
  unfold InvoiceAddressRow.stored at h
  obtain ⟨amount, -, h⟩ := Fallible.bind_eq_ok h
  obtain ⟨quote, -, h⟩ := Fallible.bind_eq_ok h
  cases h
  exact ⟨rfl, rfl⟩

theorem upsertAddress_ok {a b : InvoiceAddressRow} (h : .ok (b, ws) ∈ db.upsertAddress a) :
    (ws = [] ∧ b ∈ db.addresses) ∨ ws = [.addAddress b] ∧ a.stored = .ok b := by
  unfold InvoiceDb.upsertAddress at h
  split at h
  · cases List.mem_singleton.1 h
  · rename_i a' ha
    split at h
    · rename_i old hold
      cases List.mem_singleton.1 h
      exact .inl ⟨rfl, List.mem_of_find?_eq_some hold⟩
    · split at h
      · cases List.mem_singleton.1 h
        exact .inr ⟨rfl, ha⟩
      · cases List.mem_singleton.1 h

theorem openInvoices_ok {now : Time} {limit : ℕ} {l : List (Uuid × Invoice)}
    (h : .ok (l, ws) ∈ db.openInvoices now limit) : ws = [] := by
  obtain ⟨l', -, hl⟩ := List.mem_map.1 h
  cases hl
  rfl

end

def invoiceTables : Ext where
  Db := InvoiceDb
  Key := InvoiceKey
  Write := InvoiceWrite
  Stmt := InvoiceStmt
  Ans := InvoiceStmt.Ans
  Call := InvoiceCall
  Reply := InvoiceCall.Reply
  locks := InvoiceStmt.locks
  eval := InvoiceStmt.eval
  apply := InvoiceWrite.apply
  Row := InvoiceKey.Row
  row := InvoiceKey.read
  touches := InvoiceWrite.touches
  row_apply k w db h := by
    cases k with
    | order merchantId orderId | address i coin => rfl
    | invoice i =>
      cases w with
      | addAddress a => rfl
      | putInvoice j r =>
        exact AList.lookup_insert_ne fun e => h (by rw [e]; exact List.mem_singleton_self _)
  row_congr k w db db' h := by
    cases k with
    | order merchantId orderId | address i coin => rfl
    | invoice i =>
      cases w with
      | addAddress a => exact h
      | putInvoice j r =>
        have h' : db'.invoices.lookup i = db.invoices.lookup i := h
        show (db'.invoices.insert j r).lookup i = (db.invoices.insert j r).lookup i
        by_cases e : i = j
        · rw [e, AList.lookup_insert, AList.lookup_insert]
        · rw [AList.lookup_insert_ne e, AList.lookup_insert_ne e, h']
  covered st c db a ws h w hw k hk := by
    cases st with
    | insertInvoice r =>
      obtain ⟨r', -, -, -, rfl⟩ := insertInvoice_ok h
      cases List.mem_singleton.1 hw
      cases List.mem_singleton.1 hk
      exact List.mem_cons_self
    | upsertAddress b =>
      rcases upsertAddress_ok h with ⟨rfl, -⟩ | ⟨rfl, hb⟩
      · cases hw
      · obtain ⟨hi, hc⟩ := addressStored_ok hb
        cases List.mem_singleton.1 hw
        cases List.mem_singleton.1 hk
        rw [hi, hc]
        exact List.mem_singleton_self _
    | update i u =>
      rcases invoiceUpdate_ok h with ⟨-, rfl⟩ | ⟨r, r', hr, -, -, rfl⟩
      · cases hw
      · cases List.mem_singleton.1 hw
        cases List.mem_singleton.1 hk
        simp [InvoiceStmt.locks, hr]
    | expireDue =>
      cases List.mem_singleton.1 h
      obtain ⟨e, he, rfl⟩ := List.mem_map.1 hw
      cases List.mem_singleton.1 hk
      exact List.mem_map.2 ⟨e, he, rfl⟩
    | openInvoices limit =>
      obtain rfl := openInvoices_ok h
      cases hw
    | findAddress | listAddresses | lockInvoice | invoiceById | countAtAddress =>
      cases List.mem_singleton.1 h
      cases hw

instance : DecidableEq invoiceTables.Key := inferInstanceAs (DecidableEq InvoiceKey)

abbrev Invoicing (ε α : Type) := Code (walletStore invoiceTables) ε α

section
variable {ε : Type}

def invoiceQuery [FromErr DbError ε] (st : InvoiceStmt) : Invoicing ε st.Ans :=
  query (S := walletStore invoiceTables) (.base (.ext st))

def invoicePool [FromErr DbError ε] (st : InvoiceStmt) : Invoicing ε st.Ans :=
  poolQuery (S := walletStore invoiceTables) (.base (.ext st))

def invoiceCall (c : InvoiceCall) : Invoicing ε c.Reply :=
  invoke (S := walletStore invoiceTables) c

end

/-! ## Creation -/

def gatewayFeeBps : ℕ := 25

/-- The fee, in whole units of the ledger, and what is left. -/
def splitFee (amount : ℚ) : ℚ × ℚ :=
  let fee : ℚ := truncate (amount * gatewayFeeBps / 10000)
  (fee, amount - fee)

structure CreateDepositInvoiceInput where
  merchantId : Uuid
  orderId : String
  coin : Coin
  amount : ℚ
  depositAddress : String
  hdIndex : Option ℤ
  expiryMinutes : Option ℤ
  acceptedCoins : List Coin
  priceUsdScaled : Option ℚ
  quotePriceScaled : Option ℚ

/-- The coin that is offered is always among them. -/
def CreateDepositInvoiceInput.accepted (input : CreateDepositInvoiceInput) : List Coin :=
  if input.coin ∈ input.acceptedCoins then input.acceptedCoins
  else input.acceptedCoins ++ [input.coin]

def CreateDepositInvoiceInput.expiryMins (input : CreateDepositInvoiceInput) : ℕ :=
  (min (max (input.expiryMinutes.getD 60) 5) 1440).toNat

def CreateDepositInvoiceInput.invoice (input : CreateDepositInvoiceInput) (now : Time)
    (lockedAt : Option Time) : Invoice where
  merchantId := input.merchantId
  orderId := input.orderId
  coin := input.coin
  amount := input.amount
  feeAmount := (splitFee input.amount).1
  netAmount := (splitFee input.amount).2
  depositAddress := input.depositAddress
  hdIndex := input.hdIndex
  txHash := none
  confirmations := 0
  receivedAmount := 0
  status := .pending
  expiresAt := now + 60 * input.expiryMins
  paidAt := none
  acceptedCoins := input.accepted
  priceUsdScaled := input.priceUsdScaled
  coinLockedAt := lockedAt
  quotePriceScaled := input.quotePriceScaled

def insertInvoiceError : DbError → MerchantDepositError
  | .uniqueViolation => .duplicateOrderId
  | e => .db e

def createInvoice (input : CreateDepositInvoiceInput) :
    Invoicing MerchantDepositError (Uuid × Invoice) := do
  let now ← invoiceCall .utcNow
  let lockedAt ← if input.accepted.length ≤ 1 then do
      let t ← invoiceCall .utcNow
      pure (some t)
    else pure none
  let row ← (invoicePool (.insertInvoice (input.invoice now lockedAt)) : Invoicing DbError _).mapErr
    insertInvoiceError
  let _ ← (invoicePool (.upsertAddress ⟨⟨input.coin, input.depositAddress, input.amount⟩, row.1,
    input.hdIndex, input.quotePriceScaled⟩) : Invoicing DbError _).mapErr .addressNotStored
  pure row

/-! ## Settlement -/

def lockInvoice (i : Uuid) : Invoicing MerchantDepositError Invoice := do
  let row ← invoiceQuery (.lockInvoice i)
  match row with
  | none => .throw .notFound
  | some inv => pure inv

def getInvoiceById (i : Uuid) : Invoicing MerchantDepositError Invoice := do
  let row ← invoicePool (.invoiceById i)
  match row with
  | none => .throw .notFound
  | some inv => pure inv

/-- One per invoice, whatever settled it. -/
def merchantCreditRef (i : Uuid) : String := "merchant_dep:" ++ toString i

def merchantCredit (i : Uuid) (inv : Invoice) (walletId : Uuid) : LedgerCreditInput where
  walletId := walletId
  amount := inv.netAmount
  ledgerType := .merchantDeposit
  referenceId := some i
  referenceType := some "MERCHANT_DEPOSIT"
  referenceKey := some (merchantCreditRef i)
  memo := some ("Deposit from Site X (Order: " ++ inv.orderId ++ ")")

def payerDebit (i : Uuid) (inv : Invoice) (walletId : Uuid) : LedgerCreditInput where
  walletId := walletId
  amount := -inv.amount
  ledgerType := .merchantCheckout
  referenceId := some i
  referenceType := some "MERCHANT_CHECKOUT"
  referenceKey := some ("pay_invoice:" ++ toString i)
  memo := some ("Payment to merchant (Order: " ++ inv.orderId ++ ")")

def merchantWalletOf (userId : Uuid) (coin : Coin) (kind : WalletKind) :
    Invoicing MerchantDepositError (Option Uuid) :=
  query (S := walletStore invoiceTables) (.base (.core (.walletOf userId coin kind)))

/-- What `confirm_invoice` and `pay_invoice_with_balance` do for the merchant. -/
def creditMerchant (i : Uuid) (inv : Invoice) : Invoicing MerchantDepositError Unit := do
  let walletId ← invoiceCall .newWalletId
  query (S := walletStore invoiceTables) (.insertWallet walletId inv.merchantId inv.coin .merchant)
  let walletId ← merchantWalletOf inv.merchantId inv.coin .merchant
  match walletId with
  | none => .throw .merchantWalletNotFound
  | some walletId => do
    (lift (lockWallet walletId)).mapErr .ledger
    (lift (applyLedgerEntry (merchantCredit i inv walletId))).mapErr .ledger

/-- The coin of a row can always be read. -/
def confirmInvoice (i : Uuid) (txHash : Option String) : Invoicing MerchantDepositError Invoice := do
  let confirmed ← transaction do
    let inv ← lockInvoice i
    if inv.status = .confirmed then pure (some inv)
    else if inv.status = .cancelled ∨ inv.status = .expired then .throw .invalidStatus
    else do
      creditMerchant i inv
      let _ ← invoiceQuery (.update i (.confirm txHash))
      commit
      pure none
  match confirmed with
  | some inv => pure inv
  | none => getInvoiceById i

def payFrom (i : Uuid) (inv : Invoice) (walletId : Uuid) : Invoicing MerchantDepositError Unit := do
  (lift (lockWallet walletId)).mapErr .ledger
  let balance ← (lift (getWalletBalance walletId)).mapErr .ledger
  if balance < inv.amount then .throw .insufficientBalance
  else do
    (lift (applyLedgerEntry (payerDebit i inv walletId))).mapErr .ledger
    creditMerchant i inv
    let _ ← invoiceQuery (.update i .payInternally)
    commit

def payInvoiceWithBalance (i payerUserId : Uuid) : Invoicing MerchantDepositError Invoice := do
  transaction do
    let inv ← lockInvoice i
    if !inv.isOpen then .throw .invalidStatus
    else do
      let now ← invoiceCall .utcNow
      if inv.expiresAt < now then .throw .invalidStatus
      else if payerUserId = inv.merchantId then .throw .payerIsMerchant
      else do
        let walletId ← merchantWalletOf payerUserId inv.coin .personal
        match walletId with
        | none => .throw .payerWalletNotFound
        | some walletId => payFrom i inv walletId
  getInvoiceById i

def servePayment (i userId : Uuid) : Invoicing Empty Unit := do
  let r ← (payInvoiceWithBalance i userId).attempt
  invoiceCall (.answer i userId r)

/-! ## The choice of a coin -/

inductive SelectCoinError where
  | rejected (status : ℕ) (r : Rejected)
  | internal

def coinLocked (message : String) : SelectCoinError := .rejected 409 ⟨"COIN_LOCKED", message⟩

def notPayable : SelectCoinError :=
  .rejected 400 ⟨"INVOICE_INVALID_STATE", "invoice is no longer payable"⟩

/-- `select_coin`; it is left to the caller to say why no row was changed. -/
def selectCoin (i : Uuid) (coin : Coin) (addr : InvoiceAddressRow) (lock : Bool) :
    Invoicing SelectCoinError Invoice := do
  let split := splitFee addr.amount
  let n ← (invoicePool (.update i (.select coin addr split.1 split.2 lock)) :
    Invoicing DbError _).mapErr fun _ => .internal
  let inv ← (getInvoiceById i).mapErr fun _ => .internal
  if n = 0 then
    .throw (if inv.coinLockedAt.isSome then coinLocked "this invoice already has a payment in progress"
      else notPayable)
  else pure inv

def mintAddress (i : Uuid) (inv : Invoice) (coin : Coin) :
    Invoicing SelectCoinError InvoiceAddressRow :=
  match inv.priceUsdScaled with
  | none => .throw (.rejected 400 ⟨"COIN_NOT_ACCEPTED",
      "this invoice is priced in a single coin and cannot be switched"⟩)
  | some usd => do
    let price ← invoiceCall (.getPrice coin)
    match priceOption usd coin price with
    | none => .throw (.rejected 503 ⟨"PRICE_UNAVAILABLE", "no fresh price for this coin right now"⟩)
    | some option => do
      let generated ← invoiceCall (.generateAddress coin inv.merchantId)
      match generated with
      | .error _ => .throw (.rejected 503 ⟨"ADDRESS_UNAVAILABLE",
          "could not generate a deposit address for this coin right now"⟩)
      | .ok (address, hdIndex) =>
        (invoicePool (.upsertAddress ⟨⟨coin, address, option.amount⟩, i,
          hdIndex.map fun n => (n : ℤ), some option.priceScaled⟩) : Invoicing DbError _).mapErr
            fun _ => .internal

def selectCoinHandler (i : Uuid) (coin : Coin) : Invoicing SelectCoinError Invoice := do
  let inv ← (getInvoiceById i).mapErr fun _ =>
    .rejected 404 ⟨"INVOICE_NOT_FOUND", "invoice not found"⟩
  if inv.coinLockedAt.isSome then
    .throw (coinLocked
      "this invoice already has a payment in progress and its coin can no longer change")
  else do
    let now ← invoiceCall .utcNow
    if inv.status ≠ .pending ∨ inv.expiresAt ≤ now then .throw notPayable
    else if !inv.acceptedCoins.contains coin || isDepositWithdrawPaused coin then
      .throw (.rejected 400 ⟨"COIN_NOT_ACCEPTED", "this coin is not accepted for this invoice"⟩)
    else do
      let existing ← (invoicePool (.findAddress i coin) : Invoicing DbError _).mapErr fun _ => .internal
      let addr ← match existing with
        | some a => pure a
        | none => mintAddress i inv coin
      selectCoin i coin addr false

/-! ## The watcher -/

namespace InvoiceWatcher

/-- An update of which only the failure matters, and that is a line of the log. -/
def logged (i : Uuid) (u : InvoiceUpdate) : Invoicing Unit Unit := do
  let _ ← (invoicePool (.update i u) : Invoicing DbError _).mapErr fun _ => ()
  pure ()

def sweepInvoiceAddress (i : Uuid) (hdIndex : Option ℤ) (coin : Coin) : Invoicing Unit Unit :=
  match hdIndex with
  | none => pure ()
  | some idx =>
    if 0 ≤ idx ∧ idx < 2 ^ 32 then do
      let swept ← invoiceCall (.sweepDepositToHot coin idx.toNat)
      match swept with
      | .ok true => do
        let _ ← ((logged i .markSwept).attempt : Invoicing Unit _)
        pure ()
      | _ => pure ()
    else pure ()

/-- What ends it early is a `throw`, for which the caller goes on to the next address. -/
def scanAddress (i : Uuid) (inv : Invoice) (addr : InvoiceAddressRow) : Invoicing Unit Unit := do
  let deposits ← invoiceCall (.fetchDeposits addr.coin addr.address)
  match deposits with
  | .error _ => .throw ()
  | .ok deposits =>
    if deposits.isEmpty then .throw ()
    else do
      let s := scan addr.coin.minConfirmations deposits
      let n ← (invoicePool (.countAtAddress addr.address) : Invoicing DbError _).mapErr fun _ => ()
      if 1 < n then .throw ()
      else do
        logged i .lockCoin
        if inv.coin ≠ addr.coin then
          logged i (.pointSelectionAt addr.coin addr (splitFee addr.amount).1
            (splitFee addr.amount).2)
        else pure ()
        logged i (.markDetected s.seen (min s.bestConfs (2 ^ 31 - 1)) s.txHash)
        if (s.confirmed : ℚ) < addr.amount then .throw ()
        else do
          let _ ← (confirmInvoice i s.txHash).mapErr fun _ => ()
          sweepInvoiceAddress i addr.hdIndex addr.coin

/-- The rest is moot once one has confirmed the invoice. -/
def scanAddresses (i : Uuid) (inv : Invoice) : List InvoiceAddressRow → Invoicing Empty Unit
  | [] => pure ()
  | addr :: addrs => do
    let r ← (scanAddress i inv addr).attempt
    match r with
    | .ok _ => pure ()
    | .error _ => scanAddresses i inv addrs

def scanInvoice (i : Uuid) (inv : Invoice) : Invoicing Empty Unit := do
  let addresses ← (invoicePool (.listAddresses i) : Invoicing DbError _).attempt
  match addresses with
  | .error _ => pure ()
  | .ok addresses => scanAddresses i inv addresses

def scanInvoices : List (Uuid × Invoice) → Invoicing Empty Unit
  | [] => pure ()
  | inv :: invs => do
    scanInvoice inv.1 inv.2
    scanInvoices invs

def scanBatch : ℕ := 200

/-- A tick, up to the webhooks that are sent again. -/
def runOnce : Invoicing Empty Unit := do
  let _ ← ((invoicePool .expireDue : Invoicing DbError _).attempt : Invoicing Empty _)
  let invoices ← (invoicePool (.openInvoices scanBatch) : Invoicing DbError _).attempt
  match invoices with
  | .error _ => pure ()
  | .ok invoices => scanInvoices invoices

end InvoiceWatcher

end SatsPay
