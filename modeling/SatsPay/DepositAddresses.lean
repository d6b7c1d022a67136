import SatsPay.AddressKeys
import SatsPay.TransferRuns

/-!
# Deposit addresses

A user's wallet gets its address when it is first asked for: under the lock of its row a number is
drawn from the sequence of the coin, and the client derives the address of that number. The
sequence is read outside of the transaction, and the addresses of invoices take their numbers from
it too.
-/

namespace SatsPay

open Interleave ReadCommitted

/-! ## The store -/

structure AddressedWallet where
  userId : Uuid
  coin : Coin
  kind : WalletKind
  address : Option String
  hdIndex : Option ℤ
  deriving DecidableEq

def AddressedWallet.owner (r : AddressedWallet) : Owner := (r.userId, r.coin, r.kind)

/-- The wallets with their two unique indexes, and of each coin the last number drawn. -/
structure AddressTables where
  wallets : Uuid → Option AddressedWallet
  byOwner : Owner → Option Uuid
  byAddress : String → Option Uuid
  drawn : Coin → ℕ

inductive AddressDbError where
  | io
  | uniqueViolation
  | foreignKey
  | rowNotFound
  | sequenceLimit
  deriving DecidableEq

inductive AddressStmt where
  /-- `INSERT INTO wallets .. ON CONFLICT (user_id, coin, kind) DO NOTHING`, with the id of the
  column's default. -/
  | insertWallet (id : Uuid) (owner : Owner)
  | walletOf (owner : Owner)
  | addressOf (id : Uuid)
  | lockWallet (id : Uuid)
  | setAddress (id : Uuid) (address : String) (hdIndex : Option ℤ)
  | nextval (coin : Coin)

abbrev AddressStmt.Ans : AddressStmt → Type
  | .insertWallet _ _ | .lockWallet _ | .setAddress _ _ _ => Unit
  | .walletOf _ => Option Uuid
  | .addressOf _ => Option String
  | .nextval _ => ℕ

inductive AddressWrite where
  | insertWallet (id : Uuid) (owner : Owner)
  /-- From the address the row had to the new one. -/
  | setAddress (id : Uuid) (old : Option String) (address : String) (hdIndex : Option ℤ)
  | advance (coin : Coin) (n : ℕ)

inductive AddressKey where
  | wallet (id : Uuid)
  | owner (o : Owner)
  | address (a : String)
  deriving DecidableEq

abbrev AddressKey.Row : AddressKey → Type
  | .wallet _ => Option AddressedWallet
  | .owner _ | .address _ => Option Uuid

def AddressKey.row : (k : AddressKey) → AddressTables → k.Row
  | .wallet id, db => db.wallets id
  | .owner o, db => db.byOwner o
  | .address a, db => db.byAddress a

def newRow (o : Owner) : AddressedWallet := ⟨o.1, o.2.1, o.2.2, none, none⟩

def AddressedWallet.setAddress (r : AddressedWallet) (a : String) (i : Option ℤ) : AddressedWallet :=
  { r with address := some a, hdIndex := i }

def reindex (index : String → Option Uuid) (id : Uuid) (old : Option String) (a : String) :
    String → Option Uuid :=
  fun b => if b = a then some id else if old = some b then none else index b

def AddressWrite.apply : AddressWrite → AddressTables → AddressTables
  | .insertWallet id o, db =>
    { db with
      wallets := Function.update db.wallets id (some (newRow o))
      byOwner := Function.update db.byOwner o (some id) }
  | .setAddress id old a i, db =>
    { db with
      wallets := Function.update db.wallets id ((db.wallets id).map (·.setAddress a i))
      byAddress := reindex db.byAddress id old a }
  | .advance coin n, db => { db with drawn := Function.update db.drawn coin n }

def AddressWrite.touches : AddressWrite → List AddressKey
  | .insertWallet id o => [.wallet id, .owner o]
  | .setAddress id old a _ => .wallet id :: .address a :: old.toList.map .address
  | .advance _ _ => []

/-- The last number of a sequence, an `i64`. -/
def sequenceMax : ℕ := 2 ^ 63 - 1

def AddressStmt.locks : AddressStmt → AddressTables → List AddressKey
  | .insertWallet id o, db => if (db.byOwner o).isSome then [] else [.wallet id, .owner o]
  | .lockWallet id, db => if (db.wallets id).isSome then [.wallet id] else []
  | .setAddress id a _, db =>
    match db.wallets id with
    | none => []
    | some r => .wallet id :: .address a :: r.address.toList.map .address
  | .walletOf _, _ | .addressOf _, _ | .nextval _, _ => []

def evalSetAddress (id : Uuid) (a : String) (i : Option ℤ) (db : AddressTables) :
    Except AddressDbError (Unit × List AddressWrite) :=
  match db.wallets id with
  | none => .ok ((), [])
  | some r =>
    if (db.byAddress a).any (· != id) then .error .uniqueViolation
    else .ok ((), [.setAddress id r.address a i])

def evalInsertWallet (id : Uuid) (o : Owner) (db : AddressTables) :
    List (Except AddressDbError (Unit × List AddressWrite)) :=
  if (db.byOwner o).isSome then [.ok ((), [])]
  else if (db.wallets id).isSome then [.error .uniqueViolation]
  -- the table of users is not in the model: there may be no such user
  else [.ok ((), [.insertWallet id o]), .error .foreignKey]

def evalNextval (coin : Coin) (db : AddressTables) :
    Except AddressDbError (ℕ × List AddressWrite) :=
  if db.drawn coin < sequenceMax then .ok (db.drawn coin + 1, [.advance coin (db.drawn coin + 1)])
  else .error .sequenceLimit

def AddressStmt.eval : (st : AddressStmt) → AddressTables →
    List (Except AddressDbError (st.Ans × List AddressWrite))
  | .insertWallet id o, db => evalInsertWallet id o db
  | .walletOf o, db => [.ok (db.byOwner o, [])]
  | .addressOf id, db =>
    [match db.wallets id with
    | none => .error .rowNotFound
    | some r => .ok (r.address, [])]
  | .lockWallet _, _ => [.ok ((), [])]
  | .setAddress id a i, db => [evalSetAddress id a i db]
  | .nextval coin, db => [evalNextval coin db]

/-- Numbers are lost where the answer of a draw is. -/
def AddressTables.Tick (db db' : AddressTables) : Prop :=
  db'.wallets = db.wallets ∧ db'.byOwner = db.byOwner ∧ db'.byAddress = db.byAddress ∧
    ∀ coin, db.drawn coin ≤ db'.drawn coin

/-! ## Errors -/

inductive GenerateError where
  | sequence (e : AddressDbError)
  | derivation (message : String)

inductive DepositAddressError where
  | db (e : AddressDbError)
  | ledger (e : AddressDbError)
  | notFound
  | chain (e : GenerateError)

inductive AddressFailure where
  | unknownCoin
  | paused (coin : Coin)
  | internal (e : DepositAddressError)

instance fromErrGenerate : FromErr AddressDbError GenerateError := ⟨.sequence⟩
instance fromErrDepositAddress : FromErr AddressDbError DepositAddressError := ⟨.db⟩

structure GeneratedAddress where
  address : String
  hdIndex : Option ℕ

inductive AddressCall where
  | answer (userId : Uuid) (coinStr : String) (r : Except AddressFailure String)
  /-- The address of an invoice, or why there is none. -/
  | invoice (coin : Coin) (r : Except GenerateError GeneratedAddress)

theorem AddressKey.row_apply (k : AddressKey) (w : AddressWrite) (db : AddressTables)
    (h : k ∉ w.touches) : k.row (w.apply db) = k.row db := by
  cases w with
  | advance coin n => cases k <;> rfl
  | insertWallet id o =>
    simp only [AddressWrite.touches, List.mem_cons, List.not_mem_nil, or_false, not_or] at h
    cases k with
    | wallet id' => exact Function.update_of_ne (fun e => h.1 (congrArg _ e)) _ _
    | owner o' => exact Function.update_of_ne (fun e => h.2 (congrArg _ e)) _ _
    | address a => rfl
  | setAddress id old a i =>
    simp only [AddressWrite.touches, List.mem_cons, not_or] at h
    cases k with
    | wallet id' => exact Function.update_of_ne (fun e => h.1 (congrArg _ e)) _ _
    | owner o => rfl
    | address b =>
      have hb : b ≠ a := fun e => h.2.1 (congrArg _ e)
      have hold : old ≠ some b := by
        rintro rfl
        exact h.2.2 (by simp)
      show reindex db.byAddress id old a b = db.byAddress b
      rw [reindex, if_neg hb, if_neg hold]

theorem AddressKey.row_congr (k : AddressKey) (w : AddressWrite) (db db' : AddressTables)
    (h : k.row db' = k.row db) : k.row (w.apply db') = k.row (w.apply db) := by
  cases w with
  | advance coin n => cases k <;> exact h
  | insertWallet id o =>
    cases k with
    | wallet id' =>
      have h : db'.wallets id' = db.wallets id' := h
      show Function.update db'.wallets id _ id' = Function.update db.wallets id _ id'
      simp [Function.update_apply, h]
    | owner o' =>
      have h : db'.byOwner o' = db.byOwner o' := h
      show Function.update db'.byOwner o _ o' = Function.update db.byOwner o _ o'
      simp [Function.update_apply, h]
    | address a => exact h
  | setAddress id old a i =>
    cases k with
    | wallet id' =>
      have h : db'.wallets id' = db.wallets id' := h
      show Function.update db'.wallets id _ id' = Function.update db.wallets id _ id'
      by_cases e : id' = id
      · subst e
        simp [h]
      · simp [e, h]
    | owner o => exact h
    | address b =>
      have h : db'.byAddress b = db.byAddress b := h
      show reindex db'.byAddress id old a b = reindex db.byAddress id old a b
      simp [reindex, h]

theorem AddressKey.row_tick (k : AddressKey) (db db' : AddressTables) (h : db.Tick db') :
    k.row db' = k.row db := by
  cases k with
  | wallet id => exact congrFun h.1 id
  | owner o => exact congrFun h.2.1 o
  | address a => exact congrFun h.2.2.1 a

abbrev addressStore : Schema where
  Db := AddressTables
  Key := AddressKey
  Write := AddressWrite
  Err := AddressDbError
  Stmt := AddressStmt
  Ans := AddressStmt.Ans
  Call := AddressCall
  Reply _ := Unit
  io := .io
  locks := AddressStmt.locks
  eval := AddressStmt.eval
  apply := AddressWrite.apply
  tick := AddressTables.Tick
  Row := AddressKey.Row
  row := AddressKey.row
  touches := AddressWrite.touches
  row_apply := AddressKey.row_apply
  row_congr := AddressKey.row_congr
  row_tick := AddressKey.row_tick

/-! ## The programs -/

abbrev Addressing (ε α : Type) := Code addressStore ε α

structure ClientSetup where
  keys : ClientKeys
  network : ChainNetwork

section
variable (L : AddressLib) (H : HdLib) (setup : Coin → ClientSetup)

def clientAddress (coin : Coin) (index : ℕ) : Except String String :=
  generateAddress L H (setup coin).keys coin (setup coin).network (.ok index)

/-- `index as u32` -/
def nextHdIndex (coin : Coin) : Addressing GenerateError ℕ := do
  let index ← poolQuery (S := addressStore) (.nextval coin)
  pure (index % 2 ^ 32)

def generateNext (coin : Coin) : Addressing GenerateError GeneratedAddress := do
  let index ← nextHdIndex coin
  let address ← .ofExcept ((clientAddress L H setup coin index).mapError .derivation)
  pure ⟨address, some index⟩

/-- Under the lock of the row, and only where it still has none. -/
def assignAddress (coin : Coin) (walletId : Uuid) : Addressing DepositAddressError String := do
  (query (S := addressStore) (ε := AddressDbError) (.lockWallet walletId)).mapErr .ledger
  let fresh ← query (S := addressStore) (.addressOf walletId)
  match fresh with
  | some address => do
    commit
    pure address
  | none => do
    let generated ← (generateNext L H setup coin).mapErr .chain
    query (S := addressStore)
      (.setAddress walletId generated.address (generated.hdIndex.map Int.ofNat))
    commit
    pure generated.address

/-- The ids are those that the wallets get where they are new. -/
def getOrCreateAddress (personalId developerId userId : Uuid) (coin : Coin) :
    Addressing DepositAddressError String := do
  poolQuery (S := addressStore) (.insertWallet personalId (userId, coin, .personal))
  poolQuery (S := addressStore) (.insertWallet developerId (userId, coin, .developer))
  let walletId ← poolQuery (S := addressStore) (.walletOf (userId, coin, .personal))
  match walletId with
  | none => .throw .notFound
  | some walletId => do
    -- no need of the number: to derive anew would orphan the address
    let existing ← poolQuery (S := addressStore) (.addressOf walletId)
    match existing with
    | some address => pure address
    | none => transaction (assignAddress L H setup coin walletId)

def addressRoute (personalId developerId userId : Uuid) (coinStr : String) :
    Addressing AddressFailure String :=
  match Coin.fromStr coinStr with
  | none => .throw .unknownCoin
  | some coin =>
    if isDepositWithdrawPaused coin then .throw (.paused coin)
    else (getOrCreateAddress L H setup personalId developerId userId coin).mapErr .internal

def serveAddress (personalId developerId userId : Uuid) (coinStr : String) :
    Addressing Empty Unit := do
  let r ← (addressRoute L H setup personalId developerId userId coinStr).attempt
  invoke (S := addressStore) (.answer userId coinStr r)

def serveInvoiceAddress (coin : Coin) : Addressing Empty Unit := do
  let r ← (generateNext L H setup coin).attempt
  invoke (S := addressStore) (.invoice coin r)

end

end SatsPay
