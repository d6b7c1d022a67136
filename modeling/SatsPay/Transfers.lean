import SatsPay.LedgerRuns
import SatsPay.TxWrites

/-!
# Moving money between a user's own wallets

`transfer_between_kinds` moves an amount of one coin between the personal and the merchant
wallet of a user, after making the merchant wallet where there is none. `walletStore X` is the
store with the statement that makes a wallet; what runs on `satsPay X` is taken there by `lift`.
-/

namespace SatsPay

open Interleave ReadCommitted

/-! ## Making a wallet -/

section
variable (X : Ext)

inductive WalletStmt where
  | base (st : Stmt X)
  /-- `INSERT INTO wallets .. ON CONFLICT (user_id, coin, kind) DO NOTHING`, with the id that the
  column's default gives. -/
  | insertWallet (id userId : Uuid) (coin : Coin) (kind : WalletKind)

abbrev WalletStmt.Ans : WalletStmt X → Type
  | .base st => st.Ans
  | .insertWallet _ _ _ _ => Unit

/-- A row, or the entry of the unique index on user, coin and kind. -/
inductive WalletKey where
  | base (k : Key X)
  | owner (userId : Uuid) (coin : Coin) (kind : WalletKind)

instance [DecidableEq X.Key] : DecidableEq (WalletKey X)
  | .base k, .base k' => decidable_of_iff (k = k') (by simp)
  | .owner u c k, .owner u' c' k' => decidable_of_iff (u = u' ∧ c = c' ∧ k = k') (by simp)
  | .base _, .owner _ _ _ => isFalse (by simp)
  | .owner _ _ _, .base _ => isFalse (by simp)

abbrev WalletKey.Row : WalletKey X → Type
  | .base k => k.Row
  | .owner _ _ _ => Unit

end

variable {X : Ext}

def WalletKey.row : (k : WalletKey X) → Db X → k.Row
  | .base k, db => k.row db
  | .owner _ _ _, _ => ()

def WalletStmt.locks : WalletStmt X → Db X → List (WalletKey X)
  | .base st, db => (st.locks db).map .base
  | .insertWallet id userId coin kind, db =>
    if (db.core.walletOf userId coin kind).isSome then []
    else [.owner userId coin kind, .base (.core id)]

def WalletStmt.eval :
    (st : WalletStmt X) → Db X → List (Except DbError (st.Ans × List (Write X)))
  | .base st, db => st.eval db
  | .insertWallet id userId coin kind, db =>
    if (db.core.walletOf userId coin kind).isSome then [.ok ((), [])]
    else if (db.core.wallets.lookup id).isSome then [.error .uniqueViolation]
    -- the table of users is not in the model: there may be no such user
    else [.ok ((), [.core (.putWallet id ⟨userId, coin, kind, none⟩)]), .error .foreignKey]

abbrev walletStore (X : Ext) : Schema where
  Db := Db X
  Key := WalletKey X
  Write := Write X
  Err := DbError
  Stmt := WalletStmt X
  Ans := WalletStmt.Ans X
  Call := X.Call
  Reply := X.Reply
  io := .io
  locks := WalletStmt.locks
  eval := WalletStmt.eval
  apply := Write.apply
  tick := Db.tick
  Row := WalletKey.Row X
  row := WalletKey.row
  touches w := w.touches.map .base
  row_apply k w db h := match k with
    | .base k => Key.row_apply k w db fun hk => h (List.mem_map_of_mem hk)
    | .owner _ _ _ => rfl
  row_congr k w db db' h := match k with
    | .base k => Key.row_congr k w db db' h
    | .owner _ _ _ => rfl
  row_tick k db db' h := match k with
    | .base k => Key.row_tick k db db' h
    | .owner _ _ _ => rfl

/-! ## What runs on the store without it -/

section
variable {ε α β : Type}

def lift : Code (satsPay X) ε α → Code (walletStore X) ε α
  | .ret a => .ret a
  | .throw e => .throw e
  | .op .begin k => .op .begin fun r => lift (k r)
  | .op .commit k => .op .commit fun r => lift (k r)
  | .op .rollback k => .op .rollback fun r => lift (k r)
  | .op (.tx st) k => .op (.tx (.base st)) fun r => lift (k r)
  | .op (.pool st) k => .op (.pool (.base st)) fun r => lift (k r)
  | .op (.call c) k => .op (.call c) fun r => lift (k r)

theorem lift_bind (c : Code (satsPay X) ε α) (f : α → Code (satsPay X) ε β) :
    lift (c >>= f) = lift c >>= fun a => lift (f a) := by
  induction c with
  | ret a => rfl
  | throw e => rfl
  | op o k ih => cases o <;> exact congrArg _ (funext ih)

theorem lift_coreQuery [FromErr DbError ε] (st : CoreStmt) :
    lift (coreQuery st : Code (satsPay X) ε _) =
      query (S := walletStore X) (.base (.core st)) := by
  show Prog.op _ _ = Prog.op _ _
  congr 1
  funext r
  cases r <;> rfl

end

/-! ## The transfer -/

inductive WalletError where
  | db (e : DbError)
  | ledger (e : LedgerError)
  | invalidAmount
  | notFound

instance : FromErr DbError WalletError := ⟨.db⟩

/-- `kind.to_lowercase()` -/
def WalletKind.lowercase : WalletKind → String
  | .personal => "personal"
  | .developer => "developer"
  | .house => "house"
  | .lendPool => "lend_pool"
  | .merchant => "merchant"

def fromKind (toDeveloper : Bool) : WalletKind := if toDeveloper then .personal else .merchant
def toKind (toDeveloper : Bool) : WalletKind := if toDeveloper then .merchant else .personal

section
variable (refId : Uuid) (amount : ℚ) (toDeveloper : Bool)

def ownTransferOut (walletId : Uuid) : LedgerCreditInput :=
  { walletId := walletId, amount := -amount, ledgerType := .transferOut,
    referenceId := some refId, referenceType := some "InternalTransfer", referenceKey := none,
    memo := some ("To " ++ (toKind toDeveloper).lowercase ++ " wallet") }

def ownTransferIn (walletId : Uuid) : LedgerCreditInput :=
  { walletId := walletId, amount := amount, ledgerType := .transferIn,
    referenceId := some refId, referenceType := some "InternalTransfer", referenceKey := none,
    memo := some ("From " ++ (fromKind toDeveloper).lowercase ++ " wallet") }

def walletOfQuery (userId : Uuid) (coin : Coin) (kind : WalletKind) :
    Code (walletStore X) WalletError (Option Uuid) :=
  query (S := walletStore X) (.base (.core (.walletOf userId coin kind)))

/-- The two entries, with the wallets locked first, and the commit. -/
def moveBetween (fromId toId : Uuid) : Code (walletStore X) WalletError Unit := do
  (lift (lockWallets [fromId, toId])).mapErr .ledger
  (lift (applyLedgerEntry (ownTransferOut refId amount toDeveloper fromId))).mapErr .ledger
  (lift (applyLedgerEntry (ownTransferIn refId amount toDeveloper toId))).mapErr .ledger
  commit

/-- `transfer_between_kinds`; `walletId` is the id of the merchant wallet it makes where there is
none, `refId` that of the transfer. -/
def transferBetweenKinds (walletId userId : Uuid) (coin : Coin) :
    Code (walletStore X) WalletError Unit :=
  if amount ≤ 0 then .throw .invalidAmount
  else do
    poolQuery (S := walletStore X) (.insertWallet walletId userId coin .merchant)
    transaction do
      let fromId ← walletOfQuery userId coin (fromKind toDeveloper)
      let toId ← walletOfQuery userId coin (toKind toDeveloper)
      match fromId, toId with
      | some fromId, some toId => moveBetween refId amount toDeveloper fromId toId
      | _, _ => .throw .notFound

end

end SatsPay
