import SatsPay.House
import SatsPay.Solo

/-!
# The ledger alone

What the functions of the ledger and of the house come to in a transaction that nobody
disturbs, as functions of the shared tables.
-/

namespace SatsPay

open Interleave ReadCommitted

variable {X : Ext}

def Db.withCore (db : Db X) (c : Core) : Db X := { db with core := c }
def Db.withExt (db : Db X) (x : X.Db) : Db X := { db with ext := x }

def Core.inserted (c : Core) (input : LedgerCreditInput) : Except LedgerError Core :=
  match c.insertLedgerEntry input with
  | .error e => .error (.db e)
  | .ok x => .ok (x.2.foldl (fun c w => w.apply c) c)

def Core.applied (c : Core) (input : LedgerCreditInput) : Except LedgerError Core :=
  if ((c.wallets.lookup input.walletId).map Wallet.reorgHoldAt).join.isSome ∧
      input.ledgerType ≠ .depositReversal then .error (.reorgHold input.walletId)
  else if input.amount < 0 ∧ c.balance input.walletId + input.amount < 0 then
    .error (.insufficientBalance input.walletId (c.balance input.walletId) (-input.amount))
  else c.inserted input

theorem viewOf_core : ∀ (ws : List CoreWrite) (db : Db X),
    viewOf (ws.map .core) db = db.withCore (ws.foldl (fun c w => w.apply c) db.core)
  | [], _ => rfl
  | w :: ws, db => viewOf_core ws (Write.apply (.core w) db)

theorem viewOf_ext : ∀ (ws : List X.Write) (db : Db X),
    viewOf (ws.map .ext) db = db.withExt (ws.foldl (fun x w => X.apply w x) db.ext)
  | [], _ => rfl
  | w :: ws, db => viewOf_ext ws (Write.apply (.ext w) db)

section
variable [DecidableEq X.Key] {f : (c : (satsPay X).Call) → (satsPay X).Reply c} {db v : Db X}
variable {ε : Type}

section
variable [FromErr DbError ε]

theorem solo_core (st : CoreStmt) {a : st.Ans} {ws : List CoreWrite}
    (he : st.eval v.core = [.ok (a, ws)]) :
    Solo f db v (coreQuery st : Code (satsPay X) ε _)
      (.ok (a, v.withCore (ws.foldl (fun c w => w.apply c) v.core))) := by
  have h : (satsPay X).eval (.core st) v = [.ok (a, ws.map .core)] := by
    show (st.eval v.core).map _ = _
    rw [he]
    rfl
  have hview : applyAll (S := satsPay X) (ws.map .core) v = _ := viewOf_core ws v
  rw [← hview]
  exact Solo.query (S := satsPay X) h

theorem solo_core_error (st : CoreStmt) {e : DbError} (he : st.eval v.core = [.error e]) :
    Solo f db v (coreQuery st : Code (satsPay X) ε _) (.error (FromErr.conv e)) := by
  have h : (satsPay X).eval (.core st) v = [.error e] := by
    show (st.eval v.core).map _ = _
    rw [he]
    rfl
  exact Solo.query_error (S := satsPay X) h

theorem solo_ext (st : X.Stmt) {a : X.Ans st} {ws : List X.Write}
    (he : X.eval st v.core v.ext = [.ok (a, ws)]) :
    Solo f db v (extQuery st : Code (satsPay X) ε _)
      (.ok (a, v.withExt (ws.foldl (fun x w => X.apply w x) v.ext))) := by
  have h : (satsPay X).eval (.ext st) v = [.ok (a, ws.map .ext)] := by
    show (X.eval st v.core v.ext).map _ = _
    rw [he]
    rfl
  have hview : applyAll (S := satsPay X) (ws.map .ext) v = _ := viewOf_ext ws v
  rw [← hview]
  exact Solo.query (S := satsPay X) h

theorem solo_ext_error (st : X.Stmt) {e : DbError} (he : X.eval st v.core v.ext = [.error e]) :
    Solo f db v (extQuery st : Code (satsPay X) ε _) (.error (FromErr.conv e)) := by
  have h : (satsPay X).eval (.ext st) v = [.error e] := by
    show (X.eval st v.core v.ext).map _ = _
    rw [he]
    rfl
  exact Solo.query_error (S := satsPay X) h

end

theorem solo_lockWallet (walletId : Uuid) :
    Solo f db v (lockWallet walletId) (.ok ((), v)) :=
  (solo_core (.lockWallet walletId) rfl).bind (.ret _)

theorem solo_lockWallets (walletIds : List Uuid) :
    Solo f db v (lockWallets walletIds) (.ok ((), v)) := by
  unfold lockWallets
  induction (walletIds.insertionSort (· ≤ ·)).dedup with
  | nil => exact .ret _
  | cons id ids ih => exact (solo_lockWallet id).bind ih

theorem solo_applyLedgerEntry (input : LedgerCreditInput) :
    Solo f db v (applyLedgerEntry input)
      ((v.core.applied input).map fun c => ((), v.withCore c)) := by
  refine (solo_lockWallet _).bind ((solo_core (.reorgHoldAt input.walletId) rfl).bind ?_)
  show Solo f db v _ _
  unfold Core.applied checkReorgHold
  split
  · exact (Solo.throw _).bind_error
  refine (Solo.ret ()).bind ?_
  have insert : Solo f db v (coreQuery (.insertLedgerEntry input) : Code (satsPay X) LedgerError Unit)
      ((v.core.inserted input).map fun c => ((), v.withCore c)) := by
    unfold Core.inserted
    cases h : v.core.insertLedgerEntry input with
    | error e => exact solo_core_error (.insertLedgerEntry input) (congrArg (fun r => [r]) h)
    | ok x => exact solo_core (.insertLedgerEntry input) (congrArg (fun r => [r]) h)
  unfold checkBalance
  by_cases hneg : input.amount < 0
  · rw [if_pos hneg]
    have balance : Solo f db v
        (coreQuery (.walletBalance input.walletId) : Code (satsPay X) LedgerError ℤ)
        (.ok (v.core.balance input.walletId, v)) := solo_core (.walletBalance input.walletId) rfl
    by_cases hb : (v.core.balance input.walletId : ℚ) + input.amount < 0
    · rw [if_pos ⟨hneg, hb⟩]
      refine Solo.bind_error (balance.bind ?_)
      show Solo f db v (if _ then _ else _) _
      rw [if_pos hb]
      exact .throw _
    · rw [if_neg fun h => hb h.2]
      refine Solo.bind (a := ()) (balance.bind ?_) insert
      show Solo f db v (if _ then _ else _) _
      rw [if_neg hb]
      exact .ret _
  · rw [if_neg hneg, if_neg fun h => hneg h.1]
    exact (Solo.ret ()).bind insert

variable {findHouseId : Code (satsPay X) HouseError (Option Uuid)}

/-- A debit of a house that has the wallet. -/
theorem solo_debitHouse {house w : Uuid} {coin : Coin}
    (hh : Solo f db v findHouseId (.ok (some house, v))) (hw : v.core.walletOf house coin .house = some w)
    {amount : ℚ} (hne : amount ≠ 0) (type : LedgerType) (referenceId : Uuid)
    (referenceType memo : String) :
    Solo f db v (debitHouse findHouseId coin amount type referenceId referenceType memo)
      (((v.core.applied (referenced w (-amount) type referenceId referenceType memo)).map
        fun c => ((), v.withCore c)).mapError (debitHouseError coin)) := by
  unfold debitHouse
  rw [if_neg hne]
  have wallet : Solo f db v (getHouseWalletId findHouseId coin) (.ok (w, v)) := by
    refine hh.bind ((solo_core (.walletOf house coin .house) rfl).bind ?_)
    show Solo f db v _ _
    rw [hw]
    exact .ret _
  exact wallet.bind ((solo_applyLedgerEntry _).mapErr _)

end

/-! ## When an entry is taken -/

structure Core.Takes (c : Core) (input : LedgerCreditInput) (n : ℤ) : Prop where
  numeric : numeric39 input.amount = some n
  wallet : (c.wallets.lookup input.walletId).isSome
  hold : ((c.wallets.lookup input.walletId).map Wallet.reorgHoldAt).join = none
  covered : input.amount < 0 → 0 ≤ c.balance input.walletId + input.amount
  fresh : c.ledger.any (input.entry n).clash = false

theorem Core.applied_eq_ok {c c' : Core} {input : LedgerCreditInput}
    (ht : input.ledgerType ≠ .depositReversal) :
    c.applied input = .ok c' ↔ ∃ n, c.Takes input n ∧ c' = { c with ledger := input.entry n :: c.ledger } := by
  constructor
  · intro h
    unfold Core.applied at h
    split at h
    · cases h
    rename_i hhold
    split at h
    · cases h
    rename_i hcov
    unfold Core.inserted at h
    cases hi : c.insertLedgerEntry input with
    | error e =>
      rw [hi] at h
      cases h
    | ok x =>
      rw [hi] at h
      obtain ⟨n, hn, hw, hc, hx⟩ := @insertLedgerEntry_ok c input x.1 x.2 hi
      dsimp only at h
      rw [hx] at h
      cases h
      refine ⟨n, ⟨hn, hw, ?_, fun hneg => not_lt.1 fun hlt => hcov ⟨hneg, hlt⟩, hc⟩, rfl⟩
      simpa [ht] using hhold
  · rintro ⟨n, h, rfl⟩
    have hhold : ¬ (((c.wallets.lookup input.walletId).map Wallet.reorgHoldAt).join.isSome ∧
        input.ledgerType ≠ .depositReversal) := by
      rw [h.hold]
      simp
    have hcov : ¬ (input.amount < 0 ∧ c.balance input.walletId + input.amount < 0) :=
      fun hn => absurd (h.covered hn.1) (not_le.2 hn.2)
    unfold Core.applied Core.inserted
    rw [if_neg hhold, if_neg hcov, insertLedgerEntry_eq_ok h.numeric h.wallet h.fresh]
    rfl

end SatsPay
