import SatsPay.Statements
import Mathlib.Data.List.Sort
import Mathlib.Data.List.Dedup

/-!
# The ledger

`apply_ledger_entry` and the functions around it, and what they guarantee when
any number of transactions run at once: the committed sum of a wallet never goes
below zero.
-/

namespace SatsPay

open Interleave ReadCommitted RowProtocol

inductive LedgerError where
  | db (e : DbError)
  | insufficientBalance (walletId : Uuid) (available : ℤ) (required : ℚ)
  | reorgHold (walletId : Uuid)

instance : FromErr DbError LedgerError := ⟨.db⟩

variable {X : Ext}

/-- `SELECT id FROM wallets WHERE id = $1 FOR UPDATE`; a missing row is no error. -/
def lockWallet (walletId : Uuid) : Code (satsPay X) LedgerError Unit := do
  let _ ← coreQuery (.lockWallet walletId)
  pure ()

/-- Sorted and without duplicates, so that all callers lock in one order. -/
def lockWallets (walletIds : List Uuid) : Code (satsPay X) LedgerError Unit :=
  ((walletIds.insertionSort (· ≤ ·)).dedup).forM lockWallet

def getWalletBalance (walletId : Uuid) : Code (satsPay X) LedgerError ℤ :=
  coreQuery (.walletBalance walletId)

def checkReorgHold (input : LedgerCreditInput) (reorgHoldAt : Option (Option Time)) :
    Code (satsPay X) LedgerError Unit :=
  if reorgHoldAt.join.isSome ∧ input.ledgerType ≠ .depositReversal then
    .throw (.reorgHold input.walletId)
  else .ret ()

/-- Only a debit reads the balance. -/
def checkBalance (input : LedgerCreditInput) : Code (satsPay X) LedgerError Unit :=
  if input.amount < 0 then do
    let balance ← getWalletBalance input.walletId
    if balance + input.amount < 0 then
      .throw (.insufficientBalance input.walletId balance (-input.amount))
    else .ret ()
  else .ret ()

def applyLedgerEntry (input : LedgerCreditInput) : Code (satsPay X) LedgerError Unit := do
  lockWallet input.walletId
  let reorgHoldAt ← coreQuery (.reorgHoldAt input.walletId)
  checkReorgHold input reorgHoldAt
  checkBalance input
  coreQuery (.insertLedgerEntry input)

/-! ## What a statement answers -/

theorem insertLedgerEntry_ok {c : Core} {input : LedgerCreditInput} {a : Unit}
    {ws : List CoreWrite} (h : c.insertLedgerEntry input = .ok (a, ws)) :
    ∃ n, numeric39 input.amount = some n ∧ (c.wallets.lookup input.walletId).isSome ∧
      c.ledger.any (input.entry n).clash = false ∧ ws = [.addEntry (input.entry n)] := by
  unfold Core.insertLedgerEntry at h
  split at h
  · cases h
  · rename_i n hn
    split at h
    · cases h
    · rename_i hw
      split at h
      · cases h
      · rename_i hc
        cases h
        exact ⟨n, hn, by simpa [Option.isSome_iff_ne_none] using hw, by simpa using hc, rfl⟩

theorem insertLedgerEntry_eq_ok {c : Core} {input : LedgerCreditInput} {n : ℤ}
    (hn : numeric39 input.amount = some n) (hw : (c.wallets.lookup input.walletId).isSome)
    (hc : c.ledger.any (input.entry n).clash = false) :
    c.insertLedgerEntry input = .ok ((), [.addEntry (input.entry n)]) := by
  unfold Core.insertLedgerEntry
  rw [hn]
  dsimp only
  rw [if_neg (by simpa [Option.isSome_iff_ne_none] using hw), if_neg (by simp [hc])]

/-- Which wallets there are does not depend on what the transaction has written
but for the wallets it puts. -/
theorem isSome_wallets_applyAll {id : Uuid} : ∀ (ws : List (Write X)) {db db' : Db X},
    (db'.core.wallets.lookup id).isSome = (db.core.wallets.lookup id).isSome →
    ((applyAll (S := satsPay X) ws db').core.wallets.lookup id).isSome =
      ((applyAll (S := satsPay X) ws db).core.wallets.lookup id).isSome
  | [], _, _, h => h
  | w :: ws, db, db', h => by
    refine isSome_wallets_applyAll ws ?_
    cases w with
    | ext w => exact h
    | core w =>
      cases w with
      | putWallet id' w =>
        by_cases e : id = id'
        · subst e; simp only [Write.apply, CoreWrite.apply, AList.lookup_insert]
        · simp only [Write.apply, CoreWrite.apply, AList.lookup_insert_ne e, h]
      | _ => exact h

/-! ## The rule for `apply_ledger_entry` -/

section
variable {cond : Db X → Hist (sig (satsPay X)) → Event (sig (satsPay X)) → Prop}
variable {R : RowProtocol (satsPay X) cond} {p : Nat}

def KeepsWallets (R : RowProtocol (satsPay X) cond) (p : Nat) : Prop :=
  ∀ db h db' h', R.rel p db h db' h' →
    ∀ id, (db'.core.wallets.lookup id).isSome = (db.core.wallets.lookup id).isSome

def WithLock (walletId : Uuid) (G : TxAssertion X) : TxAssertion X := fun ws ks db h =>
  G ws ks db h ∧
    (((viewOf ws db).core.wallets.lookup walletId).isSome → Key.core walletId ∈ ks)

def WithCover (input : LedgerCreditInput) (G : TxAssertion X) : TxAssertion X := fun ws ks db h =>
  WithLock input.walletId G ws ks db h ∧
    (((viewOf ws db).core.wallets.lookup input.walletId).isSome → input.amount < 0 →
      0 ≤ (viewOf ws db).core.balance input.walletId + input.amount)

theorem framed_withLock (hR : KeepsWallets R p) {G : TxAssertion X} (hG : R.FramedTx p G)
    (walletId : Uuid) : R.FramedTx p (WithLock walletId G) where
  stable ws ks db h db' h' hg hk hr he hi :=
    ⟨hG.stable _ _ _ _ _ _ hg.1 hk hr he hi, fun hs =>
      hg.2 (by rwa [isSome_wallets_applyAll ws (hR _ _ _ _ hr walletId)] at hs)⟩
  own ws ks db h e hq he hg := ⟨hG.own _ _ _ _ _ hq he hg.1, hg.2⟩

/-- The balance of a wallet the transaction has locked. -/
theorem balance_view_congr {ws : List (Write X)} {db db' : Db X} {walletId : Uuid}
    (h : Key.row (.core walletId) db' = Key.row (.core walletId) db) :
    (viewOf ws db').core.balance walletId = (viewOf ws db).core.balance walletId :=
  Core.balance_eq_of_row (row_applyAll_congr (S := satsPay X) (k := .core walletId) ws h)

section
variable {input : LedgerCreditInput} {G G' : TxAssertion X}
variable {E : LedgerError → TxAssertion X}

theorem triple_lockWallet (hR : KeepsWallets R p) (walletId : Uuid) (hG : R.FramedTx p G)
    (hE : ∀ e, R.FramedTx p (E e))
    (hmono : ∀ ws ks ks' db h, G ws ks db h → G ws (ks ++ ks') db h)
    (herr : ∀ ws ks db h e, R.inv db h → G ws ks db h → E e ws ks db h ∧ E e [] ks db h) :
    R.toProtocol.Triple p (InTx p G) (lockWallet walletId)
      (outcome (fun _ => InTx p (WithLock walletId G)) fun e => InTx p (E e)) := by
  refine .bind (triple_query _ (fun _ => framed_withLock hR hG walletId) hE ?_
    fun ws ks db h e hi hg _ => (herr _ _ _ _ _ hi hg).2) (fun _ => .ret fun _ _ h => h) fun _ _ _ h => h
  intro ws ks db h a ws' hi hg he
  obtain ⟨rfl, rfl⟩ := core_eval_one rfl he
  refine ⟨by simp, by simpa using hmono _ _ _ _ _ hg, fun hs => List.mem_append_right _ ?_⟩
  refine List.mem_map_of_mem ?_
  simpa [CoreStmt.locks] using hs

theorem triple_lockWallets (hR : KeepsWallets R p) (hG : R.FramedTx p G)
    (hE : ∀ e, R.FramedTx p (E e))
    (hmono : ∀ ws ks ks' db h, G ws ks db h → G ws (ks ++ ks') db h)
    (herr : ∀ ws ks db h e, R.inv db h → G ws ks db h → E e ws ks db h ∧ E e [] ks db h)
    (walletIds : List Uuid) : R.toProtocol.Triple p (InTx p G) (lockWallets walletIds)
      (outcome (fun _ => InTx p G) fun e => InTx p (E e)) := by
  unfold lockWallets
  induction (walletIds.insertionSort (· ≤ ·)).dedup with
  | nil => exact .ret fun _ _ h => h
  | cons id ids ih =>
    exact .bind (triple_lockWallet hR id hG hE hmono herr) (fun _ => .conseq ih
      (fun _ _ ⟨t, ht, hg⟩ => ⟨t, ht, hg.1⟩) fun _ _ _ h => h) fun _ _ _ h => h

theorem triple_checkReorgHold (held : Option (Option Time))
    (herr : ∀ ws ks db h e, R.inv db h → G ws ks db h → E e ws ks db h ∧ E e [] ks db h) :
    R.toProtocol.Triple p (InTx p G) (checkReorgHold input held)
      (outcome (fun _ => InTx p G) fun e => InTx p (E e)) := by
  unfold checkReorgHold
  split
  · exact .throw fun c hi ⟨t, ht, hg⟩ => ⟨t, ht, (herr _ _ _ _ _ hi.2 hg).1⟩
  · exact .ret fun _ _ h => h

theorem triple_checkBalance (hR : KeepsWallets R p) (hG : R.FramedTx p G)
    (hE : ∀ e, R.FramedTx p (E e))
    (herr : ∀ ws ks db h e, R.inv db h → G ws ks db h → E e ws ks db h ∧ E e [] ks db h) :
    R.toProtocol.Triple p (InTx p (WithLock input.walletId G)) (checkBalance input)
      (outcome (fun _ => InTx p (WithCover input G)) fun e => InTx p (E e)) := by
  have hGL := framed_withLock hR hG input.walletId
  unfold checkBalance
  split
  · -- what the debit has read stays the balance while the wallet is locked
    let read (b : ℤ) : TxAssertion X := fun ws ks db h => WithLock input.walletId G ws ks db h ∧
      (((viewOf ws db).core.wallets.lookup input.walletId).isSome →
        (viewOf ws db).core.balance input.walletId = b)
    have hread (b : ℤ) : R.FramedTx p (read b) :=
      { stable := fun ws ks db h db' h' hg hk hr he hi => by
          refine ⟨hGL.stable _ _ _ _ _ _ hg.1 hk hr he hi, fun hs => ?_⟩
          rw [isSome_wallets_applyAll ws (hR _ _ _ _ hr _)] at hs
          rw [balance_view_congr (hk _ (hg.1.2 hs))]
          exact hg.2 hs
        own := fun ws ks db h e hq he hg => ⟨hGL.own _ _ _ _ _ hq he hg.1, hg.2⟩ }
    refine .bind (triple_coreRead _ (fun c => c.balance input.walletId) (fun _ => rfl) (fun _ => rfl)
      hread hE (fun _ _ _ _ _ hg => ⟨hg, fun _ => rfl⟩)
      fun ws ks db h e hi hg => (herr _ _ _ _ _ hi hg.1).2) (fun b => ?_) fun _ _ _ h => h
    · split
      · exact .throw fun c hi ⟨t, ht, hg⟩ => ⟨t, ht, (herr _ _ _ _ _ hi.2 hg.1.1).1⟩
      · rename_i hb
        refine .ret fun c _ ⟨t, ht, hg⟩ => ⟨t, ht, hg.1, fun hs _ => ?_⟩
        rw [hg.2 hs]
        exact not_lt.1 hb
  · rename_i ha
    exact .ret fun c _ ⟨t, ht, hg⟩ => ⟨t, ht, hg, fun _ h => absurd h ha⟩

/-- `apply_ledger_entry` adds one entry: the amount as it is stored, to a wallet
that is locked, where no entry has the same reference, and a debit only if the
balance covers it. -/
theorem triple_applyLedgerEntry (hR : KeepsWallets R p) (hG : R.FramedTx p G)
    (hG' : R.FramedTx p G') (hE : ∀ e, R.FramedTx p (E e))
    (hmono : ∀ ws ks ks' db h, G ws ks db h → G ws (ks ++ ks') db h)
    (herr : ∀ ws ks db h e, R.inv db h → G ws ks db h → E e ws ks db h ∧ E e [] ks db h)
    (hok : ∀ ws ks db h n, R.inv db h → G ws ks db h → numeric39 input.amount = some n →
      Key.core input.walletId ∈ ks →
      (input.amount < 0 → 0 ≤ (viewOf ws db).core.balance input.walletId + input.amount) →
      (viewOf ws db).core.ledger.any (input.entry n).clash = false →
      G' (ws ++ [.core (.addEntry (input.entry n))]) ks db h) :
    R.toProtocol.Triple p (InTx p G) (applyLedgerEntry input)
      (outcome (fun _ => InTx p G') fun e => InTx p (E e)) := by
  have hGL := framed_withLock hR hG input.walletId
  have herrL : ∀ ws ks db h e, R.inv db h → WithLock input.walletId G ws ks db h →
      E e ws ks db h ∧ E e [] ks db h :=
    fun ws ks db h e hi hg => herr ws ks db h e hi hg.1
  have read : R.toProtocol.Triple p (InTx p (WithLock input.walletId G))
      (coreQuery (.reorgHoldAt input.walletId))
      (outcome (fun _ => InTx p (WithLock input.walletId G)) fun e => InTx p (E e)) :=
    triple_coreRead _ (fun c => (c.wallets.lookup input.walletId).map Wallet.reorgHoldAt)
      (fun _ => rfl) (fun _ => rfl) (fun _ => hGL) hE (fun _ _ _ _ _ hg => hg)
      fun ws ks db h e hi hg => (herrL _ _ _ _ e hi hg).2
  refine .bind (triple_lockWallet hR _ hG hE hmono herr) (fun _ => .bind read (fun held =>
    .bind (triple_checkReorgHold held herrL) (fun _ =>
      .bind (triple_checkBalance hR hG hE herr) (fun _ => ?_) fun _ _ _ h => h)
    fun _ _ _ h => h) fun _ _ _ h => h) fun _ _ _ h => h
  refine triple_query _ (fun _ => hG') hE ?_ fun ws ks db h e hi hg _ => (herr _ _ _ _ _ hi hg.1.1).2
  rintro ws ks db h a ws' hi ⟨⟨hg, hl⟩, hc⟩ he
  obtain ⟨ws₁, he', rfl⟩ := core_eval_ok he
  obtain ⟨n, hn, hs, hu, rfl⟩ := insertLedgerEntry_ok (List.mem_singleton.1 he').symm
  refine ⟨?_, ?_⟩
  · simpa [Write.touches, CoreWrite.touches, LedgerCreditInput.entry] using .inl (hl hs)
  · simpa [Stmt.locks, CoreStmt.locks] using hok ws ks db h n hi hg hn (hl hs) (hc hs) hu

end

end

/-! ## When it goes through -/

section
variable {db : Db X} {ws : List (Write X)} {input : LedgerCreditInput} {n : ℤ}

theorem may_lockWallet (id : Uuid) :
    May (S := satsPay X) (AloneInTx db ws) (lockWallet id) (.ok ()) (AloneInTx db ws) :=
  (may_coreRead (List.mem_singleton_self _)).bind (may_ret ())

theorem may_lockWallets (ids : List Uuid) :
    May (S := satsPay X) (AloneInTx db ws) (lockWallets ids) (.ok ()) (AloneInTx db ws) := by
  unfold lockWallets
  induction (ids.insertionSort (· ≤ ·)).dedup with
  | nil => exact may_ret ()
  | cons id ids ih => exact (may_lockWallet id).bind ih

theorem may_checkBalance
    (hb : input.amount < 0 → 0 ≤ (viewOf ws db).core.balance input.walletId + input.amount) :
    May (S := satsPay X) (AloneInTx db ws) (checkBalance input) (.ok ()) (AloneInTx db ws) := by
  unfold checkBalance
  split
  · rename_i ha
    refine (may_coreRead (List.mem_singleton_self _)).bind ?_
    rw [if_neg (not_lt.2 (hb ha))]
    exact may_ret ()
  · exact may_ret ()

/-- Nothing stands in the way of an entry: the wallet is there and not under reorg
hold, the balance covers a debit, and no entry has the same reference. -/
theorem may_applyLedgerEntry {w : Wallet}
    (hw : (viewOf ws db).core.wallets.lookup input.walletId = some w) (hr : w.reorgHoldAt = none)
    (hb : input.amount < 0 → 0 ≤ (viewOf ws db).core.balance input.walletId + input.amount)
    (hn : numeric39 input.amount = some n)
    (hc : (viewOf ws db).core.ledger.any (input.entry n).clash = false) :
    May (S := satsPay X) (AloneInTx db ws) (applyLedgerEntry input) (.ok ())
      (AloneInTx db (ws ++ [.core (.addEntry (input.entry n))])) := by
  have read : May (S := satsPay X) (AloneInTx db ws)
      (coreQuery (.reorgHoldAt input.walletId) : Code (satsPay X) LedgerError _)
      (.ok (some none)) (AloneInTx db ws) := by
    refine may_coreRead (List.mem_singleton.2 ?_)
    rw [hw, Option.map_some, hr]
  have insert : May (S := satsPay X) (AloneInTx db ws)
      (coreQuery (.insertLedgerEntry input) : Code (satsPay X) LedgerError _)
      (.ok ()) (AloneInTx db (ws ++ [.core (.addEntry (input.entry n))])) := by
    have he : Except.ok ((), [CoreWrite.addEntry (input.entry n)]) ∈
        (CoreStmt.insertLedgerEntry input).eval (viewOf ws db).core :=
      List.mem_singleton.2 (insertLedgerEntry_eq_ok hn (by rw [hw]; rfl) hc).symm
    exact may_core he
  exact (may_lockWallet _).bind (read.bind (.bind (may_ret ()) ((may_checkBalance hb).bind insert)))

end

end SatsPay
