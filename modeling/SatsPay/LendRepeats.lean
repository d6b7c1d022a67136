import SatsPay.LendParts
import SatsPay.LendSteps

/-!
# Doing the same twice

The entries of the money market carry the key of a user and a coin, and the unique indexes of
the ledger let one through for each wallet, key and type. `Unindexed` is the store without
these indexes: what an operation does there depends on its own checks alone.
-/

namespace SatsPay

open Interleave ReadCommitted

/-! ## Without the indexes -/

def Core.insertUnindexed (c : Core) (input : LedgerCreditInput) :
    Except DbError (Unit × List CoreWrite) :=
  match numeric39 input.amount with
  | none => .error .numericOverflow
  | some n =>
    if (c.wallets.lookup input.walletId).isNone then .error .foreignKey
    else .ok ((), [.addEntry (input.entry n)])

theorem insertUnindexed_ok {c : Core} {input : LedgerCreditInput} {ws : List CoreWrite}
    (h : c.insertUnindexed input = .ok ((), ws)) :
    ∃ n, numeric39 input.amount = some n ∧ (c.wallets.lookup input.walletId).isSome ∧
      ws = [.addEntry (input.entry n)] := by
  unfold Core.insertUnindexed at h
  split at h
  · cases h
  · rename_i n hn
    split at h
    · cases h
    · rename_i hw
      cases h
      exact ⟨n, hn, by simpa [Option.isSome_iff_ne_none] using hw, rfl⟩

inductive Unindexed : (o : Op (satsPay lendExt)) → State (satsPay lendExt) →
    Op.Resp (satsPay lendExt) o → State (satsPay lendExt) → Prop
  | same {o : Op (satsPay lendExt)} {s s' : State (satsPay lendExt)}
      {a : Op.Resp (satsPay lendExt) o} (h : Exec 0 o s a s') : Unindexed o s a s'
  | insert {input : LedgerCreditInput} {s : State (satsPay lendExt)} {t : Tx (satsPay lendExt)}
      {ws : List CoreWrite} (ht : s.tx 0 = some t) (ha : t.aborted = false)
      (he : (t.view s.db).core.insertUnindexed input = .ok ((), ws)) :
      Unindexed (.tx (.core (.insertLedgerEntry input))) s (.ok ())
        (s.setTx 0 (some ⟨t.writes ++ ws.map .core, t.locks, false⟩))

def InsertsEntry : Op (satsPay lendExt) → Prop
  | .tx (.core (.insertLedgerEntry _)) => True
  | _ => False

theorem exec_of_unindexed {o : Op (satsPay lendExt)} {s s' : State (satsPay lendExt)}
    {a : Op.Resp (satsPay lendExt) o} (ho : ¬ InsertsEntry o) (h : Unindexed o s a s') :
    Exec 0 o s a s' := by
  cases h with
  | same h => exact h
  | insert => exact absurd trivial ho

/-! ## Programs that insert no entry -/

abbrev EntryFree {ε α : Type} (c : Lend ε α) : Prop := c.Free fun _ o => ¬ InsertsEntry o

section
variable {ε α : Type}

theorem EntryFree.runs {c : Lend ε α} {s s' : State (satsPay lendExt)} {r : Except ε α}
    (hc : EntryFree c) (h : Prog.Runs Unindexed c s r s') : Prog.Runs (Exec 0) c s r s' := by
  have hexec : ∀ o s a s', ¬ InsertsEntry o → Unindexed o s a s' → Exec 0 o s a s' :=
    fun _ _ _ _ => exec_of_unindexed
  exact Prog.Runs.of_free hexec hc h

theorem lookups_entryFree : Lookups fun _ _ c => EntryFree c :=
  AllowsLookups.lookups
    { core := fun st h hi => by
        cases st with
        | insertLedgerEntry input => exact h input rfl
        | _ => exact hi
      lockReserve := fun _ => id
      reserve := fun _ => id
      findHouse := id
      position := fun _ _ => id
      positions := fun _ => id
      price := fun _ => id
      call := fun _ => id }

theorem entryFree_lendQuery [FromErr DbError ε] (st : LendStmt) :
    EntryFree (lendQuery st : Lend ε _) := within_lendQuery id

theorem entryFree_orPanic (o : Option α) : EntryFree (orPanic o) := lookups_entryFree.orPanic o

theorem entryFree_commit [FromErr DbError ε] : EntryFree (commit : Lend ε _) :=
  free_commit (S := satsPay lendExt) fun _ => id

theorem entryFree_accrue (coin : Coin) : EntryFree (accrue coin) :=
  lookups_entryFree.accrue (entryFree_lendQuery _) fun _ _ _ => entryFree_lendQuery _

theorem entryFree_accrueOther (debtCoin collateralCoin : Coin) (idx : ReserveState) :
    EntryFree (accrueOther debtCoin collateralCoin idx) := by
  unfold accrueOther
  split
  · exact .ret idx
  · exact entryFree_accrue collateralCoin

theorem entryFree_getOrCreatePosition (userId : Uuid) (coin : Coin) :
    EntryFree (getOrCreatePosition userId coin) :=
  lookups_entryFree.getOrCreatePosition (entryFree_lendQuery _)

theorem entryFree_reducePositions (borrowerId : Uuid) (debtCoin collateralCoin : Coin)
    (debtPosition collPosition : OpenPosition) (idxDebt idxColl : ReserveState) (repay seize : ℕ) :
    EntryFree (reducePositions borrowerId debtCoin collateralCoin debtPosition collPosition idxDebt
      idxColl repay seize) :=
  (entryFree_orPanic _).bind fun _ => (entryFree_lendQuery _).bind fun _ =>
    (entryFree_lendQuery _).bind fun _ => (entryFree_orPanic _).bind fun _ =>
      (entryFree_lendQuery _).bind fun _ => (entryFree_lendQuery _).bind fun _ => .ret ()

end

/-! ## From one store to the other -/

/-- Where `A` holds, what ends without the indexes ends alike with them, and meets `B`. -/
def Carries {ε α : Type} (A : State (satsPay lendExt) → Prop) (c : Lend ε α)
    (B : α → State (satsPay lendExt) → Prop) : Prop :=
  ∀ s a s', A s → Prog.Runs Unindexed c s (.ok a) s' → Prog.Runs (Exec 0) c s (.ok a) s' ∧ B a s'

namespace Carries

variable {ε ε' α β : Type} {A A' : State (satsPay lendExt) → Prop}
  {B : α → State (satsPay lendExt) → Prop} {C : β → State (satsPay lendExt) → Prop}

theorem bind {c : Lend ε α} {f : α → Lend ε β} (hc : Carries A c B)
    (hf : ∀ a, Carries (B a) (f a) C) : Carries A (c >>= f) C := by
  intro s b s' hs h
  obtain ⟨a, s₁, h₁, h₂⟩ := h.of_bind
  obtain ⟨hr₁, hB⟩ := hc s a s₁ hs h₁
  obtain ⟨hr₂, hC⟩ := hf a s₁ b s' hB h₂
  exact ⟨hr₁.bind_ok hr₂, hC⟩

theorem mapErr {c : Lend ε α} (g : ε → ε') (hc : Carries A c B) : Carries A (c.mapErr g) B := by
  intro s a s' hs h
  obtain ⟨hr, hB⟩ := hc s a s' hs h.of_mapErr
  exact ⟨hr.mapErr g, hB⟩

/-- A program without entries ends as it does on the store with the indexes. -/
theorem of_free {c : Lend ε α} (hc : EntryFree c)
    (hB : ∀ s a s', A s → Prog.Runs (Exec 0) c s (.ok a) s' → B a s') : Carries A c B := by
  intro s a s' hs h
  have hr := EntryFree.runs hc h
  exact ⟨hr, hB s a s' hs hr⟩

theorem rest {c : Lend ε α} (hc : EntryFree c) : Carries A c fun _ _ => True :=
  of_free hc fun _ _ _ _ _ => trivial

theorem throw (e : ε) : Carries A (.throw e) B := by
  intro s a s' _ h
  cases h

theorem under {P : Db lendExt → Prop} {c : Lend ε α} (h : ∀ v, P v → Carries (Sees v) c B) :
    Carries (fun s => ∃ v, P v ∧ Sees v s) c B := by
  rintro s a s' ⟨v, hv, hs⟩ hr
  exact h v hv s a s' hs hr

theorem given {P : Prop} {c : Lend ε α} (h : P → Carries A c B) :
    Carries (fun s => P ∧ A s) c B := by
  rintro s a s' ⟨hp, hs⟩ hr
  exact h hp s a s' hs hr

theorem pre {c : Lend ε α} (hA : ∀ s, A' s → A s) (hc : Carries A c B) : Carries A' c B :=
  fun s a s' hs h => hc s a s' (hA s hs) h

theorem transaction {db : Db lendExt} {c : Lend LendError α}
    (hc : Carries (Sees db) c fun _ _ => True) :
    Carries (· = .start db) (transaction c) fun _ _ => True := by
  rintro _ a s' rfl h
  obtain ⟨_, s₁, hb, h⟩ := h.of_bind
  obtain ⟨r, s₂, hbody, h⟩ := h.of_bind
  obtain ⟨_, s₃, hr, h⟩ := h.of_bind
  obtain ⟨_, ⟨⟩, hbody⟩ := hbody.of_attempt
  have hb' := EntryFree.runs (free_beginTx (S := satsPay lendExt) fun _ => id) hb
  have hr' := EntryFree.runs (.op (fun _ => id) .ret) hr
  cases r with
  | error e => cases h
  | ok b =>
    obtain ⟨rfl, rfl⟩ := h.of_ret
    obtain ⟨hbody', -⟩ := hc s₁ a s₂ (runs_beginTx id hb') hbody
    exact ⟨hb'.bind_ok (hbody'.attempt.bind_ok (hr'.bind_ok (.ret _ _))), trivial⟩

end Carries

/-! ## Entries -/

section
variable {v : Db lendExt} {type : LedgerType} {key : String}

theorem carries_insert {input : LedgerCreditInput}
    (hu : ∀ n, numeric39 input.amount = some n → v.core.ledger.any (input.entry n).clash = false) :
    Carries (Sees v) (coreQuery (.insertLedgerEntry input) : Lend LedgerError Unit)
      fun _ _ => True := by
  rintro s a s' ⟨db, ws, ⟨ks, rfl⟩, rfl⟩ h
  refine ⟨?_, trivial⟩
  cases h with
  | op h hk =>
    cases h with
    | same h => exact .op h (EntryFree.runs (free_orThrow _) hk)
    | insert ht ha he =>
      obtain ⟨n, hn, hw, rfl⟩ := insertUnindexed_ok he
      obtain rfl := Option.some.inj ((State.setTx_self _ _ _).symm.trans ht)
      have hx := Exec.tx_ok (S := satsPay lendExt) (p := 0) _ (.core (.insertLedgerEntry input)) _
        () [_] ht ha
        (fun q t _ _ k hk => absurd hk List.not_mem_nil)
        (List.mem_map.2 ⟨_, List.mem_singleton_self _, congrArg _
          (insertLedgerEntry_eq_ok hn hw (hu n hn))⟩)
      refine .op ?_ (EntryFree.runs (free_orThrow _) hk)
      simpa [Stmt.locks, CoreStmt.locks] using hx

theorem carries_applyLedgerEntry {walletId : Uuid} {amount : ℤ} {memo : String}
    (hu : Unbooked v.core walletId type key) :
    Carries (Sees v) (applyLedgerEntry (lendEntry walletId amount type key memo))
      fun _ s' => Sees (v.addEntries
        [⟨walletId, amount, type, none, some "LendPosition", some key, some memo⟩]) s' := by
  have hclash : ∀ n, numeric39 (amount : ℚ) = some n → v.core.ledger.any
      ((lendEntry walletId amount type key memo).entry n).clash = false := by
    rintro n -
    exact List.any_eq_false.2 fun e he hc =>
      hu e he (clash_lendEntry.1 hc).1 (clash_lendEntry.1 hc).2
  have hrun : Carries (Sees v) (applyLedgerEntry (lendEntry walletId amount type key memo))
      fun _ _ => True := by
    refine .bind (.of_free (lookups_entryFree.lockWallet _) fun _ _ _ hs h => runs_lockWallet hs h)
      fun _ => .bind (B := fun _ => Sees v) (.of_free (lookups_entryFree.core _ (by simp))
        fun _ _ _ hs h => (runs_coreRead rfl hs h).2) fun held => ?_
    refine .bind (B := fun _ => Sees v) (.of_free (lookups_entryFree.checkReorgHold _ _)
      fun _ _ _ hs h => runs_checkReorgHold h ▸ hs) fun _ => ?_
    exact .bind (.of_free (lookups_entryFree.checkBalance _) fun _ _ _ hs h => (runs_checkBalance hs h).2)
      fun _ => carries_insert hclash
  intro s a s' hs h
  obtain ⟨hr, -⟩ := hrun s a s' hs h
  obtain ⟨e, hb, hs'⟩ := runs_applyLedgerEntry hs hr
  rw [booking_lendEntry hb] at hs'
  exact ⟨hr, hs'⟩

/-- A move goes through if the key is new to both wallets. -/
theorem carries_ledgerMove {fromWallet toWallet : Uuid} {amount : ℕ} {memoOut memoIn : String}
    (hf : Unbooked v.core fromWallet type key) (ht : Unbooked v.core toWallet type key)
    (hne : fromWallet ≠ toWallet) :
    Carries (Sees v) (ledgerMove fromWallet toWallet amount type key memoOut memoIn)
      fun _ s' => ∃ v', Moved v fromWallet toWallet amount type key v' ∧ Sees v' s' := by
  have hneg : (-(amount : ℚ)) = ((-(amount : ℤ) : ℤ) : ℚ) := by push_cast; rfl
  have hpos : (amount : ℚ) = ((amount : ℤ) : ℚ) := by push_cast; rfl
  have hrun : Carries (Sees v) (ledgerMove fromWallet toWallet amount type key memoOut memoIn)
      fun _ _ => True := by
    unfold ledgerMove
    rw [hneg, hpos]
    refine .bind ((carries_applyLedgerEntry hf).mapErr _) fun _ => ?_
    have ht' : Unbooked (v.addEntries [⟨fromWallet, -(amount : ℤ), type, none, some "LendPosition",
        some key, some memoOut⟩]).core toWallet type key := by
      intro e he hw
      rcases List.mem_cons.1 he with rfl | he
      · exact absurd hw hne
      · exact ht e he hw
    intro s a s' hs h
    exact ⟨((carries_applyLedgerEntry ht').mapErr _ s a s' hs h).1, trivial⟩
  intro s a s' hs h
  obtain ⟨hr, -⟩ := hrun s a s' hs h
  exact ⟨hr, runs_ledgerMove hs hr⟩

end

/-! ## Operations -/

structure FirstMove (db : Db lendExt) (userId : Uuid) (coin : Coin) (type : LedgerType)
    (key : String) : Prop where
  wallet : ∀ id, db.core.walletOf userId coin .personal = some id → Unbooked db.core id type key
  pool : ∀ id, PoolOf db coin id → Unbooked db.core id type key

/-- No entry is in the way of those of the operation, nor are they in the way of one another. -/
def LendOp.Unused (db : Db lendExt) : LendOp → Prop
  | .supply userId coin _ => FirstMove db userId coin .lendSupply (lendKey userId coin)
  | .withdraw userId coin _ _ => FirstMove db userId coin .lendWithdraw (lendKey userId coin)
  | .borrow userId coin _ _ => FirstMove db userId coin .lendBorrow (lendKey userId coin)
  | .repay userId coin _ => FirstMove db userId coin .lendRepay (lendKey userId coin)
  | .liquidate liquidatorId borrowerId debtCoin collateralCoin _ _ _ =>
    debtCoin ≠ collateralCoin ∧
      FirstMove db liquidatorId debtCoin .liquidation (lendKey borrowerId debtCoin) ∧
      FirstMove db liquidatorId collateralCoin .liquidation (lendKey borrowerId collateralCoin)

def Alike (db v : Db lendExt) : Prop := v.core = db.core ∧ v.ext.house = db.ext.house

def Untouched (db : Db lendExt) (s : State (satsPay lendExt)) : Prop := ∃ v, Alike db v ∧ Sees v s

section
variable {db v : Db lendExt} {ε α : Type}

theorem untouched_of_sees {s : State (satsPay lendExt)} (h : Sees db s) : Untouched db s :=
  ⟨db, ⟨rfl, rfl⟩, h⟩

theorem Alike.walletOf (h : Alike db v) (userId : Uuid) (coin : Coin) (kind : WalletKind) :
    v.core.walletOf userId coin kind = db.core.walletOf userId coin kind := by rw [h.1]

theorem Alike.poolOf (h : Alike db v) {coin : Coin} {id : Uuid} (hp : PoolOf v coin id) :
    PoolOf db coin id := hp.congr (by rw [h.1]) h.2.symm

/-- A program that only looks. -/
theorem carries_look {c : Lend ε α} (hc : EntryFree c)
    (hB : ∀ v s a s', Sees v s → Prog.Runs (Exec 0) c s (.ok a) s' → Sees v s') :
    Carries (Untouched db) c fun _ => Untouched db :=
  .of_free hc fun _ _ _ ⟨v, hv, hs⟩ h => ⟨v, hv, hB v _ _ _ hs h⟩

theorem carries_accrue (coin : Coin) : Carries (Untouched db) (accrue coin) fun _ => Untouched db := by
  refine .of_free (entryFree_accrue coin) fun s idx s' ⟨v, hv, hs⟩ h => ?_
  obtain ⟨v', ha, hs'⟩ := runs_accrue hs h
  exact ⟨v', ⟨ha.core_eq.trans hv.1, ha.house_eq.trans hv.2⟩, hs'⟩

theorem carries_accrueOther (debtCoin collateralCoin : Coin) (idx : ReserveState) :
    Carries (Untouched db) (accrueOther debtCoin collateralCoin idx) fun _ => Untouched db := by
  refine .of_free (entryFree_accrueOther _ _ _) fun s _ s' ⟨v, hv, hs⟩ h => ?_
  obtain ⟨v', ha, hs'⟩ := runs_accrueOther hs h
  exact ⟨v', ⟨ha.core_eq.trans hv.1, ha.house_eq.trans hv.2⟩, hs'⟩

theorem carries_getOrCreatePosition (userId : Uuid) (coin : Coin) :
    Carries (Untouched db) (getOrCreatePosition userId coin) fun _ => Untouched db := by
  refine .of_free (entryFree_getOrCreatePosition _ _) fun s _ s' ⟨v, hv, hs⟩ h => ?_
  obtain ⟨r, -, -, hs'⟩ := runs_getOrCreatePosition hs h
  exact ⟨_, ⟨(Db.withPosition_core _ _).trans hv.1, (Db.withPosition_house _ _).trans hv.2⟩, hs'⟩

theorem carries_loadPriceTable (maxStale : ℕ) :
    Carries (Untouched db) (loadPriceTable maxStale) fun _ => Untouched db :=
  carries_look (lookups_entryFree.loadPriceTable _) fun _ _ _ _ hs h => (runs_loadPriceTable hs h).2

theorem carries_computeAccountLiquidity (userId : Uuid) (fresh : List (Coin × ReserveState))
    (prices : PriceTable) :
    Carries (Untouched db) (computeAccountLiquidity userId fresh prices) fun _ => Untouched db :=
  carries_look (lookups_entryFree.computeAccountLiquidity _ _ _) fun _ _ _ _ hs h =>
    (runs_computeAccountLiquidity hs h).2

theorem carries_orPanic (o : Option α) : Carries (Untouched db) (orPanic o) fun _ => Untouched db :=
  carries_look (entryFree_orPanic o) fun _ _ _ _ hs h => (runs_orPanic h).2 ▸ hs

theorem carries_readBalance (walletId : Uuid) :
    Carries (Untouched db) (readBalance walletId) fun _ => Untouched db :=
  carries_look (lookups_entryFree.readBalance walletId) fun _ _ _ _ hs h => (runs_readBalance hs h).2

theorem carries_getUserWalletId (userId : Uuid) (coin : Coin) :
    Carries (Untouched db) (getUserWalletId userId coin) fun id s =>
      db.core.walletOf userId coin .personal = some id ∧ Untouched db s := by
  refine .of_free (lookups_entryFree.getUserWalletId _ _) fun s _ s' ⟨v, hv, hs⟩ h => ?_
  obtain ⟨hw, hs'⟩ := runs_getUserWalletId hs h
  exact ⟨(hv.walletOf ..).symm.trans hw, v, hv, hs'⟩

theorem carries_getLendPoolWalletIdTx (coin : Coin) :
    Carries (Untouched db) (getLendPoolWalletIdTx coin) fun id s => PoolOf db coin id ∧ Untouched db s := by
  refine .of_free (lookups_entryFree.getLendPoolWalletIdTx _) fun s _ s' ⟨v, hv, hs⟩ h => ?_
  obtain ⟨hp, hs'⟩ := runs_getLendPoolWalletIdTx hs h
  exact ⟨hv.poolOf hp, v, hv, hs'⟩

theorem carries_openWallets (userId : Uuid) (coin : Coin) :
    Carries (Untouched db) (openWallets userId coin) fun ids s =>
      (db.core.walletOf userId coin .personal = some ids.1 ∧ PoolOf db coin ids.2) ∧ Untouched db s := by
  refine .of_free (lookups_entryFree.openWallets _ _) fun s ⟨_, _⟩ s' ⟨v, hv, hs⟩ h => ?_
  obtain ⟨hw, hp, hs'⟩ := runs_openWallets hs h
  exact ⟨⟨(hv.walletOf ..).symm.trans hw, hv.poolOf hp⟩, v, hv, hs'⟩

/-- From the user to the pool. -/
theorem carries_payIn {userId walletId poolId : Uuid} {coin : Coin} {amount : ℕ}
    {type : LedgerType} {key memoOut memoIn : String} (hu : FirstMove db userId coin type key)
    (h : db.core.walletOf userId coin .personal = some walletId ∧ PoolOf db coin poolId) :
    Carries (Untouched db) (ledgerMove walletId poolId amount type key memoOut memoIn)
      fun _ s' => ∃ v, (∃ v', Alike db v' ∧ Moved v' walletId poolId amount type key v) ∧
        Sees v s' := by
  refine .under fun v hv s a s' hs hr => ?_
  obtain ⟨hr', v', hm, hs'⟩ := carries_ledgerMove (by rw [hv.1]; exact hu.wallet _ h.1)
    (by rw [hv.1]; exact hu.pool _ h.2) (h.2.ne_personal h.1) s a s' hs hr
  exact ⟨hr', v', ⟨v, hv, hm⟩, hs'⟩

/-- From the pool to the user. -/
theorem carries_payOut {userId walletId poolId : Uuid} {coin : Coin} {amount : ℕ}
    {type : LedgerType} {key memoOut memoIn : String} (hu : FirstMove db userId coin type key)
    (h : db.core.walletOf userId coin .personal = some walletId ∧ PoolOf db coin poolId) :
    Carries (Untouched db) (ledgerMove poolId walletId amount type key memoOut memoIn)
      fun _ _ => True := by
  refine .under fun v hv s a s' hs hr => ⟨?_, trivial⟩
  exact (carries_ledgerMove (by rw [hv.1]; exact hu.pool _ h.2)
    (by rw [hv.1]; exact hu.wallet _ h.1) (h.2.ne_personal h.1).symm s a s' hs hr).1

/-- Wallets of two coins are two wallets. -/
theorem walletOf_coin_ne {c : Core} {userId userId' id id' : Uuid} {coin coin' : Coin}
    {kind kind' : WalletKind} (h : c.walletOf userId coin kind = some id)
    (h' : c.walletOf userId' coin' kind' = some id') (hne : coin ≠ coin') : id ≠ id' := by
  rintro rfl
  obtain ⟨w, hl, -, hc, -⟩ := Core.wallet_of_walletOf h
  obtain ⟨w', hl', -, hc', -⟩ := Core.wallet_of_walletOf h'
  cases hl.symm.trans hl'
  exact hne (hc.symm.trans hc')

/-- A move leaves the other wallets alone. -/
theorem Unbooked.of_moved {v v' : Db lendExt} {fromWallet toWallet id : Uuid} {amount : ℕ}
    {type type' : LedgerType} {key key' : String}
    (hm : Moved v fromWallet toWallet amount type key v') (hf : id ≠ fromWallet)
    (ht : id ≠ toWallet) (hu : Unbooked v.core id type' key') : Unbooked v'.core id type' key' := by
  obtain ⟨memoOut, memoIn, rfl⟩ := hm.entries
  intro e he hw
  rcases List.mem_cons.1 he with rfl | he
  · exact absurd hw.symm ht
  rcases List.mem_cons.1 he with rfl | he
  · exact absurd hw.symm hf
  · exact hu e he hw

theorem carries_moveLiquidated {liquidatorId borrowerId : Uuid} {debtCoin collateralCoin : Coin}
    {repay seize : ℕ} (hne : debtCoin ≠ collateralCoin)
    (hd : FirstMove db liquidatorId debtCoin .liquidation (lendKey borrowerId debtCoin))
    (hc : FirstMove db liquidatorId collateralCoin .liquidation
      (lendKey borrowerId collateralCoin)) :
    Carries (Untouched db)
      (moveLiquidated liquidatorId borrowerId debtCoin collateralCoin repay seize)
      fun _ _ => True := by
  refine .bind (carries_getUserWalletId _ _) fun debtWallet => .given fun hdw => ?_
  refine .bind (carries_getUserWalletId _ _) fun collWallet => .given fun hcw => ?_
  refine .bind (carries_getLendPoolWalletIdTx _) fun poolDebt => .given fun hdp => ?_
  refine .bind (carries_getLendPoolWalletIdTx _) fun poolColl => .given fun hcp => ?_
  refine .bind (carries_look ((lookups_entryFree.lockWallets _).mapErr _) fun _ _ _ _ hs h =>
    runs_lockWallets hs h.of_mapErr) fun _ => ?_
  refine .bind (carries_payIn hd ⟨hdw, hdp⟩) fun _ => .under fun v ⟨v', hv, hm⟩ => ?_
  have ⟨_, _, hdp'⟩ := hdp
  have ⟨_, _, hcp'⟩ := hcp
  have hpool : Unbooked v.core poolColl .liquidation (lendKey borrowerId collateralCoin) :=
    .of_moved hm (walletOf_coin_ne hcp' hdw hne.symm) (walletOf_coin_ne hcp' hdp' hne.symm)
      (by rw [hv.1]; exact hc.pool _ hcp)
  have hwallet : Unbooked v.core collWallet .liquidation (lendKey borrowerId collateralCoin) :=
    .of_moved hm (walletOf_coin_ne hcw hdw hne.symm) (walletOf_coin_ne hcw hdp' hne.symm)
      (by rw [hv.1]; exact hc.wallet _ hcw)
  intro s a s' hs h
  exact ⟨(carries_ledgerMove hpool hwallet (hcp.ne_personal hcw).symm s a s' hs h).1, trivial⟩

end

section
variable {db : Db lendExt} {userId : Uuid} {coin : Coin} {amount maxStale : ℕ}

theorem carries_supply (hu : (LendOp.supply userId coin amount).Unused db) :
    Carries (· = .start db) (supply userId coin amount) fun _ _ => True := by
  unfold supply
  split
  · exact .throw _
  refine .transaction (.pre (fun _ => untouched_of_sees) ?_)
  refine .bind (carries_accrue coin) fun idx => ?_
  refine .bind (carries_openWallets userId coin) fun ids => .given fun h => ?_
  refine .bind (carries_payIn hu h) fun _ => .rest ?_
  exact (entryFree_orPanic _).bind fun _ => (entryFree_getOrCreatePosition _ _).bind fun _ =>
    (entryFree_lendQuery _).bind fun _ => (entryFree_lendQuery _).bind fun _ =>
      entryFree_commit.bind fun _ => .ret _

theorem carries_withdraw (hu : (LendOp.withdraw userId coin amount maxStale).Unused db) :
    Carries (· = .start db) (withdraw userId coin amount maxStale) fun _ _ => True := by
  unfold withdraw
  split
  · exact .throw _
  refine .transaction (.pre (fun _ => untouched_of_sees) ?_)
  refine .bind (carries_accrue coin) fun idx => ?_
  refine .bind (carries_loadPriceTable maxStale) fun prices => ?_
  refine .bind (carries_openWallets userId coin) fun ids => .given fun h => ?_
  refine .bind (carries_getOrCreatePosition userId coin) fun position => ?_
  split
  · exact .throw _
  refine .bind (carries_orPanic _) fun real => ?_
  refine .bind (carries_readBalance _) fun available => ?_
  split
  · exact .throw _
  refine .bind (carries_computeAccountLiquidity _ _ _) fun liquidity => ?_
  split
  · exact .throw _
  refine .bind (carries_payOut hu h) fun _ => .rest ?_
  exact (entryFree_orPanic _).bind fun _ => (entryFree_lendQuery _).bind fun _ =>
    (entryFree_lendQuery _).bind fun _ => entryFree_commit.bind fun _ => .ret _

theorem carries_borrow (hu : (LendOp.borrow userId coin amount maxStale).Unused db) :
    Carries (· = .start db) (borrow userId coin amount maxStale) fun _ _ => True := by
  unfold borrow
  split
  · exact .throw _
  split
  · exact .throw _
  refine .transaction (.pre (fun _ => untouched_of_sees) ?_)
  refine .bind (carries_accrue coin) fun idx => ?_
  refine .bind (carries_loadPriceTable maxStale) fun prices => ?_
  refine .bind (carries_openWallets userId coin) fun ids => .given fun h => ?_
  refine .bind (carries_readBalance _) fun available => ?_
  split
  · exact .throw _
  refine .bind (carries_computeAccountLiquidity _ _ _) fun liquidity => ?_
  split
  · exact .throw _
  refine .bind (carries_payOut hu h) fun _ => .rest ?_
  exact (entryFree_orPanic _).bind fun _ => (entryFree_getOrCreatePosition _ _).bind fun _ =>
    (entryFree_lendQuery _).bind fun _ => (entryFree_lendQuery _).bind fun _ =>
      entryFree_commit.bind fun _ => .ret _

theorem carries_repay (hu : (LendOp.repay userId coin amount).Unused db) :
    Carries (· = .start db) (repay userId coin amount) fun _ _ => True := by
  unfold repay
  split
  · exact .throw _
  refine .transaction (.pre (fun _ => untouched_of_sees) ?_)
  refine .bind (carries_accrue coin) fun idx => ?_
  refine .bind (carries_openWallets userId coin) fun ids => .given fun h => ?_
  refine .bind (carries_getOrCreatePosition userId coin) fun position => ?_
  split
  · exact .throw _
  refine .bind (carries_orPanic _) fun real => ?_
  refine .bind (carries_payIn hu h) fun _ => .rest ?_
  exact (entryFree_orPanic _).bind fun _ => (entryFree_lendQuery _).bind fun _ =>
    (entryFree_lendQuery _).bind fun _ => entryFree_commit.bind fun _ => .ret _

theorem carries_liquidate {liquidatorId borrowerId : Uuid} {debtCoin collateralCoin : Coin}
    {closeFactorBps : ℕ} (hu : (LendOp.liquidate liquidatorId borrowerId debtCoin collateralCoin
      amount closeFactorBps maxStale).Unused db) :
    Carries (· = .start db) (liquidate liquidatorId borrowerId debtCoin collateralCoin amount
      closeFactorBps maxStale) fun _ _ => True := by
  unfold liquidate
  split
  · exact .throw _
  split
  · exact .throw _
  refine .transaction (.pre (fun _ => untouched_of_sees) ?_)
  refine .bind (carries_loadPriceTable maxStale) fun prices => ?_
  refine .bind (carries_accrue _) fun idxDebt => ?_
  refine .bind (carries_accrueOther _ _ _) fun idxColl => ?_
  refine .bind (carries_getOrCreatePosition _ _) fun debtPosition => ?_
  split
  · exact .throw _
  refine .bind (carries_getOrCreatePosition _ _) fun collPosition => ?_
  split
  · exact .throw _
  refine .bind (carries_computeAccountLiquidity _ _ _) fun liquidity => ?_
  split
  · exact .throw _
  refine .bind (carries_orPanic _) fun debtReal => ?_
  refine .bind (carries_orPanic _) fun collReal => ?_
  split
  split
  · exact .throw _
  refine .bind (carries_moveLiquidated hu.1 hu.2.1 hu.2.2) fun _ => .rest ?_
  exact (entryFree_reducePositions _ _ _ _ _ _ _ _ _).bind fun _ =>
    (lookups_entryFree.core _ (by simp)).bind fun _ => entryFree_commit.bind fun _ => .ret _

end

theorem carries_code {op : LendOp} {db : Db lendExt} (hu : op.Unused db) :
    Carries (· = .start db) op.code fun _ _ => True := by
  cases op with
  | supply userId coin amount => exact .bind (carries_supply hu) fun _ => .rest (.ret ())
  | withdraw userId coin amount maxStale =>
    exact .bind (carries_withdraw hu) fun _ => .rest (.ret ())
  | borrow userId coin amount maxStale => exact .bind (carries_borrow hu) fun _ => .rest (.ret ())
  | repay userId coin amount => exact .bind (carries_repay hu) fun _ => .rest (.ret ())
  | liquidate liquidatorId borrowerId debtCoin collateralCoin amount closeFactorBps maxStale =>
    exact .bind (carries_liquidate hu) fun _ => .rest (.ret ())

section
variable {db v v' : Db lendExt} {userId walletId poolId : Uuid} {coin : Coin} {amount : ℕ}
variable {type : LedgerType} {key : String}

theorem FirstMove.of_unbooked (hw : db.core.walletOf userId coin .personal = some walletId)
    (hp : PoolOf db coin poolId) (huw : Unbooked db.core walletId type key)
    (hup : Unbooked db.core poolId type key) : FirstMove db userId coin type key where
  wallet _ h := Option.some.inj (hw.symm.trans h) ▸ huw
  pool _ h := hp.unique h ▸ hup

theorem firstMove_of_payIn (hv : v.core = db.core)
    (hw : db.core.walletOf userId coin .personal = some walletId) (hp : PoolOf db coin poolId)
    (hm : Moved v walletId poolId amount type key v') : FirstMove db userId coin type key :=
  .of_unbooked hw hp (hv ▸ hm.fromUnbooked) (hv ▸ hm.toUnbooked)

theorem firstMove_of_payOut (hv : v.core = db.core)
    (hw : db.core.walletOf userId coin .personal = some walletId) (hp : PoolOf db coin poolId)
    (hm : Moved v poolId walletId amount type key v') : FirstMove db userId coin type key :=
  .of_unbooked hw hp (hv ▸ hm.toUnbooked) (hv ▸ hm.fromUnbooked)

theorem Moved.ledger_subset (hm : Moved v walletId poolId amount type key v') :
    v.core.ledger ⊆ v'.core.ledger := by
  obtain ⟨memoOut, memoIn, rfl⟩ := hm.entries
  exact List.subset_append_right _ _

theorem Moved.booked (hm : Moved v walletId poolId amount type key v') :
    ¬ Unbooked v'.core poolId type key := by
  obtain ⟨memoOut, memoIn, rfl⟩ := hm.entries
  exact fun h => h _ List.mem_cons_self rfl ⟨rfl, rfl, rfl⟩

theorem Moved.booked_from (hm : Moved v poolId walletId amount type key v') :
    ¬ Unbooked v'.core poolId type key := by
  obtain ⟨memoOut, memoIn, rfl⟩ := hm.entries
  exact fun h => h _ (List.mem_cons_of_mem _ List.mem_cons_self) rfl ⟨rfl, rfl, rfl⟩

theorem Moved.poolOf (hm : Moved v poolId walletId amount type key v') {id : Uuid}
    (h : PoolOf v coin id) : PoolOf v' coin id := by
  obtain ⟨memoOut, memoIn, rfl⟩ := hm.entries
  exact h.congr rfl rfl

theorem Accrual.poolOf {coin' : Coin} {idx : ReserveState} (ha : Accrual v coin' idx v') {id : Uuid}
    (h : PoolOf v coin id) : PoolOf v' coin id := h.congr (by rw [ha.core_eq]) ha.house_eq

theorem AccrualOther.poolOf {debtCoin collateralCoin : Coin} {idxDebt idxColl : ReserveState}
    (ho : AccrualOther v debtCoin collateralCoin idxDebt idxColl v') {id : Uuid}
    (h : PoolOf v coin id) : PoolOf v' coin id := h.congr (by rw [ho.core_eq]) ho.house_eq

theorem PoolOf.withPosition {coin' : Coin} {id : Uuid} (h : PoolOf v coin id) (userId : Uuid) :
    PoolOf (v.withPosition userId coin') coin id :=
  h.congr (by rw [Db.withPosition_core]) (Db.withPosition_house _ _)

theorem Unbooked.of_subset {c c' : Core} (hs : c.ledger ⊆ c'.ledger)
    (h : Unbooked c' walletId type key) : Unbooked c walletId type key := fun e he => h e (hs he)

/-- What went through found no entry in its way. -/
theorem LendRun.unused {op : LendOp} (h : LendRun op db v) : op.Unused db := by
  cases h with
  | supply ha hw hp hm _ => exact firstMove_of_payIn ha.core_eq hw hp hm
  | withdraw ha hw hp _ _ _ hm _ =>
    exact firstMove_of_payOut ((Db.withPosition_core _ _).trans ha.core_eq) hw hp hm
  | borrow ha hw hp _ hm _ => exact firstMove_of_payOut ha.core_eq hw hp hm
  | repay ha hw hp _ _ hm _ =>
    exact firstMove_of_payIn ((Db.withPosition_core _ _).trans ha.core_eq) hw hp hm
  | @liquidate _ _ v₂ _ _ _ _ _ borrowerId _ _ _ _ debtCoin collateralCoin _ _ _ _ _ _ _ _ _ _ _ _
      ha ho _ _ _ _ _ hdw hcw hdp hcp hmd hmc _ _ =>
    have hv : ((v₂.withPosition borrowerId debtCoin).withPosition borrowerId
        collateralCoin).core = db.core := by
      rw [Db.withPosition_core, Db.withPosition_core, ho.core_eq, ha.core_eq]
    have hsub := hv ▸ hmd.ledger_subset
    refine ⟨?_, firstMove_of_payIn hv hdw hdp hmd, .of_unbooked hcw hcp
      (hmc.toUnbooked.of_subset hsub) (hmc.fromUnbooked.of_subset hsub)⟩
    rintro rfl
    -- the pool of the one coin would take the repayment and give the collateral
    obtain rfl := hdp.unique hcp
    exact hmd.booked hmc.fromUnbooked

/-- What has gone through is in the way of the same again. -/
theorem LendRun.used {op : LendOp} (h : LendRun op db v) : ¬ op.Unused v := by
  cases h with
  | supply ha hw hp hm _ =>
    intro hu
    refine hm.booked ?_
    have := hu.pool _ ((hm.poolOf (ha.poolOf hp)).withPosition _ |>.congr rfl rfl)
    rwa [Db.write_core, Db.write_core, Db.withPosition_core] at this
  | withdraw ha hw hp _ _ _ hm _ =>
    exact fun hu => hm.booked_from
      (hu.pool _ (hm.poolOf ((ha.poolOf hp).withPosition _) |>.congr rfl rfl))
  | borrow ha hw hp _ hm _ =>
    intro hu
    refine hm.booked_from ?_
    have := hu.pool _ ((hm.poolOf (ha.poolOf hp)).withPosition _ |>.congr rfl rfl)
    rwa [Db.write_core, Db.write_core, Db.withPosition_core] at this
  | repay ha hw hp _ _ hm _ =>
    exact fun hu => hm.booked
      (hu.pool _ (hm.poolOf ((ha.poolOf hp).withPosition _) |>.congr rfl rfl))
  | liquidate ha ho _ _ _ _ _ hdw hcw hdp hcp hmd hmc _ _ =>
    have hcp' := hmc.poolOf (hmd.poolOf (((ho.poolOf (ha.poolOf hcp)).withPosition _).withPosition _))
    exact fun hu => hmc.booked_from (hu.2.2.pool _ (hcp'.congr rfl rfl))

end

/-- An operation whose own checks pass is committed if and only if no entry is in its way. -/
theorem committed_iff_unused (op : LendOp) {db : Db lendExt} {s : State (satsPay lendExt)}
    (h : Prog.Runs Unindexed op.code (.start db) (.ok ()) s) :
    Prog.Runs (Exec 0) op.code (.start db) (.ok ()) s ↔ op.Unused db :=
  ⟨fun hr => (lendRun_of_commits ⟨s, hr, rfl⟩).unused, fun hu => (carries_code hu _ _ _ rfl h).1⟩

/-! User 7 supplies twice from one deposit. -/

def smallDeposit : Db lendExt where
  core := {
    now := 0
    wallets := ((∅ : Table Wallet).insert 1 ⟨7, .btc, .personal, none⟩).insert 2
      ⟨9, .btc, .lendPool, none⟩
    ledger := [⟨1, 1000, .deposit, none, none, none, none⟩]
    jobs := ∅
    outbox := []
    auditLogs := [] }
  ext := ⟨fun _ => ⟨some (.fresh 0), ∅⟩, fun _ => none, some 9⟩

def smallSupply : LendOp := .supply 7 .btc 400

def indexed? (o : Op (satsPay lendExt)) (s : State (satsPay lendExt)) :
    Option (Op.Resp (satsPay lendExt) o × State (satsPay lendExt)) :=
  Runner.alone? (S := satsPay lendExt) (fun _ => (0 : Instant)) o s

def unindexed? : (o : Op (satsPay lendExt)) → State (satsPay lendExt) →
    Option (Op.Resp (satsPay lendExt) o × State (satsPay lendExt))
  | .tx (.core (.insertLedgerEntry input)), s =>
    match s.tx 0 with
    | none => none
    | some t =>
      if t.aborted then none
      else match (t.view s.db).core.insertUnindexed input with
        | .ok ((), ws) =>
          some (.ok (), s.setTx 0 (some ⟨t.writes ++ ws.map .core, t.locks, false⟩))
        | .error _ => none
  | o, s => indexed? o s

theorem unindexed_of_unindexed? {o : Op (satsPay lendExt)} {s s' : State (satsPay lendExt)}
    {r : Op.Resp (satsPay lendExt) o} (hb : Bounded 1 s)
    (h : unindexed? o s = some (r, s')) : Unindexed o s r s' ∧ Bounded 1 s' := by
  unfold unindexed? at h
  split at h
  · split at h
    · cases h
    · rename_i t ht
      split at h
      · cases h
      · rename_i ha
        split at h
        · rename_i he
          cases h
          exact ⟨.insert ht (by simpa using ha) he, bounded_setTx hb Nat.one_pos _⟩
        · cases h
  · obtain ⟨hx, hb'⟩ := Runner.exec_of_alone? hb h
    exact ⟨.same hx, hb'⟩

theorem bounded_start (db : Db lendExt) : Bounded 1 (State.start (S := satsPay lendExt) db) :=
  fun _ _ => rfl

/-- A second supply that could be paid is not made. -/
theorem smallSupply_rejected : ∃ db, Commits smallSupply.code smallDeposit () db ∧
    (∃ s, Prog.Runs Unindexed smallSupply.code (.start db) (.ok ()) s) ∧
      ¬ ∃ db', Commits smallSupply.code db () db' := by
  have hplay : ((smallSupply.code.play indexed? (.start smallDeposit)).bind fun x =>
        (smallSupply.code.play unindexed? (.start x.2.db)).map fun y =>
          (x.1.toOption, y.1.toOption)) = some (some (), some ()) := by
    decide +kernel
  obtain ⟨⟨r₁, s₁⟩, h₁, hplay⟩ := Option.bind_eq_some_iff.1 hplay
  obtain ⟨⟨r₂, s₂⟩, h₂, he⟩ := Option.map_eq_some_iff.1 hplay
  cases r₁ with
  | error e => cases he
  | ok _ =>
    cases r₂ with
    | error e => cases he
    | ok _ =>
      have hc : Commits smallSupply.code smallDeposit () s₁.db :=
        ⟨s₁, Prog.runs_of_play (Runner.exec_of_alone? (S := satsPay lendExt)) (bounded_start _) h₁,
          rfl⟩
      refine ⟨s₁.db, hc, ⟨s₂, Prog.runs_of_play unindexed_of_unindexed? (bounded_start _) h₂⟩, ?_⟩
      rintro ⟨db', hc'⟩
      exact (lendRun_of_commits hc).used (lendRun_of_commits hc').unused

theorem smallSupply_committed : ∃ s,
    Prog.Runs Unindexed smallSupply.code (.start smallDeposit) (.ok ()) s ∧
      (Prog.Runs (Exec 0) smallSupply.code (.start smallDeposit) (.ok ()) s ↔
        smallSupply.Unused smallDeposit) := by
  have hplay : (smallSupply.code.play unindexed? (.start smallDeposit)).map
      (fun x => x.1.toOption) = some (some ()) := by
    decide +kernel
  obtain ⟨⟨r, s⟩, h, he⟩ := Option.map_eq_some_iff.1 hplay
  cases r with
  | error e => cases he
  | ok _ =>
    have hr := Prog.runs_of_play unindexed_of_unindexed? (bounded_start _) h
    exact ⟨s, hr, committed_iff_unused smallSupply hr⟩

end SatsPay
