import SatsPay.LedgerRuns
import SatsPay.LendAmounts

/-!
# Operations of the money market, one at a time

What each function has done when it runs alone and ends with a result.
-/

namespace SatsPay

open Interleave ReadCommitted

/-- An operation that runs alone on `db`, with this result and this store after it. -/
def Commits {α : Type} (x : Lend LendError α) (db : Db lendExt) (a : α) (db' : Db lendExt) : Prop :=
  ∃ s, Prog.Runs (Exec 0) x (.start db) (.ok a) s ∧ s.db = db'

/-! ## Statements -/

def Db.write (v : Db lendExt) (w : LendWrite) : Db lendExt := { v with ext := w.apply v.ext }

def Db.addAudit (v : Db lendExt) (log : AuditLog) : Db lendExt :=
  { v with core := { v.core with auditLogs := log :: v.core.auditLogs } }

@[simp] theorem Db.write_core (v : Db lendExt) (w : LendWrite) : (v.write w).core = v.core := rfl
@[simp] theorem Db.write_house (v : Db lendExt) (w : LendWrite) :
    (v.write w).ext.house = v.ext.house := rfl
theorem Db.write_eq_self {v : Db lendExt} {w : LendWrite}
    (h : w.set (v.ext.books w.coin) = v.ext.books w.coin) : v.write w = v := by
  unfold Db.write LendWrite.apply LendDb.onBook
  rw [h, Function.update_eq_self]
  rfl

theorem Db.write_book (v : Db lendExt) (w : LendWrite) :
    (v.write w).ext.books w.coin = w.set (v.ext.books w.coin) := LendDb.onBook_self ..

section
variable {ε α : Type} {v : Db lendExt} {s s' : State (satsPay lendExt)}

theorem runs_lendUtcNow {t : Instant}
    (h : Prog.Runs (Exec 0) (lendUtcNow : Lend ε _) s (.ok t) s') : s = s' :=
  (runs_invoke id h).symm

variable [FromErr DbError ε]

theorem runs_lendQuery {st : LendStmt} {a : st.Ans} (hs : Sees v s)
    (h : Prog.Runs (Exec 0) (lendQuery st : Lend ε _) s (.ok a) s') :
    ∃ ws, .ok (a, ws) ∈ st.eval v.core v.ext ∧ Sees (viewOf (ws.map .ext) v) s' :=
  runs_extQuery hs h

/-- A statement that reads `b`. -/
theorem runs_lendRead {st : LendStmt} {a b : st.Ans} (hb : st.eval v.core v.ext = [.ok (b, [])])
    (hs : Sees v s) (h : Prog.Runs (Exec 0) (lendQuery st : Lend ε _) s (.ok a) s') :
    a = b ∧ Sees v s' := by
  obtain ⟨ws, he, hs'⟩ := runs_lendQuery hs h
  rw [hb] at he
  cases List.mem_singleton.1 he
  exact ⟨rfl, hs'⟩

theorem runs_updateReserve {coin : Coin} {u : ReserveUpdate} {a : Unit} (hs : Sees v s)
    (h : Prog.Runs (Exec 0) (lendQuery (.updateReserve coin u) : Lend ε _) s (.ok a) s') :
    Sees (v.write (.updateReserve coin u)) s' := by
  obtain ⟨ws, he, hs'⟩ := runs_lendQuery hs h
  simp only [LendStmt.eval] at he
  split at he
  · split at he
    · cases List.mem_singleton.1 he
      exact hs'
    · cases List.mem_singleton.1 he
  · rename_i hr
    cases List.mem_singleton.1 he
    rwa [Db.write_eq_self]
    show { v.ext.books coin with reserve := (v.ext.books coin).reserve.map u.set } = _
    rw [hr, Option.map_none, ← hr]
    rfl

theorem runs_updatePosition {coin : Coin} {userId : Uuid} {u : PositionUpdate} {a : Unit}
    (hs : Sees v s)
    (h : Prog.Runs (Exec 0) (lendQuery (.updatePosition userId coin u) : Lend ε _) s (.ok a) s') :
    Sees (v.write (.updatePosition coin userId u)) s' := by
  obtain ⟨ws, he, hs'⟩ := runs_lendQuery hs h
  simp only [LendStmt.eval] at he
  split at he
  · split at he
    · cases List.mem_singleton.1 he
      exact hs'
    · cases List.mem_singleton.1 he
  · rename_i hr
    cases List.mem_singleton.1 he
    rwa [Db.write_eq_self]
    simp only [LendWrite.coin, LendWrite.set, hr]

end

section
variable {α : Type} {v v' : Db lendExt} {s s' : State (satsPay lendExt)}

theorem runs_orPanic {o : Option α} {a : α}
    (h : Prog.Runs (Exec 0) (orPanic o) s (.ok a) s') : o = some a ∧ s = s' := by
  cases o with
  | none => cases h
  | some b => cases h; exact ⟨rfl, rfl⟩

theorem runs_ofExcept {ε : Type} {x : Except ε α} {a : α}
    (h : Prog.Runs (Exec 0) (.ofExcept x : Lend ε α) s (.ok a) s') : x = .ok a ∧ s = s' := by
  cases x with
  | error e => cases h
  | ok b => cases h; exact ⟨rfl, rfl⟩

/-! ## Wallets -/

def PoolOf (v : Db lendExt) (coin : Coin) (id : Uuid) : Prop :=
  ∃ houseId, v.ext.house = some houseId ∧ v.core.walletOf houseId coin .lendPool = some id

theorem PoolOf.unique {coin : Coin} {id id' : Uuid} (h : PoolOf v coin id)
    (h' : PoolOf v coin id') : id = id' := by
  obtain ⟨houseId, hh, hw⟩ := h
  obtain ⟨houseId', hh', hw'⟩ := h'
  cases hh.symm.trans hh'
  exact Option.some.inj (hw.symm.trans hw')

/-- No wallet is one of a user and the pool's. -/
theorem PoolOf.ne_personal {coin coin' : Coin} {userId id walletId : Uuid} (h : PoolOf v coin id)
    (hw : v.core.walletOf userId coin' .personal = some walletId) : walletId ≠ id := by
  rintro rfl
  obtain ⟨_, -, hp⟩ := h
  obtain ⟨w, hl, -, -, hk⟩ := Core.wallet_of_walletOf hw
  obtain ⟨w', hl', -, -, hk'⟩ := Core.wallet_of_walletOf hp
  cases hl.symm.trans hl'
  cases hk.symm.trans hk'

theorem runs_getLendPoolWalletIdTx {coin : Coin} {id : Uuid} (hs : Sees v s)
    (h : Prog.Runs (Exec 0) (getLendPoolWalletIdTx coin) s (.ok id) s') :
    PoolOf v coin id ∧ Sees v s' := by
  obtain ⟨house, s₁, h₁, h⟩ := (Prog.Runs.of_mapErr h).of_bind
  obtain ⟨rfl, hs₁⟩ := runs_lendRead rfl hs h₁
  cases hh : v.ext.house with
  | none => rw [hh] at h; cases h
  | some houseId =>
    rw [hh] at h
    obtain ⟨wallet, s₂, h₂, h⟩ := h.of_bind
    obtain ⟨rfl, hs₂⟩ := runs_coreRead rfl hs₁ h₂
    cases hw : v.core.walletOf houseId coin .lendPool with
    | none => rw [hw] at h; cases h
    | some id' =>
      rw [hw] at h
      cases h
      exact ⟨⟨houseId, hh, hw⟩, hs₂⟩

theorem runs_getUserWalletId {userId : Uuid} {coin : Coin} {id : Uuid} (hs : Sees v s)
    (h : Prog.Runs (Exec 0) (getUserWalletId userId coin) s (.ok id) s') :
    v.core.walletOf userId coin .personal = some id ∧ Sees v s' := by
  obtain ⟨wallet, s₁, h₁, h⟩ := h.of_bind
  obtain ⟨rfl, hs₁⟩ := runs_coreRead rfl hs h₁
  cases hw : v.core.walletOf userId coin .personal with
  | none => rw [hw] at h; cases h
  | some id' =>
    rw [hw] at h
    cases h
    exact ⟨rfl, hs₁⟩

theorem runs_openWallets {userId : Uuid} {coin : Coin} {walletId poolId : Uuid} (hs : Sees v s)
    (h : Prog.Runs (Exec 0) (openWallets userId coin) s (.ok (walletId, poolId)) s') :
    v.core.walletOf userId coin .personal = some walletId ∧ PoolOf v coin poolId ∧ Sees v s' := by
  obtain ⟨_, s₁, h₁, h⟩ := h.of_bind
  obtain ⟨hw, hs₁⟩ := runs_getUserWalletId hs h₁
  obtain ⟨_, s₂, h₂, h⟩ := h.of_bind
  obtain ⟨hp, hs₂⟩ := runs_getLendPoolWalletIdTx hs₁ h₂
  obtain ⟨_, s₃, h₃, h⟩ := h.of_bind
  cases h
  exact ⟨hw, hp, runs_lockWallets hs₂ (Prog.Runs.of_mapErr h₃)⟩

theorem runs_readBalance {walletId : Uuid} {n : ℕ} (hs : Sees v s)
    (h : Prog.Runs (Exec 0) (readBalance walletId) s (.ok n) s') :
    n = readU128 0 (v.core.balance walletId) ∧ Sees v s' := by
  obtain ⟨b, s₁, h₁, h⟩ := h.of_bind
  obtain ⟨rfl, hs₁⟩ := runs_coreRead rfl hs (Prog.Runs.of_mapErr h₁)
  obtain ⟨he, rfl⟩ := h.of_ret
  exact ⟨he, hs₁⟩

/-! ## The ledger -/

def Unbooked (c : Core) (walletId : Uuid) (type : LedgerType) (key : String) : Prop :=
  ∀ e ∈ c.ledger, e.walletId = walletId →
    ¬ (e.type = type ∧ e.referenceType = some "LendPosition" ∧ e.referenceKey = some key)

structure Moved (v : Db lendExt) (fromWallet toWallet : Uuid) (amount : ℕ) (type : LedgerType)
    (key : String) (v' : Db lendExt) : Prop where
  covered : 0 < amount → (amount : ℤ) ≤ v.core.balance fromWallet
  entries : ∃ memoOut memoIn, v' = v.addEntries
    [⟨toWallet, amount, type, none, some "LendPosition", some key, some memoIn⟩,
      ⟨fromWallet, -amount, type, none, some "LendPosition", some key, some memoOut⟩]
  fromUnbooked : Unbooked v.core fromWallet type key
  toUnbooked : Unbooked v.core toWallet type key
  apart : fromWallet ≠ toWallet

theorem booking_lendEntry {walletId : Uuid} {amount : ℤ} {type : LedgerType} {key memo : String}
    {e : LedgerEntry} (h : Booking v (lendEntry walletId amount type key memo) e) :
    e = ⟨walletId, amount, type, none, some "LendPosition", some key, some memo⟩ := by
  obtain ⟨n, hn, rfl⟩ := h.entry
  obtain ⟨rfl, -⟩ := numeric39_int_eq_some.1 hn
  rfl

/-- An entry of the same wallet, type and key clashes. -/
theorem clash_lendEntry {walletId : Uuid} {amount : ℤ} {type : LedgerType} {key : String}
    {memo : Option String} {f : LedgerEntry} :
    (LedgerEntry.mk walletId amount type none (some "LendPosition") (some key) memo).clash f = true ↔
      f.walletId = walletId ∧ f.type = type ∧ f.referenceType = some "LendPosition" ∧
        f.referenceKey = some key := by
  simp only [LedgerEntry.clash, Bool.and_eq_true, Bool.or_eq_true, beq_iff_eq, Option.isSome_some,
    Option.isSome_none, and_true, Bool.false_eq_true, false_and, false_or, true_and]
  constructor
  · rintro ⟨⟨⟨h₁, h₂⟩, h₃⟩, h₄⟩
    exact ⟨h₁.symm, h₂.symm, h₃.symm, h₄.symm⟩
  · rintro ⟨h₁, h₂, h₃, h₄⟩
    exact ⟨⟨⟨h₁.symm, h₂.symm⟩, h₃.symm⟩, h₄.symm⟩

theorem runs_ledgerMove {fromWallet toWallet : Uuid} {amount : ℕ} {type : LedgerType}
    {key memoOut memoIn : String} {a : Unit} (hs : Sees v s)
    (h : Prog.Runs (Exec 0) (ledgerMove fromWallet toWallet amount type key memoOut memoIn) s
      (.ok a) s') :
    ∃ v', Moved v fromWallet toWallet amount type key v' ∧ Sees v' s' := by
  obtain ⟨_, s₁, h₁, h⟩ := h.of_bind
  obtain ⟨e₁, hb₁, hs₁⟩ := runs_applyLedgerEntry hs (Prog.Runs.of_mapErr h₁)
  obtain ⟨e₂, hb₂, hs₂⟩ := runs_applyLedgerEntry hs₁ (Prog.Runs.of_mapErr h)
  have hneg : (-(amount : ℚ)) = ((-(amount : ℤ) : ℤ) : ℚ) := by push_cast; rfl
  have hpos : (amount : ℚ) = ((amount : ℤ) : ℚ) := by push_cast; rfl
  rw [hneg] at hb₁
  rw [hpos] at hb₂
  obtain rfl := booking_lendEntry hb₁
  obtain rfl := booking_lendEntry hb₂
  have hu₁ := List.any_eq_false.1 hb₁.unused
  have hu₂ := List.any_eq_false.1 hb₂.unused
  refine ⟨_, ⟨fun hp => ?_, ⟨memoOut, memoIn, rfl⟩, fun e he hw hc => ?_, fun e he hw hc => ?_,
    fun heq => ?_⟩, hs₂⟩
  · have hc := hb₁.covered (by simpa [lendEntry] using hp)
    simp only [lendEntry] at hc
    have hc' : (0 : ℚ) ≤ ((v.core.balance fromWallet + -(amount : ℤ) : ℤ) : ℚ) := by
      push_cast at hc ⊢
      exact hc
    have := Int.cast_nonneg_iff.1 hc'
    omega
  · exact hu₁ e he (clash_lendEntry.2 ⟨hw, hc⟩)
  · exact hu₂ e (List.mem_cons_of_mem _ he) (clash_lendEntry.2 ⟨hw, hc⟩)
  · exact hu₂ _ List.mem_cons_self (clash_lendEntry.2 ⟨heq, rfl, rfl, rfl⟩)

/-! ## Reserves and positions -/

def Db.withReserve (v : Db lendExt) (coin : Coin) : Db lendExt :=
  if (v.ext.books coin).reserve.isSome then v
  else v.write (.putReserve coin (.fresh (v.core.now * 1000000)))

def Db.withPosition (v : Db lendExt) (userId : Uuid) (coin : Coin) : Db lendExt :=
  if ((v.ext.books coin).positions.lookup userId).isSome then v
  else v.write (.putPosition coin userId .fresh)

theorem Db.withReserve_of_some {coin : Coin} {r : Reserve}
    (h : (v.ext.books coin).reserve = some r) : v.withReserve coin = v :=
  if_pos (by rw [h]; rfl)

theorem Db.withReserve_of_none {coin : Coin} (h : (v.ext.books coin).reserve = none) :
    v.withReserve coin = v.write (.putReserve coin (.fresh (v.core.now * 1000000))) :=
  if_neg (by rw [h]; exact Bool.false_ne_true)

theorem Db.withPosition_of_some {userId : Uuid} {coin : Coin} {r : Position}
    (h : (v.ext.books coin).positions.lookup userId = some r) : v.withPosition userId coin = v :=
  if_pos (by rw [h]; rfl)

theorem Db.withPosition_of_none {userId : Uuid} {coin : Coin}
    (h : (v.ext.books coin).positions.lookup userId = none) :
    v.withPosition userId coin = v.write (.putPosition coin userId .fresh) :=
  if_neg (by rw [h]; exact Bool.false_ne_true)

@[simp] theorem Db.withReserve_core (coin : Coin) : (v.withReserve coin).core = v.core := by
  unfold Db.withReserve; split <;> rfl

@[simp] theorem Db.withReserve_house (coin : Coin) :
    (v.withReserve coin).ext.house = v.ext.house := by
  unfold Db.withReserve; split <;> rfl

@[simp] theorem Db.withPosition_core (userId : Uuid) (coin : Coin) :
    (v.withPosition userId coin).core = v.core := by
  unfold Db.withPosition; split <;> rfl

@[simp] theorem Db.withPosition_house (userId : Uuid) (coin : Coin) :
    (v.withPosition userId coin).ext.house = v.ext.house := by
  unfold Db.withPosition; split <;> rfl

inductive Accrual (v : Db lendExt) (coin : Coin) (idx : ReserveState) : Db lendExt → Prop
  | mk {r : Reserve} {poolId : Uuid} {realDebt : ℕ} {elapsedMs : ℤ} {now : Instant}
      (hr : ((v.withReserve coin).ext.books coin).reserve = some r) (hp : PoolOf v coin poolId)
      (hd : scaledToAmount (readU128 0 r.totalScaledDebt) (readU128 ray r.borrowIndex) =
        some realDebt)
      (hg : grow (lendMarket coin) ⟨readU128 ray r.liquidityIndex, readU128 ray r.borrowIndex⟩
        realDebt (readU128 0 (v.core.balance poolId)) elapsedMs = some idx) :
      Accrual v coin idx ((v.withReserve coin).write
        (.updateReserve coin (.accrued idx.liquidityIndex idx.borrowIndex now)))

inductive AccrualOther (v : Db lendExt) (debtCoin collateralCoin : Coin) (idxDebt : ReserveState) :
    ReserveState → Db lendExt → Prop
  | same (h : collateralCoin = debtCoin) : AccrualOther v debtCoin collateralCoin idxDebt idxDebt v
  | other {idxColl : ReserveState} {v' : Db lendExt} (h : collateralCoin ≠ debtCoin)
      (ha : Accrual v collateralCoin idxColl v') :
      AccrualOther v debtCoin collateralCoin idxDebt idxColl v'

theorem Accrual.core_eq {coin : Coin} {idx : ReserveState} (h : Accrual v coin idx v') :
    v'.core = v.core := by
  cases h
  exact Db.withReserve_core coin

theorem Accrual.house_eq {coin : Coin} {idx : ReserveState} (h : Accrual v coin idx v') :
    v'.ext.house = v.ext.house := by
  cases h
  exact Db.withReserve_house coin

theorem Accrual.prices_eq {coin : Coin} {idx : ReserveState} (h : Accrual v coin idx v') :
    v'.ext.prices = v.ext.prices := by
  cases h
  show (v.withReserve coin).ext.prices = _
  unfold Db.withReserve
  split <;> rfl

theorem AccrualOther.core_eq {debtCoin collateralCoin : Coin} {idxDebt idxColl : ReserveState}
    (h : AccrualOther v debtCoin collateralCoin idxDebt idxColl v') : v'.core = v.core := by
  cases h with
  | same _ => rfl
  | other _ ha => exact ha.core_eq

theorem AccrualOther.house_eq {debtCoin collateralCoin : Coin} {idxDebt idxColl : ReserveState}
    (h : AccrualOther v debtCoin collateralCoin idxDebt idxColl v') :
    v'.ext.house = v.ext.house := by
  cases h with
  | same _ => rfl
  | other _ ha => exact ha.house_eq

theorem PoolOf.congr {v v' : Db lendExt} {coin : Coin} {id : Uuid} (h : PoolOf v coin id)
    (hw : v'.core.wallets = v.core.wallets) (hh : v'.ext.house = v.ext.house) :
    PoolOf v' coin id := by
  obtain ⟨houseId, hhouse, hwallet⟩ := h
  refine ⟨houseId, hh.trans hhouse, ?_⟩
  unfold Core.walletOf at hwallet ⊢
  rwa [hw]

theorem runs_openReserve {coin : Coin} {state : ReserveState} {debt : ℕ} {last : Instant}
    (hs : Sees v s)
    (h : Prog.Runs (Exec 0) (openReserve coin (v.ext.books coin).reserve) s
      (.ok (state, debt, last)) s') :
    ∃ r, ((v.withReserve coin).ext.books coin).reserve = some r ∧
      state = ⟨readU128 ray r.liquidityIndex, readU128 ray r.borrowIndex⟩ ∧
      debt = readU128 0 r.totalScaledDebt ∧ Sees (v.withReserve coin) s' := by
  cases hr : (v.ext.books coin).reserve with
  | some r =>
    rw [hr] at h
    rw [Db.withReserve_of_some hr]
    obtain ⟨he, rfl⟩ := h.of_ret
    simp only [Prod.mk.injEq] at he
    exact ⟨r, hr, he.1, he.2.1, hs⟩
  | none =>
    rw [hr] at h
    rw [Db.withReserve_of_none hr]
    obtain ⟨_, s₁, h₁, h⟩ := h.of_bind
    obtain ⟨now, s₂, h₂, h⟩ := h.of_bind
    obtain rfl := runs_lendUtcNow h₂
    obtain ⟨he, rfl⟩ := h.of_ret
    simp only [Prod.mk.injEq] at he
    obtain ⟨ws, hw, hs₁⟩ := runs_lendQuery hs h₁
    simp only [LendStmt.eval, hr, Option.isSome_none, Bool.false_eq_true, if_false] at hw
    cases List.mem_singleton.1 hw
    refine ⟨.fresh (v.core.now * 1000000), congrArg LendBook.reserve (Db.write_book v _), ?_, ?_,
      hs₁⟩
    · rw [he.1]
      simp only [Reserve.fresh, readU128_self]
    · exact he.2.1.trans (readU128_self 0).symm

theorem runs_accrue {coin : Coin} {idx : ReserveState} (hs : Sees v s)
    (h : Prog.Runs (Exec 0) (accrue coin) s (.ok idx) s') :
    ∃ v', Accrual v coin idx v' ∧ Sees v' s' := by
  obtain ⟨_, s₁, h₁, h⟩ := h.of_bind
  obtain ⟨-, hs₁⟩ := runs_lendRead rfl hs h₁
  obtain ⟨row, s₂, h₂, h⟩ := h.of_bind
  obtain ⟨rfl, hs₂⟩ := runs_lendRead rfl hs₁ h₂
  obtain ⟨⟨state, totalScaledDebt, last⟩, s₃, h₃, h⟩ := h.of_bind
  obtain ⟨r, hr, rfl, rfl, hs₃⟩ := runs_openReserve hs₂ h₃
  obtain ⟨now, s₄, h₄, h⟩ := h.of_bind
  obtain rfl := runs_lendUtcNow h₄
  obtain ⟨realDebt, _, h₅, h⟩ := h.of_bind
  obtain ⟨hd, rfl⟩ := runs_orPanic h₅
  obtain ⟨poolId, s₆, h₆, h⟩ := h.of_bind
  obtain ⟨hp, hs₆⟩ := runs_getLendPoolWalletIdTx hs₃ h₆
  obtain ⟨available, s₇, h₇, h⟩ := h.of_bind
  obtain ⟨rfl, hs₇⟩ := runs_readBalance hs₆ h₇
  obtain ⟨fresh, _, h₈, h⟩ := h.of_bind
  obtain ⟨hg, rfl⟩ := runs_orPanic h₈
  obtain ⟨_, s₉, h₉, h⟩ := h.of_bind
  obtain ⟨rfl, rfl⟩ := h.of_ret
  dsimp only at hd
  rw [Db.withReserve_core] at hg
  exact ⟨_, .mk hr (hp.congr (by simp) (by simp)) hd hg, runs_updateReserve hs₇ h₉⟩

theorem runs_getOrCreatePosition {userId : Uuid} {coin : Coin} {a : OpenPosition} (hs : Sees v s)
    (h : Prog.Runs (Exec 0) (getOrCreatePosition userId coin) s (.ok a) s') :
    ∃ r, ((v.withPosition userId coin).ext.books coin).positions.lookup userId = some r ∧
      a = r.open ∧ Sees (v.withPosition userId coin) s' := by
  obtain ⟨row, s₁, h₁, h⟩ := h.of_bind
  obtain ⟨rfl, hs₁⟩ := runs_lendRead rfl hs h₁
  cases hr : (v.ext.books coin).positions.lookup userId with
  | some r =>
    rw [hr] at h
    obtain ⟨rfl, rfl⟩ := h.of_ret
    rw [Db.withPosition_of_some hr]
    exact ⟨r, hr, rfl, hs₁⟩
  | none =>
    rw [hr] at h
    rw [Db.withPosition_of_none hr]
    obtain ⟨_, s₂, h₂, h⟩ := h.of_bind
    obtain ⟨rfl, rfl⟩ := h.of_ret
    obtain ⟨ws, he, hs₂⟩ := runs_lendQuery hs₁ h₂
    simp only [LendStmt.eval, hr, Option.isSome_none, Bool.false_eq_true, if_false] at he
    cases List.mem_singleton.1 he
    refine ⟨.fresh, ?_, ?_, hs₂⟩
    · have hb := Db.write_book v (.putPosition coin userId .fresh)
      exact (congrArg (fun b : LendBook => b.positions.lookup userId) hb).trans
        (AList.lookup_insert ..)
    · simp only [Position.open, Position.fresh, readU128_self]

def PricedAs (v : Db lendExt) (coin : Coin) (price : ℕ × ℕ) : Prop :=
  ∃ r, v.ext.prices coin = some r ∧ r.toU128 = some price.1 ∧ r.priceDecimals = price.2

def Priced (v : Db lendExt) (prices : PriceTable) : Prop := ∀ coin, PricedAs v coin (prices coin)

theorem PricedAs.unique {coin : Coin} {price price' : ℕ × ℕ} (h : PricedAs v coin price)
    (h' : PricedAs v coin price') : price = price' := by
  obtain ⟨r, hr, hp, hd⟩ := h
  obtain ⟨r', hr', hp', hd'⟩ := h'
  cases hr.symm.trans hr'
  exact Prod.ext (Option.some.inj (hp.symm.trans hp')) (hd.symm.trans hd')

theorem openPrice_ok {coin : Coin} {maxStale : ℕ} {now : Instant} {r : CachedPrice} {price : ℕ × ℕ}
    (h : openPrice coin maxStale now r = .ok price) :
    r.toU128 = some price.1 ∧ r.priceDecimals = price.2 := by
  unfold openPrice at h
  split at h
  · cases h
  split at h
  · rename_i hp
    cases h
    exact ⟨hp, rfl⟩
  · cases h

theorem runs_getPrice {coin : Coin} {maxStale : ℕ} {price : ℕ × ℕ} (hs : Sees v s)
    (h : Prog.Runs (Exec 0) (getPrice coin maxStale) s (.ok price) s') :
    PricedAs v coin price ∧ Sees v s' := by
  obtain ⟨row, s₁, h₁, h⟩ := h.of_bind
  obtain ⟨rfl, hs₁⟩ := runs_lendRead rfl hs h₁
  cases hr : v.ext.prices coin with
  | none => rw [hr] at h; cases h
  | some r =>
    rw [hr] at h
    obtain ⟨now, s₂, h₂, h⟩ := h.of_bind
    obtain rfl := runs_lendUtcNow h₂
    obtain ⟨hp, rfl⟩ := runs_ofExcept h
    exact ⟨⟨r, hr, openPrice_ok hp⟩, hs₁⟩

/-- The coins loaded are priced, and the others keep what they had. -/
theorem runs_loadPrices {maxStale : ℕ} {l : List Coin} {prices prices' : PriceTable}
    (hs : Sees v s) (h : Prog.Runs (Exec 0) (loadPrices maxStale l prices) s (.ok prices') s') :
    (∀ coin, (coin ∈ l → PricedAs v coin (prices' coin)) ∧
      (coin ∉ l → prices' coin = prices coin)) ∧ Sees v s' := by
  induction l generalizing prices s with
  | nil => cases h; exact ⟨fun _ => ⟨fun hc => absurd hc List.not_mem_nil, fun _ => rfl⟩, hs⟩
  | cons coin l ih =>
    obtain ⟨price, s₁, h₁, h⟩ := h.of_bind
    obtain ⟨hp, hs₁⟩ := runs_getPrice hs h₁
    obtain ⟨hl, hs'⟩ := ih hs₁ h
    refine ⟨fun c => ⟨fun hc => ?_, fun hc => ?_⟩, hs'⟩
    · by_cases hcl : c ∈ l
      · exact (hl c).1 hcl
      · obtain rfl := (List.mem_cons.1 hc).resolve_right hcl
        rw [(hl c).2 hcl, Function.update_self]
        exact hp
    · obtain ⟨hne, hcl⟩ := not_or.1 (mt List.mem_cons.2 hc)
      rw [(hl c).2 hcl, Function.update_of_ne hne]

theorem mem_coins (coin : Coin) : coin ∈ coins := by
  cases coin <;> decide

theorem runs_loadPriceTable {maxStale : ℕ} {prices : PriceTable} (hs : Sees v s)
    (h : Prog.Runs (Exec 0) (loadPriceTable maxStale) s (.ok prices) s') :
    Priced v prices ∧ Sees v s' := by
  obtain ⟨hp, hs'⟩ := runs_loadPrices hs (Prog.Runs.of_mapErr h)
  exact ⟨fun coin => (hp coin).1 (mem_coins coin), hs'⟩

def Db.indexesFor (v : Db lendExt) (fresh : List (Coin × ReserveState)) (coin : Coin) :
    ReserveState :=
  match fresh.lookup coin with
  | some r => r
  | none => match (v.ext.books coin).reserve with
    | some r => ⟨readU128 ray r.liquidityIndex, readU128 ray r.borrowIndex⟩
    | none => ⟨ray, ray⟩

def addAll (indexes : Coin → ReserveState) (prices : PriceTable) :
    List (Coin × Position) → AccountLiquidity → Option AccountLiquidity
  | [], a => some a
  | (coin, r) :: rows, a => (a.add prices coin r.open (indexes coin)).bind (addAll indexes prices rows)

def Db.liquidity (v : Db lendExt) (userId : Uuid) (fresh : List (Coin × ReserveState))
    (prices : PriceTable) : Option AccountLiquidity :=
  addAll (v.indexesFor fresh) prices (v.ext.positionsOf userId) ⟨0, 0, 0⟩

theorem runs_indexesFor {fresh : List (Coin × ReserveState)} {coin : Coin} {r : ReserveState}
    (hs : Sees v s) (h : Prog.Runs (Exec 0) (indexesFor fresh coin) s (.ok r) s') :
    r = v.indexesFor fresh coin ∧ Sees v s' := by
  unfold indexesFor at h
  unfold Db.indexesFor
  cases hl : fresh.lookup coin with
  | some r' =>
    rw [hl] at h
    cases h
    exact ⟨rfl, hs⟩
  | none =>
    rw [hl] at h
    obtain ⟨row, s₁, h₁, h⟩ := h.of_bind
    obtain ⟨rfl, hs₁⟩ := runs_lendRead rfl hs h₁
    split at h <;> rename_i hr <;> obtain ⟨rfl, rfl⟩ := h.of_ret <;> rw [hr] <;> exact ⟨rfl, hs₁⟩

theorem runs_addPositions {fresh : List (Coin × ReserveState)} {prices : PriceTable}
    {l : List (Coin × Position)} {a a' : AccountLiquidity} (hs : Sees v s)
    (h : Prog.Runs (Exec 0) (addPositions fresh prices l a) s (.ok a') s') :
    addAll (v.indexesFor fresh) prices l a = some a' ∧ Sees v s' := by
  induction l generalizing a s with
  | nil => cases h; exact ⟨rfl, hs⟩
  | cons row l ih =>
    obtain ⟨indexes, s₁, h₁, h⟩ := h.of_bind
    obtain ⟨rfl, hs₁⟩ := runs_indexesFor hs h₁
    obtain ⟨b, _, h₂, h⟩ := h.of_bind
    obtain ⟨hb, rfl⟩ := runs_orPanic h₂
    obtain ⟨hl, hs'⟩ := ih hs₁ h
    exact ⟨Option.bind_eq_some_iff.2 ⟨b, hb, hl⟩, hs'⟩

theorem runs_computeAccountLiquidity {userId : Uuid} {fresh : List (Coin × ReserveState)}
    {prices : PriceTable} {a : AccountLiquidity} (hs : Sees v s)
    (h : Prog.Runs (Exec 0) (computeAccountLiquidity userId fresh prices) s (.ok a) s') :
    v.liquidity userId fresh prices = some a ∧ Sees v s' := by
  obtain ⟨rows, s₁, h₁, h⟩ := h.of_bind
  obtain ⟨rfl, hs₁⟩ := runs_lendRead rfl hs h₁
  exact runs_addPositions hs₁ h

end

/-! ## Operations -/

inductive LendOp where
  | supply (userId : Uuid) (coin : Coin) (amount : ℕ)
  | withdraw (userId : Uuid) (coin : Coin) (amount maxStale : ℕ)
  | borrow (userId : Uuid) (coin : Coin) (amount maxStale : ℕ)
  | repay (userId : Uuid) (coin : Coin) (amount : ℕ)
  | liquidate (liquidatorId borrowerId : Uuid) (debtCoin collateralCoin : Coin)
      (amount closeFactorBps maxStale : ℕ)

def LendOp.code : LendOp → Lend LendError Unit
  | .supply userId coin amount => do
    let _ ← SatsPay.supply userId coin amount
    pure ()
  | .withdraw userId coin amount maxStale => do
    let _ ← SatsPay.withdraw userId coin amount maxStale
    pure ()
  | .borrow userId coin amount maxStale => do
    let _ ← SatsPay.borrow userId coin amount maxStale
    pure ()
  | .repay userId coin amount => do
    let _ ← SatsPay.repay userId coin amount
    pure ()
  | .liquidate liquidatorId borrowerId debtCoin collateralCoin amount closeFactorBps maxStale => do
    let _ ← SatsPay.liquidate liquidatorId borrowerId debtCoin collateralCoin amount closeFactorBps
      maxStale
    pure ()

/-- What an operation has done that went through, but for what it checked of the health of
the account. -/
inductive LendRun : LendOp → Db lendExt → Db lendExt → Prop
  | supply {db v₁ v₂ : Db lendExt} {idx : ReserveState} {userId walletId poolId : Uuid} {coin : Coin}
      {amount scaled : ℕ} (ha : Accrual db coin idx v₁)
      (hw : db.core.walletOf userId coin .personal = some walletId) (hp : PoolOf db coin poolId)
      (hm : Moved v₁ walletId poolId amount .lendSupply (lendKey userId coin) v₂)
      (hs : amountToScaled amount idx.liquidityIndex = some scaled) :
      LendRun (.supply userId coin amount) db
        (((v₂.withPosition userId coin).write
          (.updatePosition coin userId (.addSupply scaled))).write
          (.updateReserve coin (.addSupply scaled)))
  | withdraw {db v₁ v₂ : Db lendExt} {idx : ReserveState} {userId walletId poolId : Uuid}
      {coin : Coin} {amount maxStale real scaled : ℕ} {r : Position} (ha : Accrual db coin idx v₁)
      (hw : db.core.walletOf userId coin .personal = some walletId) (hp : PoolOf db coin poolId)
      (hr : ((v₁.withPosition userId coin).ext.books coin).positions.lookup userId = some r)
      (hreal : scaledToAmount r.open.scaledSupply idx.liquidityIndex = some real)
      (hav : min amount real ≤ readU128 0 (db.core.balance poolId))
      (hm : Moved (v₁.withPosition userId coin) poolId walletId (min amount real) .lendWithdraw
        (lendKey userId coin) v₂)
      (hs : amountToScaled (min amount real) idx.liquidityIndex = some scaled) :
      LendRun (.withdraw userId coin amount maxStale) db
        ((v₂.write (.updatePosition coin userId (.setSupply (r.open.scaledSupply - scaled)))).write
          (.updateReserve coin (.subSupply scaled)))
  | borrow {db v₁ v₂ : Db lendExt} {idx : ReserveState} {userId walletId poolId : Uuid}
      {coin : Coin} {amount maxStale scaled : ℕ} (ha : Accrual db coin idx v₁)
      (hw : db.core.walletOf userId coin .personal = some walletId) (hp : PoolOf db coin poolId)
      (hav : amount ≤ readU128 0 (db.core.balance poolId))
      (hm : Moved v₁ poolId walletId amount .lendBorrow (lendKey userId coin) v₂)
      (hs : amountToScaled amount idx.borrowIndex = some scaled) :
      LendRun (.borrow userId coin amount maxStale) db
        (((v₂.withPosition userId coin).write
          (.updatePosition coin userId (.addDebt scaled))).write
          (.updateReserve coin (.addDebt scaled)))
  | repay {db v₁ v₂ : Db lendExt} {idx : ReserveState} {userId walletId poolId : Uuid}
      {coin : Coin} {amount real scaled : ℕ} {r : Position} (ha : Accrual db coin idx v₁)
      (hw : db.core.walletOf userId coin .personal = some walletId) (hp : PoolOf db coin poolId)
      (hr : ((v₁.withPosition userId coin).ext.books coin).positions.lookup userId = some r)
      (hreal : scaledToAmount r.open.scaledDebt idx.borrowIndex = some real)
      (hm : Moved (v₁.withPosition userId coin) walletId poolId (min amount real) .lendRepay
        (lendKey userId coin) v₂)
      (hs : amountToScaled (min amount real) idx.borrowIndex = some scaled) :
      LendRun (.repay userId coin amount) db
        ((v₂.write (.updatePosition coin userId (.setDebt (r.open.scaledDebt - scaled)))).write
          (.updateReserve coin (.subDebt scaled)))
  | liquidate {db v₁ v₂ v₃ v₄ : Db lendExt} {idxDebt idxColl : ReserveState}
      {liquidatorId borrowerId debtWallet collWallet poolDebt poolColl : Uuid}
      {debtCoin collateralCoin : Coin} {amount closeFactorBps maxStale debtReal collReal : ℕ}
      {repay seize scaledRepaid scaledSeized : ℕ} {r c : Position} {prices : PriceTable}
      (ha : Accrual db debtCoin idxDebt v₁)
      (ho : AccrualOther v₁ debtCoin collateralCoin idxDebt idxColl v₂)
      (hr : ((v₂.withPosition borrowerId debtCoin).ext.books debtCoin).positions.lookup borrowerId =
        some r)
      (hc : (((v₂.withPosition borrowerId debtCoin).withPosition borrowerId
        collateralCoin).ext.books collateralCoin).positions.lookup borrowerId = some c)
      (hdebt : scaledToAmount r.open.scaledDebt idxDebt.borrowIndex = some debtReal)
      (hcoll : scaledToAmount c.open.scaledSupply idxColl.liquidityIndex = some collReal)
      (hamounts : liquidationAmounts prices debtCoin collateralCoin amount closeFactorBps debtReal
        collReal = (repay, seize))
      (hdw : db.core.walletOf liquidatorId debtCoin .personal = some debtWallet)
      (hcw : db.core.walletOf liquidatorId collateralCoin .personal = some collWallet)
      (hdp : PoolOf db debtCoin poolDebt) (hcp : PoolOf db collateralCoin poolColl)
      (hmd : Moved ((v₂.withPosition borrowerId debtCoin).withPosition borrowerId collateralCoin)
        debtWallet poolDebt repay .liquidation (lendKey borrowerId debtCoin) v₃)
      (hmc : Moved v₃ poolColl collWallet seize .liquidation (lendKey borrowerId collateralCoin) v₄)
      (hsr : amountToScaled repay idxDebt.borrowIndex = some scaledRepaid)
      (hss : amountToScaled seize idxColl.liquidityIndex = some scaledSeized) :
      LendRun (.liquidate liquidatorId borrowerId debtCoin collateralCoin amount closeFactorBps
          maxStale) db
        ((((v₄.write (.updatePosition debtCoin borrowerId
          (.setDebt (r.open.scaledDebt - scaledRepaid)))).write
          (.updateReserve debtCoin (.subDebt scaledRepaid))).write
          (.updatePosition collateralCoin borrowerId
            (.setSupply (c.open.scaledSupply - scaledSeized)))).write
          (.updateReserve collateralCoin (.subSupply scaledSeized))|>.addAudit
            (liquidateAudit liquidatorId borrowerId debtCoin collateralCoin repay seize))

section
variable {db db' : Db lendExt} {userId : Uuid} {coin : Coin} {amount maxStale n : ℕ}

theorem lendRun_supply (h : Commits (supply userId coin amount) db n db') :
    LendRun (.supply userId coin amount) db db' := by
  obtain ⟨s, hc, rfl⟩ := h
  unfold supply at hc
  split at hc
  · cases hc
  obtain ⟨s₁, s₂, hs₁, h, rfl⟩ := runs_transaction id hc
  obtain ⟨idx, s₃, h₁, h⟩ := h.of_bind
  obtain ⟨v₁, ha, hs₃⟩ := runs_accrue hs₁ h₁
  obtain ⟨⟨walletId, poolId⟩, s₄, h₂, h⟩ := h.of_bind
  obtain ⟨hw, hp, hs₄⟩ := runs_openWallets hs₃ h₂
  obtain ⟨_, s₅, h₃, h⟩ := h.of_bind
  obtain ⟨v₂, hm, hs₅⟩ := runs_ledgerMove hs₄ h₃
  obtain ⟨scaled, _, h₄, h⟩ := h.of_bind
  obtain ⟨hs, rfl⟩ := runs_orPanic h₄
  obtain ⟨_, s₆, h₅, h⟩ := h.of_bind
  obtain ⟨r, -, -, hs₆⟩ := runs_getOrCreatePosition hs₅ h₅
  obtain ⟨_, s₇, h₆, h⟩ := h.of_bind
  have hs₇ := runs_updatePosition hs₆ h₆
  obtain ⟨_, s₈, h₇, h⟩ := h.of_bind
  have hs₈ := runs_updateReserve hs₇ h₇
  obtain ⟨_, s₉, h₈, h⟩ := h.of_bind
  obtain rfl := runs_commit id hs₈ h₈
  obtain ⟨-, rfl⟩ := h.of_ret
  rw [ha.core_eq] at hw
  exact .supply ha hw (hp.congr (by rw [ha.core_eq]) ha.house_eq.symm) hm hs

inductive Withdrawn (userId : Uuid) (coin : Coin) (amount : ℕ) (idx : ReserveState)
    (prices : PriceTable) (liquidity : AccountLiquidity) (db : Db lendExt) : Db lendExt → Prop
  | mk {v₁ v₂ : Db lendExt} {walletId poolId : Uuid} {real scaled : ℕ} {r : Position}
      (ha : Accrual db coin idx v₁)
      (hw : db.core.walletOf userId coin .personal = some walletId) (hp : PoolOf db coin poolId)
      (hr : ((v₁.withPosition userId coin).ext.books coin).positions.lookup userId = some r)
      (hsupply : r.open.scaledSupply ≠ 0)
      (hreal : scaledToAmount r.open.scaledSupply idx.liquidityIndex = some real)
      (hav : min amount real ≤ readU128 0 (db.core.balance poolId)) (hprices : Priced db prices)
      (hliquidity : (v₁.withPosition userId coin).liquidity userId [(coin, idx)] prices =
        some liquidity)
      (hsafe : safeWithdraw coin r.open liquidity prices (min amount real))
      (hm : Moved (v₁.withPosition userId coin) poolId walletId (min amount real) .lendWithdraw
        (lendKey userId coin) v₂)
      (hs : amountToScaled (min amount real) idx.liquidityIndex = some scaled) :
      Withdrawn userId coin amount idx prices liquidity db
        ((v₂.write (.updatePosition coin userId (.setSupply (r.open.scaledSupply - scaled)))).write
          (.updateReserve coin (.subSupply scaled)))

theorem withdrawn_of_commits (h : Commits (withdraw userId coin amount maxStale) db n db') :
    ∃ idx prices liquidity, Withdrawn userId coin amount idx prices liquidity db db' := by
  obtain ⟨s, hc, rfl⟩ := h
  unfold withdraw at hc
  split at hc
  · cases hc
  obtain ⟨s₁, s₂, hs₁, h, rfl⟩ := runs_transaction id hc
  obtain ⟨idx, s₃, h₁, h⟩ := h.of_bind
  obtain ⟨v₁, ha, hs₃⟩ := runs_accrue hs₁ h₁
  obtain ⟨prices, s₄, h₂, h⟩ := h.of_bind
  obtain ⟨hprices, hs₄⟩ := runs_loadPriceTable hs₃ h₂
  obtain ⟨⟨walletId, poolId⟩, s₅, h₃, h⟩ := h.of_bind
  obtain ⟨hw, hp, hs₅⟩ := runs_openWallets hs₄ h₃
  obtain ⟨_, s₆, h₄, h⟩ := h.of_bind
  obtain ⟨r, hr, rfl, hs₆⟩ := runs_getOrCreatePosition hs₅ h₄
  split at h
  · cases h
  rename_i hsupply
  obtain ⟨real, _, h₅, h⟩ := h.of_bind
  obtain ⟨hreal, rfl⟩ := runs_orPanic h₅
  obtain ⟨available, s₇, h₆, h⟩ := h.of_bind
  obtain ⟨rfl, hs₇⟩ := runs_readBalance hs₆ h₆
  split at h
  · cases h
  rename_i hav
  obtain ⟨liquidity, s₈, h₇, h⟩ := h.of_bind
  obtain ⟨hliquidity, hs₈⟩ := runs_computeAccountLiquidity hs₇ h₇
  split at h
  · cases h
  rename_i hsafe
  obtain ⟨_, s₉, h₈, h⟩ := h.of_bind
  obtain ⟨v₂, hm, hs₉⟩ := runs_ledgerMove hs₈ h₈
  obtain ⟨scaled, _, h₉, h⟩ := h.of_bind
  obtain ⟨hs, rfl⟩ := runs_orPanic h₉
  obtain ⟨_, s₁₀, h₁₀, h⟩ := h.of_bind
  have hs₁₀ := runs_updatePosition hs₉ h₁₀
  obtain ⟨_, s₁₁, h₁₁, h⟩ := h.of_bind
  have hs₁₁ := runs_updateReserve hs₁₀ h₁₁
  obtain ⟨_, s₁₂, h₁₂, h⟩ := h.of_bind
  obtain rfl := runs_commit id hs₁₁ h₁₂
  obtain ⟨-, rfl⟩ := h.of_ret
  rw [ha.core_eq] at hw
  rw [Db.withPosition_core, ha.core_eq] at hav
  unfold Priced PricedAs at hprices
  rw [ha.prices_eq] at hprices
  exact ⟨idx, prices, liquidity, .mk ha hw (hp.congr (by rw [ha.core_eq]) ha.house_eq.symm) hr
    hsupply hreal (not_lt.1 hav) hprices hliquidity (not_not.1 hsafe) hm hs⟩

theorem Withdrawn.run {idx : ReserveState} {prices : PriceTable} {liquidity : AccountLiquidity}
    (h : Withdrawn userId coin amount idx prices liquidity db db') :
    LendRun (.withdraw userId coin amount maxStale) db db' := by
  cases h with
  | mk ha hw hp hr _ hreal hav _ _ _ hm hs => exact .withdraw ha hw hp hr hreal hav hm hs

inductive Borrowed (userId : Uuid) (coin : Coin) (amount : ℕ) (idx : ReserveState)
    (prices : PriceTable) (liquidity : AccountLiquidity) (db : Db lendExt) : Db lendExt → Prop
  | mk {v₁ v₂ : Db lendExt} {walletId poolId : Uuid} {scaled : ℕ} (ha : Accrual db coin idx v₁)
      (hw : db.core.walletOf userId coin .personal = some walletId) (hp : PoolOf db coin poolId)
      (hav : amount ≤ readU128 0 (db.core.balance poolId)) (hprices : Priced db prices)
      (hliquidity : v₁.liquidity userId [(coin, idx)] prices = some liquidity)
      (hpower : wrap128 (liquidity.debtUsd + valueUsd prices coin amount) ≤ liquidity.borrowPowerUsd)
      (hm : Moved v₁ poolId walletId amount .lendBorrow (lendKey userId coin) v₂)
      (hs : amountToScaled amount idx.borrowIndex = some scaled) :
      Borrowed userId coin amount idx prices liquidity db
        (((v₂.withPosition userId coin).write
          (.updatePosition coin userId (.addDebt scaled))).write
          (.updateReserve coin (.addDebt scaled)))

theorem borrowed_of_commits (h : Commits (borrow userId coin amount maxStale) db n db') :
    ∃ idx prices liquidity, Borrowed userId coin amount idx prices liquidity db db' := by
  obtain ⟨s, hc, rfl⟩ := h
  unfold borrow at hc
  split at hc
  · cases hc
  split at hc
  · cases hc
  obtain ⟨s₁, s₂, hs₁, h, rfl⟩ := runs_transaction id hc
  obtain ⟨idx, s₃, h₁, h⟩ := h.of_bind
  obtain ⟨v₁, ha, hs₃⟩ := runs_accrue hs₁ h₁
  obtain ⟨prices, s₄, h₂, h⟩ := h.of_bind
  obtain ⟨hprices, hs₄⟩ := runs_loadPriceTable hs₃ h₂
  obtain ⟨⟨walletId, poolId⟩, s₅, h₃, h⟩ := h.of_bind
  obtain ⟨hw, hp, hs₅⟩ := runs_openWallets hs₄ h₃
  obtain ⟨available, s₆, h₄, h⟩ := h.of_bind
  obtain ⟨rfl, hs₆⟩ := runs_readBalance hs₅ h₄
  split at h
  · cases h
  rename_i hav
  obtain ⟨liquidity, s₇, h₅, h⟩ := h.of_bind
  obtain ⟨hliquidity, hs₇⟩ := runs_computeAccountLiquidity hs₆ h₅
  split at h
  · cases h
  rename_i hpower
  obtain ⟨_, s₈, h₆, h⟩ := h.of_bind
  obtain ⟨v₂, hm, hs₈⟩ := runs_ledgerMove hs₇ h₆
  obtain ⟨scaled, _, h₇, h⟩ := h.of_bind
  obtain ⟨hs, rfl⟩ := runs_orPanic h₇
  obtain ⟨_, s₉, h₈, h⟩ := h.of_bind
  obtain ⟨r, -, -, hs₉⟩ := runs_getOrCreatePosition hs₈ h₈
  obtain ⟨_, s₁₀, h₉, h⟩ := h.of_bind
  have hs₁₀ := runs_updatePosition hs₉ h₉
  obtain ⟨_, s₁₁, h₁₀, h⟩ := h.of_bind
  have hs₁₁ := runs_updateReserve hs₁₀ h₁₀
  obtain ⟨_, s₁₂, h₁₁, h⟩ := h.of_bind
  obtain rfl := runs_commit id hs₁₁ h₁₁
  obtain ⟨-, rfl⟩ := h.of_ret
  rw [ha.core_eq] at hw hav
  unfold Priced PricedAs at hprices
  rw [ha.prices_eq] at hprices
  exact ⟨idx, prices, liquidity, .mk ha hw (hp.congr (by rw [ha.core_eq]) ha.house_eq.symm)
    (not_lt.1 hav) hprices hliquidity (not_lt.1 hpower) hm hs⟩

theorem Borrowed.run {idx : ReserveState} {prices : PriceTable} {liquidity : AccountLiquidity}
    (h : Borrowed userId coin amount idx prices liquidity db db') :
    LendRun (.borrow userId coin amount maxStale) db db' := by
  cases h with
  | mk ha hw hp hav _ _ _ hm hs => exact .borrow ha hw hp hav hm hs

inductive Repaid (userId : Uuid) (coin : Coin) (amount : ℕ) (idx : ReserveState) (db : Db lendExt) :
    Db lendExt → Prop
  | mk {v₁ v₂ : Db lendExt} {walletId poolId : Uuid} {real scaled : ℕ} {r : Position}
      (ha : Accrual db coin idx v₁)
      (hw : db.core.walletOf userId coin .personal = some walletId) (hp : PoolOf db coin poolId)
      (hr : ((v₁.withPosition userId coin).ext.books coin).positions.lookup userId = some r)
      (hdebt : r.open.scaledDebt ≠ 0)
      (hreal : scaledToAmount r.open.scaledDebt idx.borrowIndex = some real)
      (hm : Moved (v₁.withPosition userId coin) walletId poolId (min amount real) .lendRepay
        (lendKey userId coin) v₂)
      (hs : amountToScaled (min amount real) idx.borrowIndex = some scaled) :
      Repaid userId coin amount idx db
        ((v₂.write (.updatePosition coin userId (.setDebt (r.open.scaledDebt - scaled)))).write
          (.updateReserve coin (.subDebt scaled)))

theorem repaid_of_commits (h : Commits (repay userId coin amount) db n db') :
    ∃ idx, Repaid userId coin amount idx db db' := by
  obtain ⟨s, hc, rfl⟩ := h
  unfold repay at hc
  split at hc
  · cases hc
  obtain ⟨s₁, s₂, hs₁, h, rfl⟩ := runs_transaction id hc
  obtain ⟨idx, s₃, h₁, h⟩ := h.of_bind
  obtain ⟨v₁, ha, hs₃⟩ := runs_accrue hs₁ h₁
  obtain ⟨⟨walletId, poolId⟩, s₄, h₂, h⟩ := h.of_bind
  obtain ⟨hw, hp, hs₄⟩ := runs_openWallets hs₃ h₂
  obtain ⟨_, s₅, h₃, h⟩ := h.of_bind
  obtain ⟨r, hr, rfl, hs₅⟩ := runs_getOrCreatePosition hs₄ h₃
  split at h
  · cases h
  rename_i hdebt
  obtain ⟨real, _, h₄, h⟩ := h.of_bind
  obtain ⟨hreal, rfl⟩ := runs_orPanic h₄
  obtain ⟨_, s₆, h₅, h⟩ := h.of_bind
  obtain ⟨v₂, hm, hs₆⟩ := runs_ledgerMove hs₅ h₅
  obtain ⟨scaled, _, h₆, h⟩ := h.of_bind
  obtain ⟨hs, rfl⟩ := runs_orPanic h₆
  obtain ⟨_, s₇, h₇, h⟩ := h.of_bind
  have hs₇ := runs_updatePosition hs₆ h₇
  obtain ⟨_, s₈, h₈, h⟩ := h.of_bind
  have hs₈ := runs_updateReserve hs₇ h₈
  obtain ⟨_, s₉, h₉, h⟩ := h.of_bind
  obtain rfl := runs_commit id hs₈ h₉
  obtain ⟨-, rfl⟩ := h.of_ret
  rw [ha.core_eq] at hw
  exact ⟨idx, .mk ha hw (hp.congr (by rw [ha.core_eq]) ha.house_eq.symm) hr hdebt hreal hm hs⟩

theorem Repaid.run {idx : ReserveState} (h : Repaid userId coin amount idx db db') :
    LendRun (.repay userId coin amount) db db' := by
  cases h with
  | mk ha hw hp hr _ hreal hm hs => exact .repay ha hw hp hr hreal hm hs

end

section
variable {db db' v : Db lendExt} {s s' : State (satsPay lendExt)}
variable {liquidatorId borrowerId : Uuid} {debtCoin collateralCoin : Coin}

theorem runs_accrueOther {idxDebt idxColl : ReserveState} (hs : Sees v s)
    (h : Prog.Runs (Exec 0) (accrueOther debtCoin collateralCoin idxDebt) s (.ok idxColl) s') :
    ∃ v', AccrualOther v debtCoin collateralCoin idxDebt idxColl v' ∧ Sees v' s' := by
  unfold accrueOther at h
  split at h
  · rename_i hc
    obtain ⟨rfl, rfl⟩ := h.of_ret
    exact ⟨v, .same hc, hs⟩
  · rename_i hc
    obtain ⟨v', ha, hs'⟩ := runs_accrue hs h
    exact ⟨v', .other hc ha, hs'⟩

theorem runs_moveLiquidated {repay seize : ℕ} {a : Unit} (hs : Sees v s)
    (h : Prog.Runs (Exec 0)
      (moveLiquidated liquidatorId borrowerId debtCoin collateralCoin repay seize) s (.ok a) s') :
    ∃ debtWallet collWallet poolDebt poolColl v₁ v₂,
      v.core.walletOf liquidatorId debtCoin .personal = some debtWallet ∧
      v.core.walletOf liquidatorId collateralCoin .personal = some collWallet ∧
      PoolOf v debtCoin poolDebt ∧ PoolOf v collateralCoin poolColl ∧
      Moved v debtWallet poolDebt repay .liquidation (lendKey borrowerId debtCoin) v₁ ∧
      Moved v₁ poolColl collWallet seize .liquidation (lendKey borrowerId collateralCoin) v₂ ∧
      Sees v₂ s' := by
  obtain ⟨debtWallet, s₁, h₁, h⟩ := h.of_bind
  obtain ⟨hdw, hs₁⟩ := runs_getUserWalletId hs h₁
  obtain ⟨collWallet, s₂, h₂, h⟩ := h.of_bind
  obtain ⟨hcw, hs₂⟩ := runs_getUserWalletId hs₁ h₂
  obtain ⟨poolDebt, s₃, h₃, h⟩ := h.of_bind
  obtain ⟨hdp, hs₃⟩ := runs_getLendPoolWalletIdTx hs₂ h₃
  obtain ⟨poolColl, s₄, h₄, h⟩ := h.of_bind
  obtain ⟨hcp, hs₄⟩ := runs_getLendPoolWalletIdTx hs₃ h₄
  obtain ⟨_, s₅, h₅, h⟩ := h.of_bind
  have hs₅ := runs_lockWallets hs₄ (Prog.Runs.of_mapErr h₅)
  obtain ⟨_, s₆, h₆, h⟩ := h.of_bind
  obtain ⟨v₁, hmd, hs₆⟩ := runs_ledgerMove hs₅ h₆
  obtain ⟨v₂, hmc, hs₇⟩ := runs_ledgerMove hs₆ h
  exact ⟨debtWallet, collWallet, poolDebt, poolColl, v₁, v₂, hdw, hcw, hdp, hcp, hmd, hmc, hs₇⟩

theorem runs_reducePositions {debtPosition collPosition : OpenPosition}
    {idxDebt idxColl : ReserveState} {repay seize : ℕ} {a : Unit} (hs : Sees v s)
    (h : Prog.Runs (Exec 0) (reducePositions borrowerId debtCoin collateralCoin debtPosition
      collPosition idxDebt idxColl repay seize) s (.ok a) s') :
    ∃ scaledRepaid scaledSeized, amountToScaled repay idxDebt.borrowIndex = some scaledRepaid ∧
      amountToScaled seize idxColl.liquidityIndex = some scaledSeized ∧
      Sees ((((v.write (.updatePosition debtCoin borrowerId
        (.setDebt (debtPosition.scaledDebt - scaledRepaid)))).write
        (.updateReserve debtCoin (.subDebt scaledRepaid))).write
        (.updatePosition collateralCoin borrowerId
          (.setSupply (collPosition.scaledSupply - scaledSeized)))).write
        (.updateReserve collateralCoin (.subSupply scaledSeized))) s' := by
  obtain ⟨scaledRepaid, _, h₁, h⟩ := h.of_bind
  obtain ⟨hr, rfl⟩ := runs_orPanic h₁
  obtain ⟨_, s₂, h₂, h⟩ := h.of_bind
  have hs₂ := runs_updatePosition hs h₂
  obtain ⟨_, s₃, h₃, h⟩ := h.of_bind
  have hs₃ := runs_updateReserve hs₂ h₃
  obtain ⟨scaledSeized, _, h₄, h⟩ := h.of_bind
  obtain ⟨hz, rfl⟩ := runs_orPanic h₄
  obtain ⟨_, s₅, h₅, h⟩ := h.of_bind
  have hs₅ := runs_updatePosition hs₃ h₅
  obtain ⟨_, s₆, h₆, h⟩ := h.of_bind
  have hs₆ := runs_updateReserve hs₅ h₆
  obtain ⟨-, rfl⟩ := h.of_ret
  exact ⟨scaledRepaid, scaledSeized, hr, hz, hs₆⟩

inductive Liquidated (liquidatorId borrowerId : Uuid) (debtCoin collateralCoin : Coin)
    (amount closeFactorBps : ℕ) (idxDebt idxColl : ReserveState) (prices : PriceTable)
    (liquidity : AccountLiquidity) (repay seize : ℕ) (db : Db lendExt) : Db lendExt → Prop
  | mk {v₁ v₂ v₃ v₄ : Db lendExt} {debtWallet collWallet poolDebt poolColl : Uuid}
      {debtReal collReal scaledRepaid scaledSeized : ℕ} {r c : Position}
      (hprices : Priced db prices) (ha : Accrual db debtCoin idxDebt v₁)
      (ho : AccrualOther v₁ debtCoin collateralCoin idxDebt idxColl v₂)
      (hr : ((v₂.withPosition borrowerId debtCoin).ext.books debtCoin).positions.lookup borrowerId =
        some r)
      (hc : (((v₂.withPosition borrowerId debtCoin).withPosition borrowerId
        collateralCoin).ext.books collateralCoin).positions.lookup borrowerId = some c)
      (hseizable : c.open.scaledSupply ≠ 0 ∧ c.open.useAsCollateral)
      (hliquidity : ((v₂.withPosition borrowerId debtCoin).withPosition borrowerId
        collateralCoin).liquidity borrowerId (freshIndexes debtCoin collateralCoin idxDebt idxColl)
        prices = some liquidity)
      (hunhealthy : liquidity.liquidationCollateralUsd < liquidity.debtUsd)
      (hdebt : scaledToAmount r.open.scaledDebt idxDebt.borrowIndex = some debtReal)
      (hcoll : scaledToAmount c.open.scaledSupply idxColl.liquidityIndex = some collReal)
      (hamounts : liquidationAmounts prices debtCoin collateralCoin amount closeFactorBps debtReal
        collReal = (repay, seize))
      (hpos : repay ≠ 0 ∧ seize ≠ 0)
      (hdw : db.core.walletOf liquidatorId debtCoin .personal = some debtWallet)
      (hcw : db.core.walletOf liquidatorId collateralCoin .personal = some collWallet)
      (hdp : PoolOf db debtCoin poolDebt) (hcp : PoolOf db collateralCoin poolColl)
      (hmd : Moved ((v₂.withPosition borrowerId debtCoin).withPosition borrowerId collateralCoin)
        debtWallet poolDebt repay .liquidation (lendKey borrowerId debtCoin) v₃)
      (hmc : Moved v₃ poolColl collWallet seize .liquidation (lendKey borrowerId collateralCoin) v₄)
      (hsr : amountToScaled repay idxDebt.borrowIndex = some scaledRepaid)
      (hss : amountToScaled seize idxColl.liquidityIndex = some scaledSeized) :
      Liquidated liquidatorId borrowerId debtCoin collateralCoin amount closeFactorBps idxDebt idxColl
        prices liquidity repay seize db
        ((((v₄.write (.updatePosition debtCoin borrowerId
          (.setDebt (r.open.scaledDebt - scaledRepaid)))).write
          (.updateReserve debtCoin (.subDebt scaledRepaid))).write
          (.updatePosition collateralCoin borrowerId
            (.setSupply (c.open.scaledSupply - scaledSeized)))).write
          (.updateReserve collateralCoin (.subSupply scaledSeized))|>.addAudit
            (liquidateAudit liquidatorId borrowerId debtCoin collateralCoin repay seize))

theorem liquidated_of_commits {amount closeFactorBps maxStale : ℕ} {a : LiquidationResult}
    (h : Commits (liquidate liquidatorId borrowerId debtCoin collateralCoin amount closeFactorBps
      maxStale) db a db') :
    ∃ idxDebt idxColl prices liquidity repay seize,
      a = ⟨borrowerId, debtCoin, collateralCoin, repay, seize⟩ ∧
      Liquidated liquidatorId borrowerId debtCoin collateralCoin amount closeFactorBps idxDebt idxColl
        prices liquidity repay seize db db' := by
  obtain ⟨s, hc, rfl⟩ := h
  unfold liquidate at hc
  split at hc
  · cases hc
  split at hc
  · cases hc
  obtain ⟨s₁, s₂, hs₁, h, rfl⟩ := runs_transaction id hc
  obtain ⟨prices, s₃, h₁, h⟩ := h.of_bind
  obtain ⟨hprices, hs₃⟩ := runs_loadPriceTable hs₁ h₁
  obtain ⟨idxDebt, s₄, h₂, h⟩ := h.of_bind
  obtain ⟨v₁, ha, hs₄⟩ := runs_accrue hs₃ h₂
  obtain ⟨idxColl, s₅, h₃, h⟩ := h.of_bind
  obtain ⟨v₂, ho, hs₅⟩ := runs_accrueOther hs₄ h₃
  obtain ⟨_, s₆, h₄, h⟩ := h.of_bind
  obtain ⟨r, hr, rfl, hs₆⟩ := runs_getOrCreatePosition hs₅ h₄
  split at h
  · cases h
  obtain ⟨_, s₇, h₅, h⟩ := h.of_bind
  obtain ⟨c, hcoll, rfl, hs₇⟩ := runs_getOrCreatePosition hs₆ h₅
  split at h
  · cases h
  rename_i hseizable
  obtain ⟨liquidity, s₈, h₆, h⟩ := h.of_bind
  obtain ⟨hliquidity, hs₈⟩ := runs_computeAccountLiquidity hs₇ h₆
  split at h
  · cases h
  rename_i hunhealthy
  obtain ⟨debtReal, _, h₇, h⟩ := h.of_bind
  obtain ⟨hdr, rfl⟩ := runs_orPanic h₇
  obtain ⟨collReal, _, h₈, h⟩ := h.of_bind
  obtain ⟨hcr, rfl⟩ := runs_orPanic h₈
  split at h
  rename_i repay seize hamounts
  split at h
  · cases h
  rename_i hpos
  obtain ⟨_, s₉, h₉, h⟩ := h.of_bind
  obtain ⟨debtWallet, collWallet, poolDebt, poolColl, v₃, v₄, hdw, hcw, hdp, hcp, hmd, hmc, hs₉⟩ :=
    runs_moveLiquidated hs₈ h₉
  obtain ⟨_, s₁₀, h₁₀, h⟩ := h.of_bind
  obtain ⟨scaledRepaid, scaledSeized, hsr, hss, hs₁₀⟩ := runs_reducePositions hs₉ h₁₀
  obtain ⟨_, s₁₁, h₁₁, h⟩ := h.of_bind
  obtain ⟨ws, he, hs₁₁⟩ := runs_coreQuery hs₁₀ h₁₁
  cases List.mem_singleton.1 he
  obtain ⟨_, s₁₂, h₁₂, h⟩ := h.of_bind
  obtain rfl := runs_commit id hs₁₁ h₁₂
  obtain ⟨rfl, rfl⟩ := h.of_ret
  have hcore : ((v₂.withPosition borrowerId debtCoin).withPosition borrowerId
      collateralCoin).core = db.core := by
    rw [Db.withPosition_core, Db.withPosition_core, ho.core_eq, ha.core_eq]
  have hhouse : ((v₂.withPosition borrowerId debtCoin).withPosition borrowerId
      collateralCoin).ext.house = db.ext.house := by
    rw [Db.withPosition_house, Db.withPosition_house, ho.house_eq, ha.house_eq]
  rw [hcore] at hdw hcw
  obtain ⟨hsupply, hcollateral⟩ := not_or.1 hseizable
  exact ⟨idxDebt, idxColl, prices, liquidity, repay, seize, rfl, .mk hprices ha ho hr hcoll
    ⟨hsupply, not_not.1 (not_or.1 hcollateral).1⟩ hliquidity (not_not.1 hunhealthy).2 hdr hcr hamounts
    (not_or.1 hpos) hdw hcw (hdp.congr (by rw [hcore]) hhouse.symm)
    (hcp.congr (by rw [hcore]) hhouse.symm) hmd hmc hsr hss⟩

theorem Liquidated.run {amount closeFactorBps maxStale : ℕ} {idxDebt idxColl : ReserveState}
    {prices : PriceTable} {liquidity : AccountLiquidity} {repay seize : ℕ}
    (h : Liquidated liquidatorId borrowerId debtCoin collateralCoin amount closeFactorBps idxDebt
      idxColl prices liquidity repay seize db db') :
    LendRun (.liquidate liquidatorId borrowerId debtCoin collateralCoin amount closeFactorBps
      maxStale) db db' := by
  cases h with
  | mk _ ha ho hr hc _ _ _ hdebt hcoll hamounts _ hdw hcw hdp hcp hmd hmc hsr hss =>
    exact .liquidate ha ho hr hc hdebt hcoll hamounts hdw hcw hdp hcp hmd hmc hsr hss

end

theorem lendRun_of_commits {op : LendOp} {db db' : Db lendExt} {a : Unit}
    (h : Commits op.code db a db') : LendRun op db db' := by
  obtain ⟨s, h, rfl⟩ := h
  cases op with
  | supply userId coin amount =>
    obtain ⟨n, s₁, h₁, h⟩ := h.of_bind
    cases h
    exact lendRun_supply ⟨s, h₁, rfl⟩
  | withdraw userId coin amount maxStale =>
    obtain ⟨n, s₁, h₁, h⟩ := h.of_bind
    cases h
    obtain ⟨_, _, _, hw⟩ := withdrawn_of_commits ⟨s, h₁, rfl⟩
    exact hw.run
  | borrow userId coin amount maxStale =>
    obtain ⟨n, s₁, h₁, h⟩ := h.of_bind
    cases h
    obtain ⟨_, _, _, hb⟩ := borrowed_of_commits ⟨s, h₁, rfl⟩
    exact hb.run
  | repay userId coin amount =>
    obtain ⟨n, s₁, h₁, h⟩ := h.of_bind
    cases h
    obtain ⟨_, hr⟩ := repaid_of_commits ⟨s, h₁, rfl⟩
    exact hr.run
  | liquidate liquidatorId borrowerId debtCoin collateralCoin amount closeFactorBps maxStale =>
    obtain ⟨n, s₁, h₁, h⟩ := h.of_bind
    cases h
    obtain ⟨_, _, _, _, _, _, -, hl⟩ := liquidated_of_commits ⟨s, h₁, rfl⟩
    exact hl.run

theorem commits_of_play {α : Type} {x : Lend LendError α} {now : Instant} {db : Db lendExt} {a : α}
    {s : State (satsPay lendExt)}
    (h : x.play (Runner.alone? (S := satsPay lendExt) fun _ => now) (.start db) = some (.ok a, s)) :
    Commits x db a s.db :=
  ⟨s, Prog.runs_of_play (Runner.exec_of_alone? (S := satsPay lendExt)) (fun _ _ => rfl) h, rfl⟩

/-- The store after an operation that goes through with this time on the clock. -/
def LendOp.solo (op : LendOp) (now : Instant) (db : Db lendExt) : Option (Db lendExt) :=
  (op.code.play (Runner.alone? (S := satsPay lendExt) fun _ => now) (.start db)).bind fun x =>
    x.1.toOption.map fun _ => x.2.db

theorem commits_of_solo {op : LendOp} {now : Instant} {db db' : Db lendExt}
    (h : op.solo now db = some db') : Commits op.code db () db' := by
  obtain ⟨⟨r, s⟩, hplay, he⟩ := Option.bind_eq_some_iff.1 h
  cases r with
  | error e => cases he
  | ok _ =>
    obtain rfl := Option.some.inj he
    exact commits_of_play hplay

end SatsPay
