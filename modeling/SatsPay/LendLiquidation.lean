import SatsPay.Failures
import SatsPay.LendLiquidity
import SatsPay.LendParts

/-!
# Liquidation

What a liquidation may repay and seize, and that one that fails has changed nothing. The
collateral of the borrower is what can be read of it. Where it does not cover the bonus, the
repayment is computed back from it, and is rounded to the advantage of the liquidator.
-/

namespace SatsPay

open Interleave ReadCommitted

/-! ## Amounts -/

section
variable {prices : PriceTable} {debtCoin collateralCoin coin : Coin}

/-- What is bought with an amount of USD is worth no more than that. -/
theorem valueUsd_usdToAmount_le (usd : ℕ) :
    valueUsd prices coin (usdToAmount prices coin usd) ≤ usd := by
  unfold usdToAmount
  split
  · rw [valueUsd_zero]
    exact Nat.zero_le _
  · refine (valueUsd_le _ _ _).trans (Nat.div_le_of_le_mul ?_)
    calc saturate128 (usd * 10 ^ 8 / (prices coin).1) * (prices coin).1
        ≤ usd * 10 ^ 8 / (prices coin).1 * (prices coin).1 :=
          Nat.mul_le_mul_right _ (saturate128_le _)
      _ ≤ usd * 10 ^ 8 := Nat.div_mul_le_self _ _
      _ = 10 ^ 8 * usd := Nat.mul_comm _ _

/-- The value of what is bought with an amount of USD that is worth something already. -/
theorem valueUsd_usdToAmount {usd amount : ℕ} (hprice : (prices coin).1 ≠ 0) (ha : amount < 2 ^ 128)
    (h : usd ≤ valueUsd prices coin amount) :
    valueUsd prices coin (usdToAmount prices coin usd) =
      usd * 10 ^ 8 / (prices coin).1 * (prices coin).1 / 10 ^ 8 := by
  have hle : usd * 10 ^ 8 / (prices coin).1 ≤ amount := by
    refine Nat.div_le_of_le_mul ?_
    calc usd * 10 ^ 8 ≤ amount * (prices coin).1 / 10 ^ 8 * 10 ^ 8 :=
          Nat.mul_le_mul_right _ (h.trans (valueUsd_le prices coin amount))
      _ ≤ amount * (prices coin).1 := Nat.div_mul_le_self _ _
      _ = (prices coin).1 * amount := Nat.mul_comm _ _
  have hu : usd < 2 ^ 128 := h.trans_lt (by unfold valueUsd saturate128; omega)
  have hback : usd * 10 ^ 8 / (prices coin).1 * (prices coin).1 / 10 ^ 8 ≤ usd :=
    Nat.div_le_of_le_mul ((Nat.div_mul_le_self _ _).trans (Nat.mul_comm _ _).le)
  unfold usdToAmount
  rw [if_neg hprice, saturate128_of_lt (hle.trans_lt ha)]
  exact saturate128_of_lt (hback.trans_lt hu)

theorem div_mul_div_eq_iff {n d k : ℕ} (hk : 0 < k) : n * k / d * d / k = n ↔ n * k % d = 0 := by
  have hsum := Nat.div_add_mod' (n * k) d
  constructor
  · intro h
    have := Nat.div_mul_le_self (n * k / d * d) k
    rw [h] at this
    omega
  · intro h
    rw [show n * k / d * d = n * k by omega, Nat.mul_div_cancel _ hk]

theorem div_mul_div_le (n d : ℕ) {k : ℕ} (hk : 0 < k) : n * k / d * d / k ≤ n :=
  (Nat.div_le_div_right (Nat.div_mul_le_self _ _)).trans_eq (Nat.mul_div_cancel _ hk)

def bonusBps (coin : Coin) : ℕ := 10000 + (lendMarket coin).liquidationBonusBps

theorem lt_bonusBps (coin : Coin) : 10000 < bonusBps coin := by cases coin <;> decide

/-- What is seized is worth no more than what is repaid with the bonus, and one unit of USD. -/
def SeizesWithin (prices : PriceTable) (debtCoin collateralCoin : Coin) (repay seize : ℕ) : Prop :=
  valueUsd prices collateralCoin seize * 10000 ≤
    bonusBps collateralCoin * valueUsd prices debtCoin repay + 10000

/-- The collateral covers the bonus; or what its value is without the bonus buys units of the debt
coin with nothing left over, and leaves no more than one unit of USD itself. -/
def ComesOut (prices : PriceTable) (debtCoin collateralCoin : Coin)
    (amount closeFactorBps debtReal collReal : ℕ) : Prop :=
  usdToAmount prices collateralCoin (wrap128 (valueUsd prices debtCoin
      (min amount (wrap128 (debtReal * closeFactorBps) / 10000)) * bonusBps collateralCoin) / 10000) ≤
    collReal ∨
  valueUsd prices collateralCoin collReal * 10000 / bonusBps collateralCoin * 10 ^ 8 %
      (prices debtCoin).1 = 0 ∧
    valueUsd prices collateralCoin collReal * 10000 % bonusBps collateralCoin ≤ 10000

/-- What is repaid for all of the collateral is rounded twice. -/
theorem back_within_iff {value bonus price : ℕ} (hbonus : 10000 < bonus) :
    value * 10000 ≤ bonus * (value * 10000 / bonus * 10 ^ 8 / price * price / 10 ^ 8) + 10000 ↔
      value * 10000 / bonus * 10 ^ 8 % price = 0 ∧ value * 10000 % bonus ≤ 10000 := by
  have hdiv := Nat.div_add_mod (value * 10000) bonus
  have hle := div_mul_div_le (value * 10000 / bonus) price (show 0 < 10 ^ 8 by decide)
  have hiff := div_mul_div_eq_iff (n := value * 10000 / bonus) (d := price)
    (show 0 < 10 ^ 8 by decide)
  generalize value * 10000 / bonus * 10 ^ 8 / price * price / 10 ^ 8 = back at hle hiff ⊢
  rw [← hiff]
  rcases hle.lt_or_eq with hlt | rfl
  · have := Nat.mul_le_mul_left bonus (Nat.succ_le_of_lt hlt)
    rw [Nat.mul_succ] at this
    exact ⟨fun h => by omega, fun h => absurd h.1 hlt.ne⟩
  · exact ⟨fun h => ⟨rfl, by omega⟩, fun h => by omega⟩

theorem liquidationAmounts_within_iff {amount closeFactorBps debtReal collReal repay seize : ℕ}
    (h : liquidationAmounts prices debtCoin collateralCoin amount closeFactorBps debtReal collReal =
      (repay, seize)) :
    SeizesWithin prices debtCoin collateralCoin repay seize ↔
      ComesOut prices debtCoin collateralCoin amount closeFactorBps debtReal collReal := by
  unfold SeizesWithin ComesOut
  simp only [liquidationAmounts] at h
  rw [show 10000 + (lendMarket collateralCoin).liquidationBonusBps = bonusBps collateralCoin from rfl]
    at h
  have hbonus := lt_bonusBps collateralCoin
  generalize bonusBps collateralCoin = bonus at h hbonus ⊢
  set full := min amount (wrap128 (debtReal * closeFactorBps) / 10000) with hfull
  have hw : wrap128 (valueUsd prices debtCoin full * bonus) < 2 ^ 128 := wrap128_lt _
  have hwle : wrap128 (valueUsd prices debtCoin full * bonus) ≤
      valueUsd prices debtCoin full * bonus := wrap128_le _
  split at h
  · rename_i hlt
    obtain ⟨rfl, rfl⟩ := Prod.mk.inj h
    have hv := valueUsd_le_of_lt hlt
    -- the value of the collateral is below the one foreseen, and so does not wrap
    have hvalue : valueUsd prices collateralCoin collReal * 10000 ≤
        wrap128 (valueUsd prices debtCoin full * bonus) :=
      (Nat.mul_le_mul_right _ hv).trans (Nat.div_mul_le_self _ _)
    have hback : valueUsd prices collateralCoin collReal * 10000 / bonus ≤
        valueUsd prices debtCoin full :=
      Nat.div_le_of_le_mul ((hvalue.trans hwle).trans_eq (Nat.mul_comm _ _))
    have hprice : (prices debtCoin).1 ≠ 0 := by
      intro h0
      have hz : valueUsd prices debtCoin full = 0 := by
        unfold valueUsd
        rw [h0, Nat.mul_zero, Nat.zero_div]
        rfl
      have hseize : usdToAmount prices collateralCoin
          (wrap128 (valueUsd prices debtCoin full * bonus) / 10000) = 0 := by
        rw [hz, Nat.zero_mul, wrap128_of_lt (by decide), Nat.zero_div]
        unfold usdToAmount
        split <;> simp [saturate128]
      omega
    have hf : full < 2 ^ 128 := (min_le_right _ _).trans_lt
      ((Nat.div_le_self _ _).trans_lt (wrap128_lt _))
    rw [wrap128_of_lt (hvalue.trans_lt hw), valueUsd_usdToAmount hprice hf hback,
      back_within_iff hbonus, or_iff_right (not_le.2 hlt)]
  · rename_i hge
    obtain ⟨rfl, rfl⟩ := Prod.mk.inj h
    refine iff_of_true ?_ (.inl (not_lt.1 hge))
    calc valueUsd prices collateralCoin (usdToAmount prices collateralCoin
          (wrap128 (valueUsd prices debtCoin full * bonus) / 10000)) * 10000
        ≤ wrap128 (valueUsd prices debtCoin full * bonus) / 10000 * 10000 :=
          Nat.mul_le_mul_right _ (valueUsd_usdToAmount_le _)
      _ ≤ valueUsd prices debtCoin full * bonus := (Nat.div_mul_le_self _ _).trans hwle
      _ = bonus * valueUsd prices debtCoin full := Nat.mul_comm _ _
      _ ≤ _ := Nat.le_add_right _ _

end

/-! ## Failures -/

section
variable {α : Type}

theorem lookups_leavesStore : Lookups fun _ _ c => Within LeavesStore c :=
  AllowsLookups.lookups
    { core := fun _ _ => trivial
      lockReserve := fun _ => trivial
      reserve := fun _ => trivial
      findHouse := trivial
      position := fun _ _ => trivial
      positions := fun _ => trivial
      price := fun _ => trivial
      call := fun _ => trivial }

theorem within_applyLedgerEntry (input : LedgerCreditInput) :
    Within LeavesStore ((applyLedgerEntry input : Lend LedgerError Unit).mapErr LendError.ledger) :=
  (lookups_leavesStore.applyLedgerEntry (free_query (S := satsPay lendExt) fun _ => trivial)).mapErr _

theorem within_write (st : LendStmt) : Within LeavesStore (lendQuery st : Lend LendError _) :=
  within_lendQuery trivial

theorem within_accrue (coin : Coin) : Within LeavesStore (accrue coin) :=
  lookups_leavesStore.accrue (within_write _) fun _ _ _ => within_write _

theorem within_accrueOther (debtCoin collateralCoin : Coin) (idx : ReserveState) :
    Within LeavesStore (accrueOther debtCoin collateralCoin idx) := by
  unfold accrueOther
  split
  · exact .ret idx
  · exact within_accrue collateralCoin

theorem within_getOrCreatePosition (userId : Uuid) (coin : Coin) :
    Within LeavesStore (getOrCreatePosition userId coin) :=
  lookups_leavesStore.getOrCreatePosition (within_write _)

theorem within_orPanic (o : Option α) : Within LeavesStore (orPanic o) := lookups_leavesStore.orPanic o

theorem within_reducePositions (borrowerId : Uuid) (debtCoin collateralCoin : Coin)
    (debtPosition collPosition : OpenPosition) (idxDebt idxColl : ReserveState) (repay seize : ℕ) :
    Within LeavesStore (reducePositions borrowerId debtCoin collateralCoin debtPosition collPosition
      idxDebt idxColl repay seize) :=
  (within_orPanic _).bind fun _ => (within_write _).bind fun _ => (within_write _).bind fun _ =>
    (within_orPanic _).bind fun _ => (within_write _).bind fun _ => (within_write _).bind fun _ =>
      .ret ()

theorem liquidate_failsClean (liquidatorId borrowerId : Uuid) (debtCoin collateralCoin : Coin)
    (amount closeFactorBps maxStale : ℕ) :
    FailsClean (liquidate liquidatorId borrowerId debtCoin collateralCoin amount closeFactorBps
      maxStale) := by
  unfold liquidate
  split
  · exact .throw _
  split
  · exact .throw _
  refine .transaction (.bind (lookups_leavesStore.loadPriceTable _) fun prices => ?_)
  refine .bind (within_accrue _) fun idxDebt => .bind (within_accrueOther _ _ _) fun idxColl => ?_
  refine .bind (within_getOrCreatePosition _ _) fun debtPosition => ?_
  split
  · exact .throw _
  refine .bind (within_getOrCreatePosition _ _) fun collPosition => ?_
  split
  · exact .throw _
  refine .bind (lookups_leavesStore.computeAccountLiquidity _ _ _) fun liquidity => ?_
  split
  · exact .throw _
  refine .bind (within_orPanic _) fun debtReal => .bind (within_orPanic _) fun collReal => ?_
  dsimp only
  split
  · exact .throw _
  refine .bind (lookups_leavesStore.moveLiquidated within_applyLedgerEntry) fun _ => ?_
  refine .bind (within_reducePositions _ _ _ _ _ _ _ _ _) fun _ => ?_
  exact .bind (free_query (S := satsPay lendExt) fun _ => trivial) fun _ => .commit_ret _

end

/-! ## What a liquidation has done -/

def ApartFromBoth (coin coin' : Coin) (v v' : Db lendExt) : Prop :=
  ∀ c, c ≠ coin → c ≠ coin' → v'.ext.books c = v.ext.books c

section
variable {v v' v'' db db' : Db lendExt} {debtCoin collateralCoin : Coin} {borrowerId : Uuid}
variable {idxDebt idxColl : ReserveState} {prices : PriceTable}

/-- With an index at hand the reserve is not read. -/
theorem indexesFor_of_lookup {fresh : List (Coin × ReserveState)} {c : Coin}
    (h : fresh.lookup c ≠ none) : v'.indexesFor fresh c = v.indexesFor fresh c := by
  unfold Db.indexesFor
  cases hl : fresh.lookup c with
  | none => exact absurd hl h
  | some r => rfl

theorem ApartFromBoth.indexesFor (h : ApartFromBoth debtCoin collateralCoin v v') (c : Coin) :
    v'.indexesFor (freshIndexes debtCoin collateralCoin idxDebt idxColl) c =
      v.indexesFor (freshIndexes debtCoin collateralCoin idxDebt idxColl) c := by
  by_cases hd : c = debtCoin
  · refine indexesFor_of_lookup ?_
    unfold freshIndexes
    split <;> rw [hd, List.lookup_cons_self] <;> exact Option.some_ne_none _
  by_cases hc : c = collateralCoin
  · refine indexesFor_of_lookup ?_
    unfold freshIndexes
    rw [if_neg (hc ▸ hd), List.lookup_cons, beq_eq_false_iff_ne.2 hd, hc]
    simp
  · unfold Db.indexesFor
    rw [h c hd hc]

theorem AccrualOther.apartFrom (h : AccrualOther v debtCoin collateralCoin idxDebt idxColl v') :
    ApartFrom collateralCoin v v' := by
  cases h with
  | same _ => exact fun _ _ => rfl
  | other _ ha => exact ha.apartFrom

theorem AccrualOther.position (h : AccrualOther v debtCoin collateralCoin idxDebt idxColl v')
    (userId : Uuid) (c : Coin) : v'.position userId c = v.position userId c := by
  cases h with
  | same _ => rfl
  | other _ ha => exact ha.position c

theorem AccrualOther.indexes (h : AccrualOther v debtCoin collateralCoin idxDebt idxColl v')
    (hd : v.indexes debtCoin = some idxDebt) :
    v'.indexes debtCoin = some idxDebt ∧ v'.indexes collateralCoin = some idxColl := by
  cases h with
  | same hc => exact ⟨hd, by rw [hc]; exact hd⟩
  | other hc ha =>
    refine ⟨?_, ha.indexes⟩
    unfold Db.indexes
    rw [ha.book_ne (Ne.symm hc)]
    exact hd

theorem withPosition_position_of_ne {userId : Uuid} {coin c : Coin} (hc : c ≠ coin) :
    (v.withPosition userId coin).position userId c = v.position userId c := by
  unfold Db.position
  rw [withPosition_book_ne hc]

theorem withPosition_positions {userId : Uuid} (coin c : Coin) :
    (v.withPosition userId coin).position userId c = v.position userId c := by
  by_cases hc : c = coin
  · rw [hc, Db.withPosition_position]
  · exact withPosition_position_of_ne hc

theorem ApartFrom.first (h : ApartFrom debtCoin v v') : ApartFromBoth debtCoin collateralCoin v v' :=
  fun c hd _ => h c hd

theorem ApartFrom.second (h : ApartFrom collateralCoin v v') :
    ApartFromBoth debtCoin collateralCoin v v' := fun c _ hc => h c hc

theorem ApartFromBoth.trans (h : ApartFromBoth debtCoin collateralCoin v v')
    (h' : ApartFromBoth debtCoin collateralCoin v' v'') :
    ApartFromBoth debtCoin collateralCoin v v'' := fun c hd hc => (h' c hd hc).trans (h c hd hc)

def liquidationEntries (borrowerId : Uuid) (debtCoin collateralCoin : Coin)
    (debtWallet poolDebt collWallet poolColl : Uuid) (repay seize : ℕ)
    (memoCollIn memoCollOut memoDebtIn memoDebtOut : String) : List LedgerEntry :=
  [⟨collWallet, seize, .liquidation, none, some "LendPosition",
      some (lendKey borrowerId collateralCoin), some memoCollIn⟩,
    ⟨poolColl, -seize, .liquidation, none, some "LendPosition",
      some (lendKey borrowerId collateralCoin), some memoCollOut⟩,
    ⟨poolDebt, repay, .liquidation, none, some "LendPosition", some (lendKey borrowerId debtCoin),
      some memoDebtIn⟩,
    ⟨debtWallet, -repay, .liquidation, none, some "LendPosition", some (lendKey borrowerId debtCoin),
      some memoDebtOut⟩]

end

structure LiquidationMoves (liquidatorId : Uuid) (amount closeFactorBps : ℕ) (db db' : Db lendExt)
    (a : LiquidationResult) (prices : PriceTable) (idxDebt idxColl : ReserveState)
    (debtReal collReal : ℕ) : Prop where
  priced : Priced db prices
  debtIndexes : db'.indexes a.debtCoin = some idxDebt
  collIndexes : db'.indexes a.collateralCoin = some idxColl
  debt : scaledToAmount (db.position a.borrowerId a.debtCoin).scaledDebt idxDebt.borrowIndex =
    some debtReal
  coll : scaledToAmount (db.position a.borrowerId a.collateralCoin).scaledSupply
    idxColl.liquidityIndex = some collReal
  repaid_le : a.repaid ≤ min amount (debtReal * closeFactorBps / 10000)
  seized_le : a.seized ≤ collReal
  moved : ∃ debtWallet poolDebt collWallet poolColl memoCollIn memoCollOut memoDebtIn memoDebtOut,
    db.core.walletOf liquidatorId a.debtCoin .personal = some debtWallet ∧
    db.core.walletOf liquidatorId a.collateralCoin .personal = some collWallet ∧
    PoolOf db a.debtCoin poolDebt ∧ PoolOf db a.collateralCoin poolColl ∧
    db'.core.ledger = liquidationEntries a.borrowerId a.debtCoin a.collateralCoin debtWallet poolDebt
      collWallet poolColl a.repaid a.seized memoCollIn memoCollOut memoDebtIn memoDebtOut ++
        db.core.ledger

def LiquidationResult.fresh (a : LiquidationResult) (idxDebt idxColl : ReserveState) :
    List (Coin × ReserveState) :=
  freshIndexes a.debtCoin a.collateralCoin idxDebt idxColl

/-- What is stored of the borrower's collateral does not cover the debts. -/
def LiquidationResult.Unhealthy (a : LiquidationResult) (db : Db lendExt) (prices : PriceTable)
    (idxDebt idxColl : ReserveState) : Prop :=
  db.collateralWorth a.borrowerId (a.fresh idxDebt idxColl) prices thresholdBps <
    db.debtWorth a.borrowerId (a.fresh idxDebt idxColl) prices

structure LiquidationBounds (liquidatorId : Uuid) (amount closeFactorBps : ℕ) (db db' : Db lendExt)
    (a : LiquidationResult) (prices : PriceTable) (idxDebt idxColl : ReserveState)
    (debtReal collReal : ℕ) : Prop extends LiquidationMoves liquidatorId amount closeFactorBps db db' a
      prices idxDebt idxColl debtReal collReal where
  unhealthy : a.Unhealthy db prices idxDebt idxColl
  value_le : SeizesWithin prices a.debtCoin a.collateralCoin a.repaid a.seized

section
variable {liquidatorId borrowerId : Uuid} {debtCoin collateralCoin : Coin}
variable {amount closeFactorBps maxStale : ℕ} {db db' : Db lendExt} {a : LiquidationResult}
variable {idxDebt idxColl : ReserveState} {prices : PriceTable} {liquidity : AccountLiquidity}
variable {repay seize : ℕ}

/-- A position that is not read as empty is read as it is stored. -/
theorem open_of_scaledToAmount {r : Position} {index n : ℕ} (hn : n ≠ 0) :
    (scaledToAmount r.open.scaledDebt index = some n → scaledToAmount r.scaledDebt index = some n) ∧
    (scaledToAmount r.open.scaledSupply index = some n →
      scaledToAmount r.scaledSupply index = some n) := by
  have hread {stored : ℕ} (h : scaledToAmount (readU128 0 stored) index = some n) :
      scaledToAmount stored index = some n := by
    rw [← @readU128_ne_default 0 stored]
    · exact h
    · intro h0
      rw [h0] at h
      obtain ⟨-, rfl⟩ := scaledToAmount_eq_some.1 h
      simp at hn
  exact ⟨hread, hread⟩

theorem Liquidated.bounds (h : Liquidated liquidatorId borrowerId debtCoin collateralCoin amount
      closeFactorBps idxDebt idxColl prices liquidity repay seize db db') :
    ∃ debtReal collReal, LiquidationMoves liquidatorId amount closeFactorBps db db'
      ⟨borrowerId, debtCoin, collateralCoin, repay, seize⟩ prices idxDebt idxColl debtReal collReal ∧
    db.liquidity borrowerId (freshIndexes debtCoin collateralCoin idxDebt idxColl) prices =
      some liquidity ∧ liquidity.liquidationCollateralUsd < liquidity.debtUsd ∧
    liquidationAmounts prices debtCoin collateralCoin amount closeFactorBps debtReal collReal =
      (repay, seize) := by
  cases h with
  | @mk v₁ v₂ v₃ v₄ debtWallet collWallet poolDebt poolColl debtReal collReal scaledRepaid scaledSeized
      r c hprices ha ho hr hc hseizable hliquidity hunhealthy hdebt hcoll hamounts hpos hdw hcw hdp hcp
      hmd hmc hsr hss =>
    have hposition (coin : Coin) : ((v₂.withPosition borrowerId debtCoin).withPosition borrowerId
        collateralCoin).position borrowerId coin = db.position borrowerId coin := by
      rw [withPosition_positions, withPosition_positions, ho.position, ha.position]
    have hindexes (coin : Coin) : v₄.indexes coin = v₂.indexes coin := by
      rw [Db.indexes_of_ext (hmc.ext_eq.trans hmd.ext_eq), Db.withPosition_indexes,
        Db.withPosition_indexes]
    obtain ⟨hid, hic⟩ := ho.indexes ha.indexes
    have hwritten (coin : Coin) : (((((v₄.write (.updatePosition debtCoin borrowerId
        (.setDebt (r.open.scaledDebt - scaledRepaid)))).write
        (.updateReserve debtCoin (.subDebt scaledRepaid))).write
        (.updatePosition collateralCoin borrowerId
          (.setSupply (c.open.scaledSupply - scaledSeized)))).write
        (.updateReserve collateralCoin (.subSupply scaledSeized))).addAudit
          (liquidateAudit liquidatorId borrowerId debtCoin collateralCoin repay seize)).indexes
            coin = v₄.indexes coin :=
      (indexes_updated (fun _ => rfl) coin).trans (indexes_updated (fun _ => rfl) coin)
    obtain ⟨hrepaid, hseized⟩ := liquidationAmounts_le_min prices debtCoin collateralCoin amount
      closeFactorBps debtReal collReal
    rw [hamounts] at hrepaid hseized
    have hapart : ApartFromBoth debtCoin collateralCoin db
        ((v₂.withPosition borrowerId debtCoin).withPosition borrowerId collateralCoin) :=
      ((ha.apartFrom.first.trans ho.apartFrom.second).trans apartFrom_withPosition.first).trans
        apartFrom_withPosition.second
    have hdebtor : r = db.position borrowerId debtCoin := by
      rw [lookup_withPosition] at hr
      rw [← Option.some.inj hr, ho.position, ha.position]
    have hcollateral : c = db.position borrowerId collateralCoin := by
      rw [lookup_withPosition] at hc
      rw [← Option.some.inj hc, withPosition_positions, ho.position, ha.position]
    obtain ⟨memoDebtOut, memoDebtIn, rfl⟩ := hmd.entries
    obtain ⟨memoCollOut, memoCollIn, rfl⟩ := hmc.entries
    have hledger : ((v₂.withPosition borrowerId debtCoin).withPosition borrowerId
        collateralCoin).core.ledger = db.core.ledger := by
      rw [Db.withPosition_core, Db.withPosition_core, ho.core_eq, ha.core_eq]
    have hdebtPos : debtReal ≠ 0 := by
      rintro rfl
      have : repay ≤ 0 := hrepaid.trans ((min_le_right _ _).trans (by simp))
      omega
    have hcollPos : collReal ≠ 0 := by
      rintro rfl
      omega
    refine ⟨debtReal, collReal, ?_, (liquidity_congr hposition hapart.indexesFor).symm.trans hliquidity,
      hunhealthy, hamounts⟩
    exact {
      priced := hprices
      debtIndexes := (hwritten _).trans ((hindexes _).trans hid)
      collIndexes := (hwritten _).trans ((hindexes _).trans hic)
      debt := (open_of_scaledToAmount hdebtPos).1 (hdebtor ▸ hdebt)
      coll := (open_of_scaledToAmount hcollPos).2 (hcollateral ▸ hcoll)
      repaid_le := hrepaid
      seized_le := hseized
      moved := ⟨debtWallet, poolDebt, collWallet, poolColl, memoCollIn, memoCollOut, memoDebtIn,
        memoDebtOut, hdw, hcw, hdp, hcp, congrArg (liquidationEntries borrowerId debtCoin collateralCoin
          debtWallet poolDebt collWallet poolColl repay seize _ _ _ _ ++ ·) hledger⟩ }

/-- A liquidation that goes through moves what it says, and keeps within its bounds if and only if
the borrower is read as stored, or unhealthy all the same, and the bonus comes out; one that
fails has changed nothing. -/
theorem liquidate_within_iff (liquidatorId borrowerId : Uuid) (debtCoin collateralCoin : Coin)
    (amount closeFactorBps maxStale : ℕ) (db : Db lendExt) :
    (∀ a db', Commits (liquidate liquidatorId borrowerId debtCoin collateralCoin amount closeFactorBps
        maxStale) db a db' →
      a.borrowerId = borrowerId ∧ a.debtCoin = debtCoin ∧ a.collateralCoin = collateralCoin ∧
      ∃ prices idxDebt idxColl debtReal collReal,
        LiquidationMoves liquidatorId amount closeFactorBps db db' a prices idxDebt idxColl debtReal
          collReal ∧
        (LiquidationBounds liquidatorId amount closeFactorBps db db' a prices idxDebt idxColl debtReal
            collReal ↔
          (¬ db.Readable borrowerId (a.fresh idxDebt idxColl) prices →
              a.Unhealthy db prices idxDebt idxColl) ∧
            ComesOut prices debtCoin collateralCoin amount closeFactorBps debtReal collReal)) ∧
    ∀ e s, Prog.Runs (Exec 0) (liquidate liquidatorId borrowerId debtCoin collateralCoin amount
      closeFactorBps maxStale) (.start db) (.error e) s → s.db = db := by
  refine ⟨fun a db' h => ?_, fun e s => liquidate_failsClean _ _ _ _ _ _ _ _ _ _⟩
  obtain ⟨idxDebt, idxColl, prices, liquidity, repay, seize, rfl, hl⟩ := liquidated_of_commits h
  obtain ⟨debtReal, collReal, hmoves, hliquidity, hunhealthy, hamounts⟩ := hl.bounds
  refine ⟨rfl, rfl, rfl, prices, idxDebt, idxColl, debtReal, collReal, hmoves, ?_⟩
  rw [← liquidationAmounts_within_iff hamounts]
  constructor
  · exact fun hb => ⟨fun _ => hb.unhealthy, hb.value_le⟩
  · rintro ⟨hread, hvalue⟩
    refine ⟨hmoves, ?_, hvalue⟩
    by_cases hr : db.Readable borrowerId (freshIndexes debtCoin collateralCoin idxDebt idxColl) prices
    · rw [hr.liquidity hliquidity] at hunhealthy
      exact hunhealthy
    · exact hread hr

end

/-! User 7 owes 10 units of BTC, worth 16, and has supplied LTC and PEPE, which are worth one. -/

def borrower (ltc pepe : ℕ) : Db lendExt where
  core := {
    now := 0
    wallets := ((((∅ : Table Wallet).insert 1 ⟨8, .btc, .personal, none⟩).insert 2
      ⟨8, .ltc, .personal, none⟩).insert 3 ⟨9, .btc, .lendPool, none⟩).insert 4
      ⟨9, .ltc, .lendPool, none⟩
    ledger := [⟨1, 1000, .deposit, none, none, none, none⟩,
      ⟨4, ltc, .lendSupply, none, none, none, none⟩]
    jobs := ∅
    outbox := []
    auditLogs := [] }
  ext := {
    books := fun coin => match coin with
      | .btc => ⟨some ⟨ray, ray, 20, 10, 0⟩, (∅ : Table Position).insert 7 ⟨0, 10, true⟩⟩
      | .ltc => ⟨some ⟨ray, ray, ltc, 0, 0⟩, (∅ : Table Position).insert 7 ⟨ltc, 0, true⟩⟩
      | .pepe => ⟨some ⟨ray, ray, pepe, 0, 0⟩, (∅ : Table Position).insert 7 ⟨pepe, 0, true⟩⟩
      | _ => ⟨some (.fresh 0), ∅⟩
    prices := fun coin => some ⟨if coin = .btc then 160000000 else 100000000, 8, 0⟩
    house := some 9 }

def borrowerPrices : PriceTable := fun coin => (if coin = .btc then 160000000 else 100000000, 8)

theorem priced_borrower (ltc pepe : ℕ) : Priced (borrower ltc pepe) borrowerPrices := by
  intro coin
  refine ⟨_, rfl, ?_, rfl⟩
  cases coin <;> rfl

def liquidationRun (ltc pepe amount : ℕ) :
    Option (LiquidationResult × Option ReserveState × Option ReserveState) :=
  ((liquidate 8 7 .btc .ltc amount 5000 1000000).play
    (Runner.alone? (S := satsPay lendExt) fun _ => (0 : Instant)) (.start (borrower ltc pepe))).bind
      fun x => x.1.toOption.map fun a => (a, x.2.db.indexes .btc, x.2.db.indexes .ltc)

theorem commits_of_liquidationRun {ltc pepe amount : ℕ} {a : LiquidationResult}
    {debt coll : Option ReserveState} (h : liquidationRun ltc pepe amount = some (a, debt, coll)) :
    ∃ db', Commits (liquidate 8 7 .btc .ltc amount 5000 1000000) (borrower ltc pepe) a db' ∧
      db'.indexes .btc = debt ∧ db'.indexes .ltc = coll := by
  obtain ⟨⟨r, s⟩, hplay, he⟩ := Option.bind_eq_some_iff.1 h
  cases r with
  | error e => cases he
  | ok b =>
    cases he
    exact ⟨s.db, commits_of_play hplay, rfl, rfl⟩

/-- A supply of ten thousand million million units is not counted, and user 7 is liquidated with
it; and for 4 units of LTC that do not cover the bonus one unit of BTC is enough. -/
theorem liquidate_unbounded :
    (∃ a db', Commits (liquidate 8 7 .btc .ltc 1 5000 1000000) (borrower 4 (10 ^ 16)) a db' ∧
      ∀ prices idxDebt idxColl debtReal collReal, ¬ LiquidationBounds 8 1 5000 (borrower 4 (10 ^ 16)) db'
        a prices idxDebt idxColl debtReal collReal) ∧
    ∃ a db', Commits (liquidate 8 7 .btc .ltc 5 5000 1000000) (borrower 4 0) a db' ∧
      ∀ prices idxDebt idxColl debtReal collReal, ¬ LiquidationBounds 8 5 5000 (borrower 4 0) db'
        a prices idxDebt idxColl debtReal collReal := by
  have hrich : liquidationRun 4 (10 ^ 16) 1 =
      some (⟨7, .btc, .ltc, 1, 1⟩, some ⟨ray, ray⟩, some ⟨ray, ray⟩) := by
    decide +kernel
  have hpoor : liquidationRun 4 0 5 =
      some (⟨7, .btc, .ltc, 1, 4⟩, some ⟨ray, ray⟩, some ⟨ray, ray⟩) := by
    decide +kernel
  obtain ⟨db₁, h₁, hd₁, hc₁⟩ := commits_of_liquidationRun hrich
  obtain ⟨db₂, h₂, -, -⟩ := commits_of_liquidationRun hpoor
  refine ⟨⟨_, db₁, h₁, fun prices idxDebt idxColl debtReal collReal hb => ?_⟩,
    _, db₂, h₂, fun prices idxDebt idxColl debtReal collReal hb => ?_⟩
  · obtain rfl := hb.priced.unique (priced_borrower _ _)
    obtain rfl := Option.some.inj (hd₁.symm.trans hb.debtIndexes)
    obtain rfl := Option.some.inj (hc₁.symm.trans hb.collIndexes)
    have := hb.unhealthy
    unfold LiquidationResult.Unhealthy at this
    revert this
    decide +kernel
  · obtain rfl := hb.priced.unique (priced_borrower _ _)
    have := hb.value_le
    unfold SeizesWithin at this
    revert this
    decide +kernel

/-- Of 15 units of LTC three are seized for two units of BTC, worth three. -/
theorem liquidate_within_covered : ∃ db' prices idxDebt idxColl debtReal collReal,
    LiquidationBounds 8 2 5000 (borrower 15 0) db' ⟨7, .btc, .ltc, 2, 3⟩ prices idxDebt idxColl debtReal
      collReal := by
  have hrun : liquidationRun 15 0 2 =
      some (⟨7, .btc, .ltc, 2, 3⟩, some ⟨ray, ray⟩, some ⟨ray, ray⟩) := by
    decide +kernel
  obtain ⟨db', h, hd, hc⟩ := commits_of_liquidationRun hrun
  obtain ⟨-, -, -, prices, idxDebt, idxColl, debtReal, collReal, hmoves, hiff⟩ :=
    (liquidate_within_iff 8 7 .btc .ltc 2 5000 1000000 (borrower 15 0)).1 _ _ h
  obtain rfl := hmoves.priced.unique (priced_borrower _ _)
  obtain rfl := Option.some.inj (hd.symm.trans hmoves.debtIndexes)
  obtain rfl := Option.some.inj (hc.symm.trans hmoves.collIndexes)
  refine ⟨db', _, _, _, debtReal, collReal, hiff.2 ⟨fun hn => absurd ?_ hn, ?_⟩⟩
  · decide +kernel
  · have hdebt : scaledToAmount ((borrower 15 0).position 7 .btc).scaledDebt ray = some 10 := by
      decide +kernel
    have hcoll : scaledToAmount ((borrower 15 0).position 7 .ltc).scaledSupply ray = some 15 := by
      decide +kernel
    obtain rfl := Option.some.inj (hdebt.symm.trans hmoves.debt)
    obtain rfl := Option.some.inj (hcoll.symm.trans hmoves.coll)
    exact .inl (by decide +kernel)

end SatsPay
