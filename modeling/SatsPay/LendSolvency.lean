import SatsPay.LendSteps
import Mathlib.Tactic.Ring

/-!
# Solvency of a pool

A pool covers its suppliers when what it holds and what it is owed is worth what it owes.
Interest keeps that: the rates leave out the reserve factor, which outweighs what the indexes
are rounded by. A payout keeps it only if the rounding of its scaled units, which is in favour
of the user, fits into the surplus there is.
-/

namespace SatsPay

open Interleave ReadCommitted

/-! ## Rates -/

theorem calcUtilizationBps_mul_le (totalDebt available : ℕ) :
    calcUtilizationBps totalDebt available * (totalDebt + available) ≤ totalDebt * 10000 := by
  unfold calcUtilizationBps
  split
  · simp
  refine (Nat.mul_le_mul_right _ (Nat.mod_le _ _)).trans ?_
  by_cases hlt : totalDebt + available < 2 ^ 128
  · have hs : saturate128 (totalDebt + available) = totalDebt + available := by
      unfold saturate128
      omega
    rw [hs]
    exact (Nat.div_mul_le_self _ _).trans (Nat.mod_le _ _)
  · -- the sum saturates at an odd number, which no multiple of 10000 is modulo `2 ^ 128`
    have hs : saturate128 (totalDebt + available) = 2 ^ 128 - 1 := by
      unfold saturate128
      omega
    have hw : wrap128 (totalDebt * 10000) < 2 ^ 128 - 1 := by
      unfold wrap128
      omega
    rw [hs, Nat.div_eq_of_lt hw, Nat.zero_mul]
    exact Nat.zero_le _

theorem calcUtilizationBps_le (totalDebt available : ℕ) :
    calcUtilizationBps totalDebt available ≤ 10000 := by
  rcases Nat.eq_zero_or_pos (totalDebt + available) with h | h
  · have hs : saturate128 (totalDebt + available) = 0 := by
      unfold saturate128
      omega
    unfold calcUtilizationBps
    rw [if_pos hs]
    exact Nat.zero_le _
  · refine Nat.le_of_mul_le_mul_right ((calcUtilizationBps_mul_le _ _).trans ?_) h
    rw [Nat.mul_comm]
    exact Nat.mul_le_mul_left _ (Nat.le_add_right _ _)

theorem calcSupplyRateBps_le (borrowRateBps utilizationBps reserveFactorBps : ℕ) :
    calcSupplyRateBps borrowRateBps utilizationBps reserveFactorBps * 10 ^ 8 ≤
      borrowRateBps * utilizationBps * (10000 - reserveFactorBps) := by
  unfold calcSupplyRateBps
  set part := borrowRateBps * utilizationBps / 10000 with hpart
  have h₁ : part * 10000 ≤ borrowRateBps * utilizationBps := Nat.div_mul_le_self _ _
  calc part * (10000 - reserveFactorBps) / 10000 % 2 ^ 32 * 10 ^ 8
      ≤ part * (10000 - reserveFactorBps) / 10000 * 10 ^ 8 :=
        Nat.mul_le_mul_right _ (Nat.mod_le _ _)
    _ = part * (10000 - reserveFactorBps) / 10000 * 10000 * 10000 := by ring
    _ ≤ part * (10000 - reserveFactorBps) * 10000 :=
        Nat.mul_le_mul_right _ (Nat.div_mul_le_self _ _)
    _ = part * 10000 * (10000 - reserveFactorBps) := by ring
    _ ≤ borrowRateBps * utilizationBps * (10000 - reserveFactorBps) := Nat.mul_le_mul_right _ h₁

theorem accrueIndex_eq_some {index rate : ℕ} {elapsedMs : ℤ} {x : ℕ}
    (h : accrueIndex index rate elapsedMs = some x) :
    x = index + index * rate * elapsedMs.toNat / (10000 * msPerYear) := by
  unfold accrueIndex at h
  split at h
  · rename_i hz
    obtain rfl := Option.some.inj h
    rcases hz with hz | rfl
    · simp [Int.toNat_of_nonpos hz]
    · simp
  · unfold toU128 at h
    split at h
    · exact (Option.some.inj h).symm
    · cases h

/-- Of the interest on a debt, what the utilization and the reserve factor leave to the
supply. -/
theorem supplyRate_mul_le {supply debt pool borrowIndex realDebt rate rf : ℕ}
    (hsolvent : supply ≤ pool * ray + debt * borrowIndex)
    (hreal : realDebt * ray ≤ debt * borrowIndex) :
    supply * calcSupplyRateBps rate (calcUtilizationBps realDebt pool) rf * 10000 ≤
      debt * borrowIndex * rate * (10000 - rf) := by
  set util := calcUtilizationBps realDebt pool with hutil
  have hu : util * (realDebt + pool) ≤ realDebt * 10000 := calcUtilizationBps_mul_le _ _
  have hle : util ≤ 10000 := calcUtilizationBps_le _ _
  obtain ⟨rest, hrest⟩ := Nat.exists_eq_add_of_le hle
  have hpool : util * pool ≤ rest * realDebt := by
    rw [hrest] at hu
    have : util * (realDebt + pool) = util * realDebt + util * pool := Nat.mul_add _ _ _
    have : realDebt * (util + rest) = util * realDebt + rest * realDebt := by ring
    omega
  have hworth : util * (pool * ray + debt * borrowIndex) ≤ 10000 * (debt * borrowIndex) := by
    calc util * (pool * ray + debt * borrowIndex)
        = util * pool * ray + util * (debt * borrowIndex) := by ring
      _ ≤ rest * realDebt * ray + util * (debt * borrowIndex) := by gcongr
      _ = rest * (realDebt * ray) + util * (debt * borrowIndex) := by ring
      _ ≤ rest * (debt * borrowIndex) + util * (debt * borrowIndex) := by gcongr
      _ = 10000 * (debt * borrowIndex) := by rw [hrest]; ring
  refine Nat.le_of_mul_le_mul_right ?_ (show 0 < 10000 by norm_num)
  calc supply * calcSupplyRateBps rate util rf * 10000 * 10000
      = supply * (calcSupplyRateBps rate util rf * 10 ^ 8) := by ring
    _ ≤ supply * (rate * util * (10000 - rf)) := Nat.mul_le_mul_left _ (calcSupplyRateBps_le ..)
    _ ≤ (pool * ray + debt * borrowIndex) * (rate * util * (10000 - rf)) := by gcongr
    _ = util * (pool * ray + debt * borrowIndex) * (rate * (10000 - rf)) := by ring
    _ ≤ 10000 * (debt * borrowIndex) * (rate * (10000 - rf)) := by gcongr
    _ = debt * borrowIndex * rate * (10000 - rf) * 10000 := by ring

theorem lendMarket_reserveFactor (coin : Coin) : 1000 ≤ (lendMarket coin).reserveFactorBps ∧
    (lendMarket coin).reserveFactorBps ≤ 10000 := by
  cases coin <;> decide

theorem ray_interest : 10000 * (10000 * msPerYear) ≤ 1000 * ray := by decide

/-- The reserve factor takes more of the interest than the index of the debt is rounded by,
over a time `K` that is not too long. -/
theorem interest_covers {supply debt borrowIndex supplied rate rf t K : ℕ} (hK : 0 < K)
    (hrf : rf ≤ 10000) (hlost : 10000 * K ≤ rf * borrowIndex)
    (h : supply * supplied * 10000 ≤ debt * borrowIndex * rate * (10000 - rf)) :
    supply * (supplied * t / K) ≤ debt * (borrowIndex * rate * t / K) := by
  obtain ⟨rest, hrest⟩ := Nat.exists_eq_add_of_le hrf
  have hx : supplied * t / K * K ≤ supplied * t := Nat.div_mul_le_self _ _
  have hy : borrowIndex * rate * t ≤ borrowIndex * rate * t / K * K + K :=
    (Nat.lt_div_mul_add hK).le
  generalize supplied * t / K = x at hx
  generalize borrowIndex * rate * t / K = y at hy
  have hxK : supply * x * (K * 10000) ≤ debt * (borrowIndex * rate * t) * rest := by
    calc supply * x * (K * 10000) = supply * (x * K) * 10000 := by ring
      _ ≤ supply * (supplied * t) * 10000 := by gcongr
      _ = supply * supplied * 10000 * t := by ring
      _ ≤ debt * borrowIndex * rate * (10000 - rf) * t := by gcongr
      _ = debt * (borrowIndex * rate * t) * rest := by rw [hrest, Nat.add_sub_cancel_left]; ring
  refine Nat.le_of_mul_le_mul_right (c := K * 10000) ?_ (by positivity)
  rcases Nat.eq_zero_or_pos (rate * t) with h0 | hpos
  · have hz : borrowIndex * rate * t = 0 := by rw [Nat.mul_assoc, h0, Nat.mul_zero]
    rw [hz, Nat.mul_zero, Nat.zero_mul] at hxK
    exact hxK.trans (Nat.zero_le _)
  · have hlost' : debt * (10000 * K) ≤ debt * (borrowIndex * rate * t * rf) := by
      refine Nat.mul_le_mul_left _ ?_
      calc 10000 * K ≤ rf * borrowIndex := hlost
        _ ≤ rf * borrowIndex * (rate * t) := Nat.le_mul_of_pos_right _ hpos
        _ = borrowIndex * rate * t * rf := by ring
    have hsum : debt * (borrowIndex * rate * t) * rest + debt * (borrowIndex * rate * t * rf) ≤
        debt * y * (K * 10000) + debt * (10000 * K) := by
      calc debt * (borrowIndex * rate * t) * rest + debt * (borrowIndex * rate * t * rf)
          = debt * (borrowIndex * rate * t) * 10000 := by rw [hrest]; ring
        _ ≤ debt * (y * K + K) * 10000 := by gcongr
        _ = debt * y * (K * 10000) + debt * (10000 * K) := by ring
    omega

/-- Interest keeps a pool solvent. -/
theorem grow_covers {market : LendMarket} {state idx : ReserveState}
    {supply debt pool realDebt : ℕ} {elapsedMs : ℤ}
    (hg : grow market state realDebt pool elapsedMs = some idx)
    (hrf : 1000 ≤ market.reserveFactorBps ∧ market.reserveFactorBps ≤ 10000)
    (hindex : ray ≤ state.borrowIndex) (hreal : realDebt * ray ≤ debt * state.borrowIndex)
    (h : supply * state.liquidityIndex ≤ pool * ray + debt * state.borrowIndex) :
    supply * idx.liquidityIndex ≤ pool * ray + debt * idx.borrowIndex := by
  obtain ⟨borrowIndex, hb, hg⟩ := Option.bind_eq_some_iff.1 hg
  obtain ⟨liquidityIndex, hl, rfl⟩ := Option.map_eq_some_iff.1 hg
  set rate := calcBorrowRateBps (calcUtilizationBps realDebt pool) market with hrate
  set supplyRate := calcSupplyRateBps rate (calcUtilizationBps realDebt pool)
    market.reserveFactorBps with hsupplyRate
  have hrates : supply * (state.liquidityIndex * supplyRate) * 10000 ≤
      debt * state.borrowIndex * rate * (10000 - market.reserveFactorBps) := by
    rw [← Nat.mul_assoc supply state.liquidityIndex supplyRate]
    exact supplyRate_mul_le h hreal
  have hlost : 10000 * (10000 * msPerYear) ≤ market.reserveFactorBps * state.borrowIndex :=
    ray_interest.trans (Nat.mul_le_mul hrf.1 hindex)
  have hinterest := interest_covers (t := elapsedMs.toNat) (by decide) hrf.2 hlost hrates
  rw [accrueIndex_eq_some hb, accrueIndex_eq_some hl, Nat.mul_add, Nat.mul_add, ← Nat.add_assoc]
  exact Nat.add_le_add h hinterest

theorem grow_mono {market : LendMarket} {state idx : ReserveState} {realDebt pool : ℕ}
    {elapsedMs : ℤ} (hg : grow market state realDebt pool elapsedMs = some idx) :
    state.liquidityIndex ≤ idx.liquidityIndex ∧ state.borrowIndex ≤ idx.borrowIndex := by
  obtain ⟨borrowIndex, hb, hg⟩ := Option.bind_eq_some_iff.1 hg
  obtain ⟨liquidityIndex, hl, rfl⟩ := Option.map_eq_some_iff.1 hg
  rw [accrueIndex_eq_some hb, accrueIndex_eq_some hl]
  exact ⟨Nat.le_add_right _ _, Nat.le_add_right _ _⟩

/-! ## The state of a pool -/

theorem readU128_zero_le (n : ℕ) : readU128 0 n ≤ n := by
  by_cases h : readU128 0 n = 0
  · rw [h]
    exact Nat.zero_le _
  · exact (readU128_ne_default h).le

structure PoolState (v : Db lendExt) (coin : Coin) (poolId : Uuid) (pool : ℤ) (r : Reserve) :
    Prop where
  reserve : (v.ext.books coin).reserve = some r
  wallet : PoolOf v coin poolId
  balance : v.core.balance poolId = pool

namespace PoolState

variable {v v' : Db lendExt} {coin : Coin} {poolId : Uuid} {pool : ℤ} {r : Reserve}

theorem accrual {idx : ReserveState} (h : PoolState v coin poolId pool r)
    (ha : Accrual v coin idx v') : ∃ realDebt elapsedMs now,
      scaledToAmount (readU128 0 r.totalScaledDebt) (readU128 ray r.borrowIndex) = some realDebt ∧
      grow (lendMarket coin) ⟨readU128 ray r.liquidityIndex, readU128 ray r.borrowIndex⟩ realDebt
        (readU128 0 pool) elapsedMs = some idx ∧
      PoolState v' coin poolId pool
        ((ReserveUpdate.accrued idx.liquidityIndex idx.borrowIndex now).set r) := by
  cases ha with
  | @mk r' id realDebt elapsedMs now hr hp hd hg =>
    rw [Db.withReserve_of_some h.reserve] at hr ⊢
    obtain rfl := Option.some.inj (h.reserve.symm.trans hr)
    obtain rfl := h.wallet.unique hp
    rw [h.balance] at hg
    refine ⟨realDebt, elapsedMs, now, hd, hg, ?_, h.wallet.congr rfl rfl, h.balance⟩
    have hb := congrArg LendBook.reserve (Db.write_book v
      (.updateReserve coin (.accrued idx.liquidityIndex idx.borrowIndex now)))
    exact hb.trans (congrArg (Option.map _) h.reserve)

theorem payIn {walletId : Uuid} {amount : ℕ} {type : LedgerType} {key : String}
    (h : PoolState v coin poolId pool r) (hm : Moved v walletId poolId amount type key v') :
    PoolState v' coin poolId (pool + amount) r := by
  have hne := hm.apart
  obtain ⟨memoOut, memoIn, rfl⟩ := hm.entries
  refine ⟨h.reserve, h.wallet.congr rfl rfl, ?_⟩
  have hb := h.balance
  simp only [Core.balance, Db.addEntries, List.cons_append, List.nil_append, sumWhere_cons,
    beq_self_eq_true, if_true, beq_eq_false_iff_ne.2 hne, Bool.false_eq_true, if_false] at hb ⊢
  omega

theorem payOut {walletId : Uuid} {amount : ℕ} {type : LedgerType} {key : String}
    (h : PoolState v coin poolId pool r) (hm : Moved v poolId walletId amount type key v') :
    PoolState v' coin poolId (pool - amount) r ∧ (0 < amount → (amount : ℤ) ≤ pool) := by
  have hne := hm.apart
  have hc := hm.covered
  rw [h.balance] at hc
  obtain ⟨memoOut, memoIn, rfl⟩ := hm.entries
  refine ⟨⟨h.reserve, h.wallet.congr rfl rfl, ?_⟩, hc⟩
  have hb := h.balance
  simp only [Core.balance, Db.addEntries, List.cons_append, List.nil_append, sumWhere_cons,
    beq_self_eq_true, if_true, beq_eq_false_iff_ne.2 hne.symm, Bool.false_eq_true,
    if_false] at hb ⊢
  omega

theorem writePosition {w : LendWrite} (h : PoolState v coin poolId pool r)
    (hw : ∀ b : LendBook, (w.set b).reserve = b.reserve) :
    PoolState (v.write w) coin poolId pool r := by
  refine ⟨?_, h.wallet.congr rfl rfl, h.balance⟩
  by_cases hc : coin = w.coin
  · subst hc
    rw [Db.write_book, hw, h.reserve]
  · exact (congrArg LendBook.reserve (LendDb.onBook_ne _ hc _)).trans h.reserve

theorem updatePosition (h : PoolState v coin poolId pool r) (coin' : Coin) (userId : Uuid)
    (u : PositionUpdate) : PoolState (v.write (.updatePosition coin' userId u)) coin poolId pool r := by
  refine h.writePosition fun b => ?_
  simp only [LendWrite.set]
  split <;> rfl

theorem withPosition (h : PoolState v coin poolId pool r) (userId : Uuid) (coin' : Coin) :
    PoolState (v.withPosition userId coin') coin poolId pool r := by
  unfold Db.withPosition
  split
  · exact h
  · exact h.writePosition fun _ => rfl

theorem updateReserve (h : PoolState v coin poolId pool r) (u : ReserveUpdate) :
    PoolState (v.write (.updateReserve coin u)) coin poolId pool (u.set r) := by
  refine ⟨?_, h.wallet.congr rfl rfl, h.balance⟩
  have hb := congrArg LendBook.reserve (Db.write_book v (.updateReserve coin u))
  exact hb.trans (congrArg (Option.map _) h.reserve)

end PoolState

/-! ## What an operation does to the surplus -/

/-- What a pool has beyond what it owes, in parts of `1 / RAY`. -/
def surplus (pool : ℤ) (r : Reserve) : ℤ :=
  pool * ray + r.totalScaledDebt * r.borrowIndex - r.totalScaledSupply * r.liquidityIndex

structure PoolSound (pool : ℤ) (r : Reserve) : Prop where
  pool_nonneg : 0 ≤ pool
  liquidityIndex : ray ≤ r.liquidityIndex
  borrowIndex : ray ≤ r.borrowIndex
  surplus_nonneg : 0 ≤ surplus pool r

namespace PoolSound

variable {pool : ℤ} {r : Reserve}

theorem index_pos {n : ℕ} (h : ray ≤ n) : 0 < n := lt_of_lt_of_le (by decide) h

theorem accrued {coin : Coin} {realDebt : ℕ} {elapsedMs : ℤ} {idx : ReserveState} (now : Instant)
    (h : PoolSound pool r) (hli : Legible ray r.liquidityIndex) (hbi : Legible ray r.borrowIndex)
    (hpool : Legible 0 pool)
    (hd : scaledToAmount (readU128 0 r.totalScaledDebt) (readU128 ray r.borrowIndex) =
      some realDebt)
    (hg : grow (lendMarket coin) ⟨readU128 ray r.liquidityIndex, readU128 ray r.borrowIndex⟩
      realDebt (readU128 0 pool) elapsedMs = some idx) :
    PoolSound pool ((ReserveUpdate.accrued idx.liquidityIndex idx.borrowIndex now).set r) := by
  obtain ⟨n, rfl⟩ := Int.eq_ofNat_of_zero_le h.pool_nonneg
  rw [readU128_nat_eq_iff.2 hbi] at hd hg
  rw [readU128_nat_eq_iff.2 hli, readU128_nat_eq_iff.2 hpool] at hg
  have hreal : realDebt * ray ≤ r.totalScaledDebt * r.borrowIndex :=
    (scaledToAmount_mul_le hd).trans (Nat.mul_le_mul_right _ (readU128_zero_le _))
  have hs : r.totalScaledSupply * r.liquidityIndex ≤ n * ray + r.totalScaledDebt * r.borrowIndex := by
    have := h.surplus_nonneg
    unfold surplus at this
    zify
    linarith
  have hs' := grow_covers hg (lendMarket_reserveFactor coin) h.borrowIndex hreal hs
  obtain ⟨hlm, hbm⟩ := grow_mono hg
  refine ⟨h.pool_nonneg, h.liquidityIndex.trans hlm, h.borrowIndex.trans hbm, ?_⟩
  zify at hs'
  simp only [surplus, ReserveUpdate.set]
  linarith

theorem addSupply {amount scaled : ℕ} (h : PoolSound pool r)
    (hs : amountToScaled amount r.liquidityIndex = some scaled) :
    PoolSound (pool + amount) ((ReserveUpdate.addSupply scaled).set r) := by
  have hle : scaled * r.liquidityIndex ≤ amount * ray := by
    rw [amountToScaled_eq (index_pos h.liquidityIndex) hs]
    exact Nat.div_mul_le_self _ _
  refine ⟨add_nonneg h.pool_nonneg (Int.natCast_nonneg _), h.liquidityIndex, h.borrowIndex, ?_⟩
  have := h.surplus_nonneg
  simp only [surplus, ReserveUpdate.set] at this ⊢
  push_cast
  zify at hle
  linarith

theorem subDebt {amount scaled : ℕ} (h : PoolSound pool r)
    (hs : amountToScaled amount r.borrowIndex = some scaled) :
    PoolSound (pool + amount) ((ReserveUpdate.subDebt scaled).set r) := by
  have hle : scaled * r.borrowIndex ≤ amount * ray := by
    rw [amountToScaled_eq (index_pos h.borrowIndex) hs]
    exact Nat.div_mul_le_self _ _
  have hd : r.totalScaledDebt * r.borrowIndex ≤
      (r.totalScaledDebt - scaled) * r.borrowIndex + scaled * r.borrowIndex := by
    rw [← Nat.add_mul]
    exact Nat.mul_le_mul_right _ (by omega)
  refine ⟨add_nonneg h.pool_nonneg (Int.natCast_nonneg _), h.liquidityIndex, h.borrowIndex, ?_⟩
  have := h.surplus_nonneg
  simp only [surplus, ReserveUpdate.set] at this ⊢
  zify at hle hd
  linarith

/-- A payout of which the fraction of a scaled unit is covered. -/
theorem subSupply {amount scaled : ℕ} (h : PoolSound pool r)
    (hs : amountToScaled amount r.liquidityIndex = some scaled) (hp : (amount : ℤ) ≤ pool)
    (hc : (amount * ray % r.liquidityIndex : ℕ) ≤ surplus pool r) :
    PoolSound (pool - amount) ((ReserveUpdate.subSupply scaled).set r) := by
  have hdiv : scaled * r.liquidityIndex + amount * ray % r.liquidityIndex = amount * ray := by
    rw [amountToScaled_eq (index_pos h.liquidityIndex) hs]
    exact Nat.div_add_mod' _ _
  refine ⟨sub_nonneg.2 hp, h.liquidityIndex, h.borrowIndex, ?_⟩
  simp only [surplus, ReserveUpdate.set] at hc ⊢
  rcases Nat.le_total scaled r.totalScaledSupply with hle | hle
  · rw [Nat.cast_sub hle]
    zify at hdiv hc
    linarith
  · rw [Nat.sub_eq_zero_of_le hle]
    have hpay : 0 ≤ (pool - amount) * ray :=
      mul_nonneg (sub_nonneg.2 hp) (Int.natCast_nonneg _)
    have hdebt : (0 : ℤ) ≤ r.totalScaledDebt * r.borrowIndex := by positivity
    simpa using add_nonneg hpay hdebt

theorem addDebt {amount scaled : ℕ} (h : PoolSound pool r)
    (hs : amountToScaled amount r.borrowIndex = some scaled) (hp : (amount : ℤ) ≤ pool)
    (hc : (amount * ray % r.borrowIndex : ℕ) ≤ surplus pool r) :
    PoolSound (pool - amount) ((ReserveUpdate.addDebt scaled).set r) := by
  have hdiv : scaled * r.borrowIndex + amount * ray % r.borrowIndex = amount * ray := by
    rw [amountToScaled_eq (index_pos h.borrowIndex) hs]
    exact Nat.div_add_mod' _ _
  refine ⟨sub_nonneg.2 hp, h.liquidityIndex, h.borrowIndex, ?_⟩
  simp only [surplus, ReserveUpdate.set] at hc ⊢
  push_cast
  zify at hdiv hc
  linarith

end PoolSound

/-! ## Histories -/

inductive LendOp.Concerns (coin : Coin) (userId : Uuid) : LendOp → Prop
  | supply (amount : ℕ) : Concerns coin userId (.supply userId coin amount)
  | withdraw (amount maxStale : ℕ) : Concerns coin userId (.withdraw userId coin amount maxStale)
  | borrow (amount maxStale : ℕ) : Concerns coin userId (.borrow userId coin amount maxStale)
  | repay (amount : ℕ) : Concerns coin userId (.repay userId coin amount)

inductive IndexesAfter (v : Db lendExt) (coin : Coin) (elapsedMs : ℤ) : ReserveState → Prop
  | mk {r : Reserve} {poolId : Uuid} {realDebt : ℕ} {idx : ReserveState}
      (hr : (v.ext.books coin).reserve = some r) (hp : PoolOf v coin poolId)
      (hd : scaledToAmount (readU128 0 r.totalScaledDebt) (readU128 ray r.borrowIndex) =
        some realDebt)
      (hg : grow (lendMarket coin) ⟨readU128 ray r.liquidityIndex, readU128 ray r.borrowIndex⟩
        realDebt (readU128 0 (v.core.balance poolId)) elapsedMs = some idx) :
      IndexesAfter v coin elapsedMs idx

def Reserve.indexes (r : Reserve) : ReserveState := ⟨r.liquidityIndex, r.borrowIndex⟩

def Reserve.withIndexes (r : Reserve) (idx : ReserveState) : Reserve :=
  { r with liquidityIndex := idx.liquidityIndex, borrowIndex := idx.borrowIndex }

def Db.position (v : Db lendExt) (userId : Uuid) (coin : Coin) : Position :=
  ((v.ext.books coin).positions.lookup userId).getD .fresh

def Db.payout (v : Db lendExt) (userId : Uuid) (coin : Coin) (amount : ℕ) (idx : ReserveState) : ℕ :=
  min amount ((v.position userId coin).open.scaledSupply * idx.liquidityIndex / ray)

/-- A payout is worth a scaled unit at least, and what it is worth beyond whole ones is no more
than the pool and the debts are worth beyond the supplies. -/
def Affordable (pool : ℤ) (r : Reserve) (idx : ReserveState) (index amount : ℕ) : Prop :=
  index ≤ amount * ray ∧
    ((amount * ray % index : ℕ) : ℤ) + r.totalScaledSupply * idx.liquidityIndex ≤
      pool * ray + r.totalScaledDebt * idx.borrowIndex

/-- The pool, with its indexes at the time, can afford what the operation pays out. -/
def LendOp.Affordable (db : Db lendExt) (pool : ℤ) (r : Reserve) (idx : ReserveState) :
    LendOp → Prop
  | .withdraw userId coin amount _ => 0 < db.payout userId coin amount idx →
    SatsPay.Affordable pool r idx idx.liquidityIndex (db.payout userId coin amount idx)
  | .borrow _ _ amount _ => SatsPay.Affordable pool r idx idx.borrowIndex amount
  | _ => True

/-- The indexes and the balance of the pool can be read, and the pool can afford the payout. -/
structure Meets (db : Db lendExt) (coin : Coin) (idx : ReserveState) (op : LendOp) : Prop where
  liquidityIndex : ∀ r, (db.ext.books coin).reserve = some r → Legible ray r.liquidityIndex
  borrowIndex : ∀ r, (db.ext.books coin).reserve = some r → Legible ray r.borrowIndex
  pool : ∀ poolId, PoolOf db coin poolId → Legible 0 (db.core.balance poolId)
  affordable : ∀ r poolId, (db.ext.books coin).reserve = some r → PoolOf db coin poolId →
    op.Affordable db (db.core.balance poolId) r idx

/-- A step of a history: an operation in `coin` is committed, which met the condition with the
indexes of the time. -/
structure LendStep (coin : Coin) (op : LendOp) (userId : Uuid) (db db' : Db lendExt) : Prop where
  commits : Commits op.code db () db'
  concerns : op.Concerns coin userId
  meets : ∀ elapsedMs idx, IndexesAfter db coin elapsedMs idx →
    (db'.ext.books coin).reserve.map Reserve.indexes = some idx → Meets db coin idx op

inductive LendHistory (coin : Coin) (db₀ : Db lendExt) : Db lendExt → Prop
  | start : LendHistory coin db₀ db₀
  | step {db db' : Db lendExt} {op : LendOp} {userId : Uuid} (h : LendHistory coin db₀ db)
      (hs : LendStep coin op userId db db') : LendHistory coin db₀ db'

def EmptyPool (db : Db lendExt) (coin : Coin) : Prop :=
  ∃ poolId now, PoolState db coin poolId 0 (.fresh now)

/-- The pool covers its suppliers. -/
def Covers (db : Db lendExt) (coin : Coin) : Prop :=
  ∀ r poolId, (db.ext.books coin).reserve = some r → PoolOf db coin poolId →
    (r.totalScaledSupply * r.liquidityIndex / ray : ℚ) ≤
      db.core.balance poolId + r.totalScaledDebt * r.borrowIndex / ray

def Position.net (r : Position) : ℤ := r.scaledSupply - r.scaledDebt

def PaysFor (coin : Coin) (userId : Uuid) (db db' : Db lendExt) : Prop :=
  ∀ poolId, PoolOf db coin poolId → db'.core.balance poolId < db.core.balance poolId →
    (db'.position userId coin).net < (db.position userId coin).net

section
variable {v v' db db' : Db lendExt} {coin : Coin} {userId poolId : Uuid} {pool : ℤ} {r : Reserve}
variable {idx : ReserveState} {op : LendOp}

theorem positions_write {w : LendWrite} (hw : ∀ b : LendBook, (w.set b).positions = b.positions)
    (c : Coin) : ((v.write w).ext.books c).positions = (v.ext.books c).positions := by
  by_cases hc : c = w.coin
  · subst hc
    rw [Db.write_book, hw]
  · exact congrArg LendBook.positions (LendDb.onBook_ne _ hc _)

theorem positions_accrual (ha : Accrual v coin idx v') (c : Coin) :
    (v'.ext.books c).positions = (v.ext.books c).positions := by
  cases ha with
  | mk hr hp hd hg =>
    rw [positions_write (fun _ => rfl)]
    unfold Db.withReserve
    split
    · rfl
    · exact positions_write (fun _ => rfl) c

theorem lookup_withPosition (v : Db lendExt) (userId : Uuid) (coin : Coin) :
    ((v.withPosition userId coin).ext.books coin).positions.lookup userId =
      some (v.position userId coin) := by
  unfold Db.position
  cases hl : (v.ext.books coin).positions.lookup userId with
  | some p =>
    rw [Db.withPosition_of_some hl, hl]
    rfl
  | none =>
    rw [Db.withPosition_of_none hl]
    have hb := congrArg (fun b : LendBook => b.positions.lookup userId)
      (Db.write_book v (.putPosition coin userId .fresh))
    exact hb.trans (AList.lookup_insert ..)

/-- The position that an operation works with is the one there was. -/
theorem position_accrual {p : Position} (ha : Accrual v coin idx v')
    (hp : ((v'.withPosition userId coin).ext.books coin).positions.lookup userId = some p) :
    v.position userId coin = p := by
  rw [lookup_withPosition] at hp
  unfold Db.position at hp ⊢
  rw [← positions_accrual ha]
  exact Option.some.inj hp

/-- The position after the last two writes of an operation. -/
theorem position_updated {p : Position} {u : PositionUpdate} {u' : ReserveUpdate}
    (hp : (v.ext.books coin).positions.lookup userId = some p) :
    ((v.write (.updatePosition coin userId u)).write (.updateReserve coin u')).position userId coin =
      u.set p := by
  have hb := congrArg (fun b : LendBook => b.positions.lookup userId)
    (Db.write_book v (.updatePosition coin userId u))
  simp only [LendWrite.coin, LendWrite.set, hp, AList.lookup_insert] at hb
  unfold Db.position
  rw [positions_write (fun _ => rfl)]
  exact congrArg (Option.getD · Position.fresh) hb

theorem Affordable.rest_le {index amount : ℕ} (h : Affordable pool r idx index amount) :
    ((amount * ray % index : ℕ) : ℤ) ≤ surplus pool (r.withIndexes idx) := by
  have := h.2
  simp only [surplus, Reserve.withIndexes]
  linarith

/-- A step whose indexes are these has met the condition with them. -/
theorem LendStep.meets_of_accrual {realDebt : ℕ} {elapsedMs : ℤ} {r' : Reserve} {pool' : ℤ}
    (h : LendStep coin op userId db db') (hp : PoolState db coin poolId pool r)
    (hd : scaledToAmount (readU128 0 r.totalScaledDebt) (readU128 ray r.borrowIndex) =
      some realDebt)
    (hg : grow (lendMarket coin) ⟨readU128 ray r.liquidityIndex, readU128 ray r.borrowIndex⟩
      realDebt (readU128 0 pool) elapsedMs = some idx)
    (hp' : PoolState db' coin poolId pool' r') (hi : r'.indexes = idx) :
    Legible ray r.liquidityIndex ∧ Legible ray r.borrowIndex ∧ Legible 0 pool ∧
      op.Affordable db pool r idx := by
  have hm := h.meets elapsedMs idx (.mk hp.reserve hp.wallet hd (by rw [hp.balance]; exact hg))
    (by rw [hp'.reserve, Option.map_some, hi])
  have hpool := hm.pool poolId hp.wallet
  have haff := hm.affordable r poolId hp.reserve hp.wallet
  rw [hp.balance] at hpool haff
  exact ⟨hm.liquidityIndex r hp.reserve, hm.borrowIndex r hp.reserve, hpool, haff⟩

theorem LendStep.sound (h : LendStep coin op userId db db') (hp : PoolState db coin poolId pool r)
    (hs : PoolSound pool r) : ∃ pool' r', PoolState db' coin poolId pool' r' ∧ PoolSound pool' r' := by
  have hrun := lendRun_of_commits h.commits
  cases h.concerns with
  | supply amount =>
    cases hrun with
    | @supply _ v₁ v₂ idx _ walletId _ _ _ scaled ha hw hpool hm hsc =>
      obtain ⟨realDebt, elapsedMs, now, hd, hg, hst⟩ := hp.accrual ha
      obtain rfl := hp.wallet.unique hpool
      have hfinal := (((hst.payIn hm).withPosition userId coin).updatePosition coin userId
        (.addSupply scaled)).updateReserve (.addSupply scaled)
      obtain ⟨hli, hbi, hbal, -⟩ := h.meets_of_accrual hp hd hg hfinal rfl
      exact ⟨_, _, hfinal, (hs.accrued _ hli hbi hbal hd hg).addSupply hsc⟩
  | withdraw amount maxStale =>
    cases hrun with
    | @withdraw _ v₁ v₂ idx _ walletId _ _ _ _ real scaled p ha hw hpool hr hreal hav hm hsc =>
      obtain ⟨realDebt, elapsedMs, now, hd, hg, hst⟩ := hp.accrual ha
      obtain rfl := hp.wallet.unique hpool
      obtain ⟨hout, hle⟩ := (hst.withPosition userId coin).payOut hm
      have hfinal := (hout.updatePosition coin userId (.setSupply (p.open.scaledSupply - scaled))).updateReserve
        (.subSupply scaled)
      obtain ⟨hli, hbi, hbal, haff⟩ := h.meets_of_accrual hp hd hg hfinal rfl
      have hacc := hs.accrued now hli hbi hbal hd hg
      have hpay : db.payout userId coin amount idx = min amount real :=
        congrArg (min amount) (by rw [position_accrual ha hr, ← toU128_eq_some hreal])
      simp only [LendOp.Affordable, hpay] at haff
      refine ⟨_, _, hfinal, hacc.subSupply hsc ?_ ?_⟩
      · rcases Nat.eq_zero_or_pos (min amount real) with h0 | hpos
        · rw [h0]
          exact hs.pool_nonneg
        · exact hle hpos
      · rcases Nat.eq_zero_or_pos (min amount real) with h0 | hpos
        · rw [h0, Nat.zero_mul, Nat.zero_mod]
          exact hacc.surplus_nonneg
        · exact (haff hpos).rest_le
  | borrow amount maxStale =>
    cases hrun with
    | @borrow _ v₁ v₂ idx _ walletId _ _ _ _ scaled ha hw hpool hav hm hsc =>
      obtain ⟨realDebt, elapsedMs, now, hd, hg, hst⟩ := hp.accrual ha
      obtain rfl := hp.wallet.unique hpool
      obtain ⟨hout, hle⟩ := hst.payOut hm
      have hfinal := ((hout.withPosition userId coin).updatePosition coin userId
        (.addDebt scaled)).updateReserve (.addDebt scaled)
      obtain ⟨hli, hbi, hbal, haff⟩ := h.meets_of_accrual hp hd hg hfinal rfl
      have hacc := hs.accrued now hli hbi hbal hd hg
      refine ⟨_, _, hfinal, hacc.addDebt hsc ?_ haff.rest_le⟩
      rcases Nat.eq_zero_or_pos amount with rfl | hpos
      · exact hs.pool_nonneg
      · exact hle hpos
  | repay amount =>
    cases hrun with
    | @repay _ v₁ v₂ idx _ walletId _ _ _ real scaled p ha hw hpool hr hreal hm hsc =>
      obtain ⟨realDebt, elapsedMs, now, hd, hg, hst⟩ := hp.accrual ha
      obtain rfl := hp.wallet.unique hpool
      have hfinal := (((hst.withPosition userId coin).payIn hm).updatePosition coin userId
        (.setDebt (p.open.scaledDebt - scaled))).updateReserve (.subDebt scaled)
      obtain ⟨hli, hbi, hbal, -⟩ := h.meets_of_accrual hp hd hg hfinal rfl
      exact ⟨_, _, hfinal, (hs.accrued _ hli hbi hbal hd hg).subDebt hsc⟩

/-- A scaled unit at least. -/
theorem scaled_pos {amount index scaled : ℕ} (hi : 0 < index) (h : index ≤ amount * ray)
    (hs : amountToScaled amount index = some scaled) : 0 < scaled := by
  rw [amountToScaled_eq hi hs]
  exact Nat.div_pos h hi

theorem LendStep.paysFor (h : LendStep coin op userId db db')
    (hp : PoolState db coin poolId pool r) (hs : PoolSound pool r) : PaysFor coin userId db db' := by
  intro id hid hlt
  obtain rfl := hp.wallet.unique hid
  have hrun := lendRun_of_commits h.commits
  rw [hp.balance] at hlt
  cases h.concerns with
  | supply amount =>
    cases hrun with
    | @supply _ v₁ v₂ idx _ walletId _ _ _ scaled ha hw hpool hm hsc =>
      obtain ⟨realDebt, elapsedMs, now, hd, hg, hst⟩ := hp.accrual ha
      obtain rfl := hp.wallet.unique hpool
      have hb := (((hst.payIn hm).withPosition userId coin).updatePosition coin userId
        (.addSupply scaled)).updateReserve (.addSupply scaled) |>.balance
      omega
  | withdraw amount maxStale =>
    cases hrun with
    | @withdraw _ v₁ v₂ idx _ walletId _ _ _ _ real scaled p ha hw hpool hr hreal hav hm hsc =>
      obtain ⟨realDebt, elapsedMs, now, hd, hg, hst⟩ := hp.accrual ha
      obtain rfl := hp.wallet.unique hpool
      have hfinal := (((hst.withPosition userId coin).payOut hm).1.updatePosition coin userId
        (.setSupply (p.open.scaledSupply - scaled))).updateReserve (.subSupply scaled)
      obtain ⟨hli, hbi, hbal, haff⟩ := h.meets_of_accrual hp hd hg hfinal rfl
      have hpos : 0 < min amount real := by
        have := hfinal.balance
        omega
      have hpay : db.payout userId coin amount idx = min amount real :=
        congrArg (min amount) (by rw [position_accrual ha hr, ← toU128_eq_some hreal])
      simp only [LendOp.Affordable, hpay] at haff
      have hindex := (hs.accrued now hli hbi hbal hd hg).liquidityIndex
      have hsc0 := scaled_pos (PoolSound.index_pos hindex) (haff hpos).1 hsc
      -- what is paid out is at most what the position is worth
      have hle : scaled ≤ p.open.scaledSupply := by
        rw [amountToScaled_eq (PoolSound.index_pos hindex) hsc]
        refine Nat.div_le_of_le_mul ?_
        exact (Nat.mul_le_mul_right _ (Nat.min_le_right _ _)).trans
          ((scaledToAmount_mul_le hreal).trans (Nat.mul_comm _ _).le)
      have hread : p.open.scaledSupply = p.scaledSupply := readU128_ne_default (by
        intro h0
        have : p.open.scaledSupply = 0 := h0
        omega)
      have hr' : (v₂.ext.books coin).positions.lookup userId = some p := by
        obtain ⟨memoOut, memoIn, rfl⟩ := hm.entries
        exact hr
      rw [position_accrual ha hr, position_updated hr']
      simp only [Position.net, PositionUpdate.set]
      omega
  | borrow amount maxStale =>
    cases hrun with
    | @borrow _ v₁ v₂ idx _ walletId _ _ _ _ scaled ha hw hpool hav hm hsc =>
      obtain ⟨realDebt, elapsedMs, now, hd, hg, hst⟩ := hp.accrual ha
      obtain rfl := hp.wallet.unique hpool
      have hfinal := (((hst.payOut hm).1.withPosition userId coin).updatePosition coin userId
        (.addDebt scaled)).updateReserve (.addDebt scaled)
      obtain ⟨hli, hbi, hbal, haff⟩ := h.meets_of_accrual hp hd hg hfinal rfl
      have hindex := (hs.accrued now hli hbi hbal hd hg).borrowIndex
      have hsc0 := scaled_pos (PoolSound.index_pos hindex) haff.1 hsc
      have hposition : v₂.position userId coin = db.position userId coin := by
        obtain ⟨memoOut, memoIn, rfl⟩ := hm.entries
        unfold Db.position
        rw [← positions_accrual ha]
        rfl
      rw [position_updated (lookup_withPosition _ _ _), hposition]
      simp only [Position.net, PositionUpdate.set]
      omega
  | repay amount =>
    cases hrun with
    | @repay _ v₁ v₂ idx _ walletId _ _ _ real scaled p ha hw hpool hr hreal hm hsc =>
      obtain ⟨realDebt, elapsedMs, now, hd, hg, hst⟩ := hp.accrual ha
      obtain rfl := hp.wallet.unique hpool
      have hb := (((hst.withPosition userId coin).payIn hm).updatePosition coin userId
        (.setDebt (p.open.scaledDebt - scaled))).updateReserve (.subDebt scaled) |>.balance
      omega

theorem PoolState.covers_iff (hp : PoolState db coin poolId pool r) :
    Covers db coin ↔ 0 ≤ surplus pool r := by
  have hray : (0 : ℚ) < ray := by norm_num [ray]
  have hcast : (0 : ℚ) ≤ pool * ray + r.totalScaledDebt * r.borrowIndex -
      r.totalScaledSupply * r.liquidityIndex ↔ 0 ≤ surplus pool r := by
    unfold surplus
    exact_mod_cast Iff.rfl
  have hone : (r.totalScaledSupply * r.liquidityIndex / ray : ℚ) ≤
      pool + r.totalScaledDebt * r.borrowIndex / ray ↔ 0 ≤ surplus pool r := by
    rw [← hcast, div_le_iff₀ hray, add_mul, div_mul_cancel₀ _ hray.ne', sub_nonneg]
  constructor
  · intro h
    have := h r poolId hp.reserve hp.wallet
    rw [hp.balance] at this
    exact hone.1 this
  · intro hs r' id hr hid
    obtain rfl := Option.some.inj (hp.reserve.symm.trans hr)
    obtain rfl := hp.wallet.unique hid
    rw [hp.balance]
    exact hone.2 hs

theorem LendHistory.sound {db₀ : Db lendExt} (h₀ : EmptyPool db₀ coin)
    (h : LendHistory coin db₀ db) : ∃ poolId pool r, PoolState db coin poolId pool r ∧
      PoolSound pool r := by
  induction h with
  | start =>
    obtain ⟨poolId, now, hp⟩ := h₀
    exact ⟨poolId, 0, _, hp, le_rfl, le_rfl, le_rfl, by simp [surplus, Reserve.fresh]⟩
  | step _ hs ih =>
    obtain ⟨poolId, pool, r, hp, hr⟩ := ih
    obtain ⟨pool', r', hp', hr'⟩ := hs.sound hp hr
    exact ⟨poolId, pool', r', hp', hr'⟩

end

/-- In a history whose steps meet the condition the pool covers its suppliers, and pays out only
against positions. -/
theorem covers_of_history {coin : Coin} {db₀ db : Db lendExt} (h₀ : EmptyPool db₀ coin)
    (h : LendHistory coin db₀ db) : Covers db coin ∧ ∀ op userId db',
      LendStep coin op userId db db' → Covers db' coin ∧ PaysFor coin userId db db' := by
  obtain ⟨poolId, pool, r, hp, hs⟩ := h.sound h₀
  refine ⟨hp.covers_iff.2 hs.surplus_nonneg, fun op userId db' hstep => ?_⟩
  obtain ⟨pool', r', hp', hs'⟩ := hstep.sound hp hs
  exact ⟨hp'.covers_iff.2 hs'.surplus_nonneg, hstep.paysFor hp hs⟩

/-! User 7 supplies, borrows half of it, and a millisecond later takes out one unit. -/

def lendDeposit : Db lendExt where
  core := {
    now := 0
    wallets := ((∅ : Table Wallet).insert 1 ⟨7, .btc, .personal, none⟩).insert 2
      ⟨9, .btc, .lendPool, none⟩
    ledger := [⟨1, 1000000, .deposit, none, none, none, none⟩]
    jobs := ∅
    outbox := []
    auditLogs := [] }
  ext := ⟨fun _ => ⟨some (.fresh 0), ∅⟩, fun _ => some ⟨10 ^ 8, 8, 0⟩, some 9⟩

def dustRun : Option (Db lendExt × Db lendExt × Db lendExt) := do
  let db₁ ← (LendOp.supply 7 .btc 1000000).solo 0 lendDeposit
  let db₂ ← (LendOp.borrow 7 .btc 500000 1000000).solo 0 db₁
  let db₃ ← (LendOp.withdraw 7 .btc 1 1000000).solo 1000 db₂
  pure (db₁, db₂, db₃)

theorem emptyPool_lendDeposit : EmptyPool lendDeposit .btc := by
  refine ⟨2, 0, rfl, ⟨9, rfl, ?_⟩, ?_⟩ <;> decide

/-- The unit is paid for with no scaled unit, and the pool is short of it. -/
theorem dust_unpaid : ∃ db₁ db₂ db₃, EmptyPool lendDeposit .btc ∧
    Commits (LendOp.supply 7 .btc 1000000).code lendDeposit () db₁ ∧
    Commits (LendOp.borrow 7 .btc 500000 1000000).code db₁ () db₂ ∧
    Commits (LendOp.withdraw 7 .btc 1 1000000).code db₂ () db₃ ∧
    ¬ Covers db₃ .btc ∧ ¬ PaysFor .btc 7 db₂ db₃ := by
  have hrun : (dustRun.map fun (_, db₂, db₃) =>
      ((db₃.ext.books .btc).reserve.map fun r => decide (surplus 499999 r < 0),
        decide (db₂.ext.house = some 9 ∧ db₂.core.walletOf 9 .btc .lendPool = some 2 ∧
          db₂.core.balance 2 = 500000),
        decide (db₃.ext.house = some 9 ∧ db₃.core.walletOf 9 .btc .lendPool = some 2 ∧
          db₃.core.balance 2 = 499999),
        decide (db₂.position 7 .btc = db₃.position 7 .btc))) =
      some (some true, true, true, true) := by
    decide +kernel
  obtain ⟨⟨db₁, db₂, db₃⟩, hdust, hc⟩ := Option.map_eq_some_iff.1 hrun
  obtain ⟨_, h₁, hdust⟩ := Option.bind_eq_some_iff.1 hdust
  obtain ⟨_, h₂, hdust⟩ := Option.bind_eq_some_iff.1 hdust
  obtain ⟨_, h₃, hdust⟩ := Option.bind_eq_some_iff.1 hdust
  cases hdust
  simp only [Prod.mk.injEq, decide_eq_true_eq] at hc
  obtain ⟨hr, ⟨hh₂, hw₂, hb₂⟩, ⟨hh₃, hw₃, hb₃⟩, hpos⟩ := hc
  obtain ⟨r, hr, hs⟩ := Option.map_eq_some_iff.1 hr
  have hp : PoolState db₃ .btc 2 499999 r := ⟨hr, ⟨9, hh₃, hw₃⟩, hb₃⟩
  refine ⟨db₁, db₂, db₃, emptyPool_lendDeposit, commits_of_solo h₁, commits_of_solo h₂,
    commits_of_solo h₃, fun h => ?_, fun h => ?_⟩
  · exact absurd (hp.covers_iff.1 h) (not_le.2 (of_decide_eq_true hs))
  · have := h 2 ⟨9, hh₂, hw₂⟩ (by rw [hb₂, hb₃]; decide)
    rw [hpos] at this
    exact lt_irrefl _ this

/-! User 7 supplies, borrows half of it, and a day later takes out a thousand units. -/

instance (pool : ℤ) (r : Reserve) (idx : ReserveState) (index amount : ℕ) :
    Decidable (Affordable pool r idx index amount) := by
  unfold Affordable; infer_instance

instance (db : Db lendExt) (pool : ℤ) (r : Reserve) (idx : ReserveState) (op : LendOp) :
    Decidable (op.Affordable db pool r idx) := by
  unfold LendOp.Affordable; cases op <;> infer_instance

def stepMeets (op : LendOp) (db db' : Db lendExt) : Bool :=
  match (db.ext.books .btc).reserve, (db'.ext.books .btc).reserve with
  | some r, some r' =>
    decide (db.ext.house = some 9 ∧ db.core.walletOf 9 .btc .lendPool = some 2 ∧
      Legible ray r.liquidityIndex ∧ Legible ray r.borrowIndex ∧ Legible 0 (db.core.balance 2) ∧
      op.Affordable db (db.core.balance 2) r r'.indexes)
  | _, _ => false

theorem lendStep_of_stepMeets {op : LendOp} {userId : Uuid} {now : Instant} {db db' : Db lendExt}
    (hrun : op.solo now db = some db') (hc : op.Concerns .btc userId)
    (hm : stepMeets op db db' = true) : LendStep .btc op userId db db' := by
  unfold stepMeets at hm
  split at hm
  · rename_i r r' hr hr'
    obtain ⟨hh, hw, hli, hbi, hbal, haff⟩ := of_decide_eq_true hm
    have hpool : ∀ poolId, PoolOf db .btc poolId → poolId = 2 := fun id hid =>
      hid.unique ⟨9, hh, hw⟩
    refine ⟨commits_of_solo hrun, hc, fun _ idx _ hidx => ⟨?_, ?_, ?_, ?_⟩⟩
    · intro q hq
      obtain rfl := Option.some.inj (hr.symm.trans hq)
      exact hli
    · intro q hq
      obtain rfl := Option.some.inj (hr.symm.trans hq)
      exact hbi
    · intro id hid
      rw [hpool id hid]
      exact hbal
    · intro q id hq hid
      rw [hr', Option.map_some] at hidx
      obtain rfl := Option.some.inj hidx
      obtain rfl := Option.some.inj (hr.symm.trans hq)
      rw [hpool id hid]
      exact haff
  · cases hm

def dayRun : Option (Db lendExt × Db lendExt × Db lendExt) := do
  let db₁ ← (LendOp.supply 7 .btc 1000000).solo 0 lendDeposit
  let db₂ ← (LendOp.borrow 7 .btc 500000 1000000).solo 0 db₁
  let db₃ ← (LendOp.withdraw 7 .btc 1000 100000000000).solo 86400000000 db₂
  pure (db₁, db₂, db₃)

/-- The interest of the day covers what the withdrawal is short of a scaled unit. -/
theorem dayWithdrawal_covers : ∃ db₂ db₃, LendHistory .btc lendDeposit db₂ ∧
    Commits (LendOp.withdraw 7 .btc 1000 100000000000).code db₂ () db₃ ∧
    db₂.core.balance 2 = 500000 ∧ db₃.core.balance 2 = 499000 ∧
    Covers db₃ .btc ∧ PaysFor .btc 7 db₂ db₃ := by
  have hrun : (dayRun.map fun (db₁, db₂, db₃) =>
      (stepMeets (.supply 7 .btc 1000000) lendDeposit db₁,
        stepMeets (.borrow 7 .btc 500000 1000000) db₁ db₂,
        stepMeets (.withdraw 7 .btc 1000 100000000000) db₂ db₃,
        db₂.core.balance 2, db₃.core.balance 2)) =
      some (true, true, true, 500000, 499000) := by
    decide +kernel
  obtain ⟨⟨db₁, db₂, db₃⟩, hday, hc⟩ := Option.map_eq_some_iff.1 hrun
  obtain ⟨_, h₁, hday⟩ := Option.bind_eq_some_iff.1 hday
  obtain ⟨_, h₂, hday⟩ := Option.bind_eq_some_iff.1 hday
  obtain ⟨_, h₃, hday⟩ := Option.bind_eq_some_iff.1 hday
  cases hday
  simp only [Prod.mk.injEq] at hc
  obtain ⟨hm₁, hm₂, hm₃, hb₂, hb₃⟩ := hc
  have hhist : LendHistory .btc lendDeposit db₂ :=
    (LendHistory.start.step (lendStep_of_stepMeets h₁ (.supply 1000000) hm₁)).step
      (lendStep_of_stepMeets h₂ (.borrow 500000 1000000) hm₂)
  obtain ⟨hcov, hpays⟩ := (covers_of_history emptyPool_lendDeposit hhist).2 _ _ _
    (lendStep_of_stepMeets h₃ (.withdraw 1000 100000000000) hm₃)
  exact ⟨db₂, db₃, hhist, commits_of_solo h₃, hb₂, hb₃, hcov, hpays⟩

end SatsPay
