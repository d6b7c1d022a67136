import SatsPay.LendSolvency

/-!
# Accrual

The rates never fall when the utilization rises, also as doubles. An accrual keeps both indexes
above `1.0` and the index of the supply behind that of the debt, where the stored numbers leave
room for it.
-/

namespace SatsPay

open Doubles Interleave ReadCommitted

/-! ## Rates -/

def exactBorrowRateBps (utilizationBps : ℕ) (m : LendMarket) : ℚ :=
  let u := min utilizationBps 10000
  let opt := m.optimalUtilizationBps
  if u ≤ opt then m.baseRateBps + m.slope1Bps * (if opt = 0 then 0 else (u / opt : ℚ))
  else m.baseRateBps + m.slope1Bps + m.slope2Bps * ((u - opt : ℕ) / (10000 - opt : ℕ))

def exactSupplyRateBps (utilizationBps : ℕ) (m : LendMarket) : ℚ :=
  exactBorrowRateBps utilizationBps m * (utilizationBps / 10000) *
    (1 - m.reserveFactorBps / 10000)

def kinkedRate (round : ℚ → ℚ) (utilizationBps : ℕ) (m : LendMarket) : ℚ :=
  let u := min utilizationBps 10000
  let opt := m.optimalUtilizationBps
  if u ≤ opt then
    round (m.baseRateBps + round (m.slope1Bps * (if opt = 0 then 0 else round (u / opt))))
  else round (m.baseRateBps + m.slope1Bps +
    round (m.slope2Bps * round ((u - opt : ℕ) / (10000 - opt : ℕ))))

theorem calcBorrowRateBps_eq (u : ℕ) (m : LendMarket) :
    calcBorrowRateBps u m = roundU32 (kinkedRate toDouble u m) := by
  unfold calcBorrowRateBps kinkedRate
  dsimp only
  split <;> rfl

theorem exactBorrowRateBps_eq (u : ℕ) (m : LendMarket) :
    exactBorrowRateBps u m = kinkedRate id u m := rfl

section
variable {round : ℚ → ℚ} {m : LendMarket}

/-- Below the kink the rate is the base and a part of the first slope. -/
theorem kinkedRate_below (hzero : round 0 = 0) {u : ℕ}
    (h : min u 10000 ≤ m.optimalUtilizationBps) :
    kinkedRate round u m = round (m.baseRateBps + round (m.slope1Bps *
      round ((min u 10000 : ℕ) / m.optimalUtilizationBps))) := by
  unfold kinkedRate
  dsimp only
  rw [if_pos h]
  split
  · rename_i h0
    rw [h0, Nat.cast_zero, div_zero, hzero]
  · rfl

theorem kinkedRate_beyond {u : ℕ} (h : m.optimalUtilizationBps < min u 10000) :
    kinkedRate round u m = round (m.baseRateBps + m.slope1Bps + round (m.slope2Bps *
      round ((min u 10000 - m.optimalUtilizationBps : ℕ) /
        (10000 - m.optimalUtilizationBps : ℕ)))) :=
  if_neg h.not_ge

/-- The rate does not fall, if the rounding keeps the order and the slope below the kink. -/
theorem kinkedRate_mono (hmono : ∀ p q, 0 ≤ p → p ≤ q → round p ≤ round q) (hzero : round 0 = 0)
    (hone : round 1 = 1) (hslope : round m.slope1Bps = m.slope1Bps) {u v : ℕ} (h : u ≤ v) :
    kinkedRate round u m ≤ kinkedRate round v m := by
  have hnonneg (q : ℚ) (hq : 0 ≤ q) : 0 ≤ round q := hzero ▸ hmono 0 q le_rfl hq
  have hscale (s p q : ℚ) (hs : 0 ≤ s) (hp : 0 ≤ p) (hpq : p ≤ q) :
      round (s * round p) ≤ round (s * round q) :=
    hmono _ _ (mul_nonneg hs (hnonneg p hp)) (mul_le_mul_of_nonneg_left (hmono p q hp hpq) hs)
  have hpart (s p : ℚ) (hs : 0 ≤ s) (hp : 0 ≤ p) : 0 ≤ round (s * round p) :=
    hnonneg _ (mul_nonneg hs (hnonneg p hp))
  have huv : min u 10000 ≤ min v 10000 := min_le_min_right _ h
  rcases le_or_gt (min u 10000) m.optimalUtilizationBps with hu | hu
  · rw [kinkedRate_below hzero hu]
    refine (le_or_gt (min v 10000) m.optimalUtilizationBps).elim (fun hv => ?_) fun hv => ?_
    · rw [kinkedRate_below hzero hv]
      refine hmono _ _ (add_nonneg (by positivity) (hpart _ _ (by positivity) (by positivity))) ?_
      have := hscale m.slope1Bps _ _ (by positivity) (by positivity)
        (show ((min u 10000 : ℕ) : ℚ) / m.optimalUtilizationBps ≤
          (min v 10000 : ℕ) / m.optimalUtilizationBps by gcongr)
      linarith
    · -- at most the first slope below the kink, and at least that beyond it
      rw [kinkedRate_beyond hv]
      refine hmono _ _ (add_nonneg (by positivity) (hpart _ _ (by positivity) (by positivity))) ?_
      have hle := hscale m.slope1Bps _ 1 (by positivity) (by positivity)
        (show ((min u 10000 : ℕ) : ℚ) / m.optimalUtilizationBps ≤ 1 from
          div_le_one_of_le₀ (by exact_mod_cast hu) (by positivity))
      rw [hone, mul_one, hslope] at hle
      have := hpart m.slope2Bps ((min v 10000 - m.optimalUtilizationBps : ℕ) /
        (10000 - m.optimalUtilizationBps : ℕ)) (by positivity) (by positivity)
      linarith
  · rw [kinkedRate_beyond hu, kinkedRate_beyond (hu.trans_le huv)]
    refine hmono _ _ (add_nonneg (by positivity) (hpart _ _ (by positivity) (by positivity))) ?_
    have := hscale m.slope2Bps _ _ (by positivity) (by positivity)
      (show ((min u 10000 - m.optimalUtilizationBps : ℕ) : ℚ) /
          (10000 - m.optimalUtilizationBps : ℕ) ≤ (min v 10000 - m.optimalUtilizationBps : ℕ) /
          (10000 - m.optimalUtilizationBps : ℕ) by gcongr)
    linarith

end

theorem exactBorrowRateBps_mono (m : LendMarket) {u v : ℕ} (h : u ≤ v) :
    exactBorrowRateBps u m ≤ exactBorrowRateBps v m := by
  rw [exactBorrowRateBps_eq, exactBorrowRateBps_eq]
  exact kinkedRate_mono (fun _ _ _ h => h) rfl rfl rfl h

theorem lendMarket_slope1 (coin : Coin) : (lendMarket coin).slope1Bps < 2 ^ 53 := by
  cases coin <;> decide

theorem roundU32_mono {p q : ℚ} (h : p ≤ q) : roundU32 p ≤ roundU32 q :=
  min_le_min_right _ (Nat.floor_mono (by linarith))

/-- The doubles keep the order, too. -/
theorem calcBorrowRateBps_mono (coin : Coin) {u v : ℕ} (h : u ≤ v) :
    calcBorrowRateBps u (lendMarket coin) ≤ calcBorrowRateBps v (lendMarket coin) := by
  rw [calcBorrowRateBps_eq, calcBorrowRateBps_eq]
  exact roundU32_mono (kinkedRate_mono (fun _ _ => toDouble_mono) (if_pos rfl)
    (by simpa using toDouble_natCast (n := 1) (by norm_num))
    (toDouble_natCast (lendMarket_slope1 coin)) h)

theorem exactBorrowRateBps_nonneg (u : ℕ) (m : LendMarket) : 0 ≤ exactBorrowRateBps u m := by
  unfold exactBorrowRateBps
  dsimp only
  split
  · split <;> positivity
  · positivity

theorem exactSupplyRateBps_le (u : ℕ) (m : LendMarket) :
    exactSupplyRateBps u m ≤ exactBorrowRateBps u m * (u / 10000) := by
  refine mul_le_of_le_one_right (mul_nonneg (exactBorrowRateBps_nonneg u m) (by positivity)) ?_
  linarith [show (0 : ℚ) ≤ m.reserveFactorBps / 10000 by positivity]

/-- What a reserve factor leaves to the suppliers of a utilization. -/
theorem calcSupplyRateBps_part {rate util rf : ℕ} (hu : util ≤ 10000) :
    calcSupplyRateBps rate util rf * 10000 ≤ rate * (10000 - rf) := by
  have h := calcSupplyRateBps_le rate util rf
  have hle : rate * util * (10000 - rf) ≤ rate * 10000 * (10000 - rf) := by gcongr
  refine Nat.le_of_mul_le_mul_right ?_ (show 0 < 10000 by norm_num)
  linarith

theorem calcSupplyRateBps_mul_le (rate util rf : ℕ) :
    calcSupplyRateBps rate util rf * 10000 ≤ rate * util := by
  have h := calcSupplyRateBps_le rate util rf
  have hle : rate * util * (10000 - rf) ≤ rate * util * 10000 :=
    Nat.mul_le_mul_left _ (Nat.sub_le _ _)
  refine Nat.le_of_mul_le_mul_right ?_ (show 0 < 10000 by norm_num)
  linarith

theorem grow_eq_some {market : LendMarket} {state idx : ReserveState} {realDebt pool : ℕ}
    {elapsedMs : ℤ} (h : grow market state realDebt pool elapsedMs = some idx) :
    accrueIndex state.borrowIndex (calcBorrowRateBps (calcUtilizationBps realDebt pool) market)
        elapsedMs = some idx.borrowIndex ∧
      accrueIndex state.liquidityIndex (calcSupplyRateBps
        (calcBorrowRateBps (calcUtilizationBps realDebt pool) market)
        (calcUtilizationBps realDebt pool) market.reserveFactorBps) elapsedMs =
          some idx.liquidityIndex := by
  obtain ⟨borrowIndex, hb, h⟩ := Option.bind_eq_some_iff.1 h
  obtain ⟨liquidityIndex, hl, rfl⟩ := Option.map_eq_some_iff.1 h
  exact ⟨hb, hl⟩

/-- The index of the supply stays behind that of the debt. -/
theorem grow_behind {coin : Coin} {state idx : ReserveState} {realDebt pool : ℕ} {elapsedMs : ℤ}
    (hg : grow (lendMarket coin) state realDebt pool elapsedMs = some idx)
    (hindex : ray ≤ state.borrowIndex) :
    idx.liquidityIndex * state.borrowIndex ≤ idx.borrowIndex * state.liquidityIndex := by
  obtain ⟨hb, hl⟩ := grow_eq_some hg
  set util := calcUtilizationBps realDebt pool
  set rate := calcBorrowRateBps util (lendMarket coin)
  set supplyRate := calcSupplyRateBps rate util (lendMarket coin).reserveFactorBps
  have hrf := lendMarket_reserveFactor coin
  have hpart : supplyRate * 10000 ≤ rate * (10000 - (lendMarket coin).reserveFactorBps) :=
    calcSupplyRateBps_part (calcUtilizationBps_le _ _)
  have hlost : 10000 * (10000 * msPerYear) ≤
      (lendMarket coin).reserveFactorBps * state.borrowIndex :=
    ray_interest.trans (Nat.mul_le_mul hrf.1 hindex)
  have hrates : state.borrowIndex * (state.liquidityIndex * supplyRate) * 10000 ≤
      state.liquidityIndex * state.borrowIndex * rate *
        (10000 - (lendMarket coin).reserveFactorBps) := by
    calc state.borrowIndex * (state.liquidityIndex * supplyRate) * 10000
        = state.borrowIndex * state.liquidityIndex * (supplyRate * 10000) := by ring
      _ ≤ state.borrowIndex * state.liquidityIndex *
          (rate * (10000 - (lendMarket coin).reserveFactorBps)) := Nat.mul_le_mul_left _ hpart
      _ = _ := by ring
  have h := interest_covers (t := elapsedMs.toNat) (by decide) hrf.2 hlost hrates
  rw [accrueIndex_eq_some hb, accrueIndex_eq_some hl, Nat.add_mul, Nat.add_mul,
    Nat.mul_comm state.borrowIndex state.liquidityIndex]
  refine Nat.add_le_add_left ?_ _
  calc _ = state.borrowIndex * (state.liquidityIndex * supplyRate * elapsedMs.toNat /
          (10000 * msPerYear)) := Nat.mul_comm _ _
    _ ≤ _ := h
    _ = _ := Nat.mul_comm _ _

/-! ## An accrual of a stored reserve -/

def Reserve.realDebt (r : Reserve) : ℕ := readU128 0 r.totalScaledDebt * r.borrowIndex / ray

def Reserve.borrowRate (r : Reserve) (coin : Coin) (available : ℕ) : ℕ :=
  calcBorrowRateBps (calcUtilizationBps r.realDebt available) (lendMarket coin)

def Reserve.supplyRate (r : Reserve) (coin : Coin) (available : ℕ) : ℕ :=
  calcSupplyRateBps (r.borrowRate coin available) (calcUtilizationBps r.realDebt available)
    (lendMarket coin).reserveFactorBps

def Reserve.accrued (r : Reserve) (coin : Coin) (available : ℕ) (elapsedMs : ℤ) :
    Option ReserveState :=
  (scaledToAmount (readU128 0 r.totalScaledDebt) (readU128 ray r.borrowIndex)).bind fun realDebt =>
    grow (lendMarket coin) ⟨readU128 ray r.liquidityIndex, readU128 ray r.borrowIndex⟩ realDebt
      available elapsedMs

theorem Accrual.accrued {v v' : Db lendExt} {coin : Coin} {idx : ReserveState} {r : Reserve}
    {poolId : Uuid} (h : Accrual v coin idx v') (hr : (v.ext.books coin).reserve = some r)
    (hp : PoolOf v coin poolId) : ∃ elapsedMs,
      r.accrued coin (readU128 0 (v.core.balance poolId)) elapsedMs = some idx := by
  obtain ⟨realDebt, elapsedMs, _, hd, hg, -⟩ := PoolState.accrual ⟨hr, hp, rfl⟩ h
  exact ⟨elapsedMs, Option.bind_eq_some_iff.2 ⟨realDebt, hd, hg⟩⟩

/-- The rates of a coin never fall, and the suppliers get no more than the utilization's part of
the interest. -/
structure RatesInOrder (coin : Coin) : Prop where
  exact_mono : ∀ u v, u ≤ v →
    exactBorrowRateBps u (lendMarket coin) ≤ exactBorrowRateBps v (lendMarket coin)
  exact_supply : ∀ u, exactSupplyRateBps u (lendMarket coin) ≤
    exactBorrowRateBps u (lendMarket coin) * (u / 10000)
  mono : ∀ u v, u ≤ v →
    calcBorrowRateBps u (lendMarket coin) ≤ calcBorrowRateBps v (lendMarket coin)
  supply : ∀ u, calcSupplyRateBps (calcBorrowRateBps u (lendMarket coin)) u
    (lendMarket coin).reserveFactorBps * 10000 ≤ calcBorrowRateBps u (lendMarket coin) * u

/-- An accrual that does not panic and whose products fit into `u128`. -/
inductive AccruesWell (coin : Coin) (r : Reserve) (available : ℕ) (elapsedMs : ℤ) : Prop
  | mk {realDebt : ℕ} {idx : ReserveState}
      (hd : scaledToAmount (readU128 0 r.totalScaledDebt) (readU128 ray r.borrowIndex) =
        some realDebt)
      (hproduct : realDebt * 10000 < 2 ^ 128)
      (hutil : calcUtilizationBps realDebt available ≤ 10000)
      (hidx : r.accrued coin available elapsedMs = some idx)
      (hliquidity : ray ≤ r.liquidityIndex ∧ r.liquidityIndex ≤ idx.liquidityIndex)
      (hborrow : ray ≤ r.borrowIndex ∧ r.borrowIndex ≤ idx.borrowIndex)
      (hbehind : idx.liquidityIndex * r.borrowIndex ≤ idx.borrowIndex * r.liquidityIndex)

/-- An index that is read as it is, with room for the interest of some time. -/
structure IndexRoom (index rate window : ℕ) : Prop where
  legible : Legible ray index
  ray_le : ray ≤ index
  room : index + index * rate * window / (10000 * msPerYear) < 2 ^ 128

structure AccrualRoom (coin : Coin) (r : Reserve) (available window : ℕ) : Prop where
  product : r.realDebt * 10000 < 2 ^ 128
  liquidity : IndexRoom r.liquidityIndex (r.supplyRate coin available) window
  borrow : IndexRoom r.borrowIndex (r.borrowRate coin available) window

theorem ratesInOrder (coin : Coin) : RatesInOrder coin where
  exact_mono _ _ h := exactBorrowRateBps_mono _ h
  exact_supply u := exactSupplyRateBps_le u _
  mono _ _ h := calcBorrowRateBps_mono coin h
  supply _ := calcSupplyRateBps_mul_le _ _ _

section
variable {index rate window : ℕ}

theorem accrueIndex_of_room (h : IndexRoom index rate window) {elapsedMs : ℤ}
    (he : elapsedMs ≤ window) : ∃ x, accrueIndex index rate elapsedMs = some x := by
  unfold accrueIndex
  split
  · exact ⟨_, rfl⟩
  · have hle : index * rate * elapsedMs.toNat / (10000 * msPerYear) ≤
        index * rate * window / (10000 * msPerYear) :=
      Nat.div_le_div_right (Nat.mul_le_mul_left _ (by omega))
    exact ⟨_, if_pos ((Nat.add_le_add_left hle _).trans_lt h.room)⟩

theorem legible_lt (h : Legible ray index) : index < 2 ^ 128 := by
  rcases h with h | h | h
  · rw [Nat.cast_inj.1 h]
    decide
  · rw [Nat.cast_eq_zero.1 h]
    decide
  · exact_mod_cast h.2.1

/-- An index that has grown to the end had room for it. -/
theorem indexRoom_of_accrueIndex (hl : Legible ray index) (hr : ray ≤ index) {x : ℕ}
    (h : accrueIndex index rate window = some x) : IndexRoom index rate window := by
  refine ⟨hl, hr, ?_⟩
  unfold accrueIndex at h
  split at h
  · rename_i hz
    have h0 : rate * window = 0 := by
      rcases hz with hz | rfl
      · rw [Int.natCast_nonpos_iff.1 hz, Nat.mul_zero]
      · exact Nat.zero_mul _
    rw [Nat.mul_assoc, h0, Nat.mul_zero, Nat.zero_div, Nat.add_zero]
    exact legible_lt hl
  · unfold toU128 at h
    split at h
    · rename_i hlt
      exact hlt
    · cases h

/-- Read back as no less than what is stored. -/
theorem legible_of_le (hr : ray ≤ index) (h : index ≤ readU128 ray index) : Legible ray index := by
  by_cases hb : ReadsBack index
  · exact .inr hb
  · rw [readU128_of_not_readsBack ray hb] at h
    exact .inl (congrArg _ (le_antisymm h hr))

end

section
variable {coin : Coin} {r : Reserve} {available window : ℕ} {elapsedMs : ℤ}

theorem Reserve.scaledToAmount_debt (hb : Legible ray r.borrowIndex)
    (hp : r.realDebt * 10000 < 2 ^ 128) :
    scaledToAmount (readU128 0 r.totalScaledDebt) (readU128 ray r.borrowIndex) =
      some r.realDebt := by
  rw [readU128_nat_eq_iff.2 hb]
  exact if_pos (show r.realDebt < 2 ^ 128 by omega)

theorem AccrualRoom.accruesWell (h : AccrualRoom coin r available window)
    (he : elapsedMs ≤ window) : AccruesWell coin r available elapsedMs := by
  have hd := Reserve.scaledToAmount_debt h.borrow.legible h.product
  obtain ⟨bi, hb⟩ := accrueIndex_of_room h.borrow he
  obtain ⟨li, hl⟩ := accrueIndex_of_room h.liquidity he
  have hg : grow (lendMarket coin) ⟨r.liquidityIndex, r.borrowIndex⟩ r.realDebt available
      elapsedMs = some ⟨li, bi⟩ :=
    Option.bind_eq_some_iff.2 ⟨bi, hb, Option.map_eq_some_iff.2 ⟨li, hl, rfl⟩⟩
  have hidx : r.accrued coin available elapsedMs = some ⟨li, bi⟩ := by
    refine Option.bind_eq_some_iff.2 ⟨_, hd, ?_⟩
    rw [readU128_nat_eq_iff.2 h.borrow.legible, readU128_nat_eq_iff.2 h.liquidity.legible]
    exact hg
  obtain ⟨hlm, hbm⟩ := grow_mono hg
  exact .mk hd h.product (calcUtilizationBps_le _ _) hidx ⟨h.liquidity.ray_le, hlm⟩
    ⟨h.borrow.ray_le, hbm⟩ (grow_behind hg h.borrow.ray_le)

/-- Without time passed the indexes are those read. -/
theorem AccruesWell.legible (h : AccruesWell coin r available 0) :
    Legible ray r.liquidityIndex ∧ Legible ray r.borrowIndex := by
  cases h with
  | mk hd hproduct hutil hidx hliquidity hborrow hbehind =>
    obtain ⟨realDebt, _, hg⟩ := Option.bind_eq_some_iff.1 hidx
    obtain ⟨hb, hl⟩ := grow_eq_some hg
    have hb := Option.some.inj ((if_pos (.inl le_rfl)).symm.trans hb)
    have hl := Option.some.inj ((if_pos (.inl le_rfl)).symm.trans hl)
    rw [← hl] at hliquidity
    rw [← hb] at hborrow
    exact ⟨legible_of_le hliquidity.1 hliquidity.2, legible_of_le hborrow.1 hborrow.2⟩

/-- Whatever time passes, up to some, the accrual is as intended if and only if there is room
for that time. -/
theorem accrues_iff_room (coin : Coin) (r : Reserve) (available window : ℕ) :
    (RatesInOrder coin ∧ ∀ elapsedMs : ℤ, elapsedMs ≤ window →
      AccruesWell coin r available elapsedMs) ↔ AccrualRoom coin r available window := by
  constructor
  · rintro ⟨-, h⟩
    obtain ⟨hli, hbi⟩ := (h 0 (Int.natCast_nonneg _)).legible
    cases h window le_rfl with
    | @mk realDebt _ hd hproduct hutil hidx hliquidity hborrow hbehind =>
      obtain ⟨_, hd', hg⟩ := Option.bind_eq_some_iff.1 hidx
      obtain rfl := Option.some.inj (hd.symm.trans hd')
      rw [readU128_nat_eq_iff.2 hbi] at hd hg
      rw [readU128_nat_eq_iff.2 hli] at hg
      obtain rfl : realDebt = r.realDebt := toU128_eq_some hd
      obtain ⟨hb, hl⟩ := grow_eq_some hg
      exact ⟨hproduct, indexRoom_of_accrueIndex hli hliquidity.1 hl,
        indexRoom_of_accrueIndex hbi hborrow.1 hb⟩
  · exact fun h => ⟨ratesInOrder coin, fun _ he => h.accruesWell he⟩

/-- A debt that fits into its column and into `u128`, but whose product does not. -/
def bigDebt : Reserve := ⟨ray, ray, 10 ^ 35 + 1, 10 ^ 35 + 1, 0⟩

theorem bigDebt_overflows : bigDebt.fits = true ∧ bigDebt.totalScaledDebt < 2 ^ 128 ∧
    bigDebt.liquidityIndex = ray ∧ bigDebt.borrowIndex = ray ∧
    ¬ (RatesInOrder .btc ∧ ∀ elapsedMs : ℤ, elapsedMs ≤ (0 : ℕ) →
      AccruesWell .btc bigDebt 0 elapsedMs) := by
  refine ⟨by decide, by decide, rfl, rfl, fun h => ?_⟩
  cases h.2 0 le_rfl with
  | @mk realDebt _ hd hproduct hutil hidx hliquidity hborrow hbehind =>
    have hd' : scaledToAmount (readU128 0 bigDebt.totalScaledDebt)
        (readU128 ray bigDebt.borrowIndex) = some (10 ^ 35 + 1) := by decide +kernel
    obtain rfl := Option.some.inj (hd.symm.trans hd')
    exact absurd hproduct (by decide)

end

end SatsPay
