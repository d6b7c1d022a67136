import SatsPay.LendLiquidity

/-!
# Health after a loan and after a withdrawal

Both operations foresee what they do to the account: they add or subtract the USD value of the
amount that is moved. The position itself is rounded to scaled units, back to units of the coin,
to USD and to the part that counts, and what the forecast is off by is not allowed for.
-/

namespace SatsPay

open Interleave ReadCommitted

/-! ## The forecasts -/

section
variable (prices : PriceTable) (coin : Coin) (idx : ReserveState) (amount : ℕ) (r : Position)

def Position.borrowed : Position := (PositionUpdate.addDebt (amount * ray / idx.borrowIndex)).set r

def Position.withdrawn : Position :=
  (PositionUpdate.setSupply (r.open.scaledSupply - amount * ray / idx.liquidityIndex)).set r

/-- What the debt grows by beyond the value of the amount. -/
def borrowError : ℤ :=
  ((r.borrowed idx amount).open.debtUsd prices coin idx - r.open.debtUsd prices coin idx : ℤ) -
    valueUsd prices coin amount

/-- What a payout is foreseen to take from the collateral. -/
def removedUsd : ℕ :=
  if r.open.Counts coin then wrap128 (valueUsd prices coin amount * thresholdBps coin) / 10000 else 0

/-- What is left of the collateral beyond that. -/
def withdrawError : ℤ :=
  ((r.withdrawn idx amount).open.partUsd prices coin idx (thresholdBps coin) -
    r.open.partUsd prices coin idx (thresholdBps coin) : ℤ) + removedUsd prices coin amount r

end

/-- After a loan the borrow power covers the debts, and after a withdrawal the collateral does. -/
def LendOp.Healthy (prices : PriceTable) (idx : ReserveState) (db' : Db lendExt) : LendOp → Prop
  | .borrow userId coin _ _ => ∃ b, db'.liquidity userId [(coin, idx)] prices = some b ∧
    b.debtUsd ≤ b.borrowPowerUsd
  | .withdraw userId coin _ _ => ∃ b, db'.liquidity userId [(coin, idx)] prices = some b ∧
    (0 < b.debtUsd → b.debtUsd ≤ b.liquidationCollateralUsd)
  | _ => True

/-- What was foreseen, with what it is off by, stays within the bound; and the new debt is a
`u128`. -/
def LendOp.Foreseen (prices : PriceTable) (idx : ReserveState) (db : Db lendExt) : LendOp → Prop
  | .borrow userId coin amount _ =>
    ((db.position userId coin).borrowed idx amount).open.Converts coin idx ∧
    ∀ a, db.liquidity userId [(coin, idx)] prices = some a →
      ((a.debtUsd + valueUsd prices coin amount : ℕ) +
        borrowError prices coin idx amount (db.position userId coin)) % 2 ^ 128 ≤
          (a.borrowPowerUsd : ℤ)
  | .withdraw userId coin amount _ =>
    ∀ a, db.liquidity userId [(coin, idx)] prices = some a → 0 < a.debtUsd →
      (a.debtUsd : ℤ) ≤ (a.liquidationCollateralUsd -
        removedUsd prices coin (db.payout userId coin amount idx) (db.position userId coin) +
        withdrawError prices coin idx (db.payout userId coin amount idx)
          (db.position userId coin)) % 2 ^ 128
  | _ => True

section
variable {db db' : Db lendExt} {userId : Uuid} {coin : Coin} {amount maxStale : ℕ}
variable {idx : ReserveState} {prices : PriceTable} {liquidity : AccountLiquidity}

theorem amountToScaled_eq_div {amount index scaled : ℕ}
    (h : amountToScaled amount index = some scaled) : scaled = amount * ray / index := by
  rcases Nat.eq_zero_or_pos index with rfl | hi
  · rw [Nat.div_zero]
    exact (Option.some.inj h).symm
  · exact amountToScaled_eq hi h

theorem Borrowed.priced (h : Borrowed userId coin amount idx prices liquidity db db') :
    Priced db prices := by
  cases h; assumption

theorem Withdrawn.priced (h : Withdrawn userId coin amount idx prices liquidity db db') :
    Priced db prices := by
  cases h; assumption

theorem Borrowed.indexes (h : Borrowed userId coin amount idx prices liquidity db db') :
    db'.indexes coin = some idx := by
  cases h with
  | mk ha _ _ _ _ _ _ hm _ =>
    rw [indexes_updated fun _ => rfl, Db.withPosition_indexes, Db.indexes_of_ext hm.ext_eq, ha.indexes]

/-- What a loan does to the positions. -/
theorem Borrowed.effect (h : Borrowed userId coin amount idx prices liquidity db db') :
    ApartFrom coin db db' ∧
      db'.position userId coin = (db.position userId coin).borrowed idx amount ∧
      db.liquidity userId [(coin, idx)] prices = some liquidity := by
  cases h with
  | @mk v₁ v₂ walletId poolId scaled ha hw hp hav hprices hliquidity hpower hm hs =>
    obtain rfl := amountToScaled_eq_div hs
    refine ⟨?_, ?_, ?_⟩
    · exact (((ha.apartFrom.trans hm.apartFrom).trans apartFrom_withPosition).trans
        (apartFrom_write (.updatePosition coin userId _))).trans
          (apartFrom_write (.updateReserve coin _))
    · rw [position_updated (lookup_withPosition _ _ _), Db.position_of_ext hm.ext_eq, ha.position]
      rfl
    · rw [← hliquidity]
      exact (ha.apartFrom.liquidity (ha.position coin)).symm

theorem Withdrawn.indexes (h : Withdrawn userId coin amount idx prices liquidity db db') :
    db'.indexes coin = some idx := by
  cases h with
  | mk ha _ _ _ _ _ _ _ _ _ hm _ =>
    rw [indexes_updated fun _ => rfl, Db.indexes_of_ext hm.ext_eq, Db.withPosition_indexes, ha.indexes]

theorem Withdrawn.effect (h : Withdrawn userId coin amount idx prices liquidity db db') :
    ApartFrom coin db db' ∧
      db'.position userId coin =
        (db.position userId coin).withdrawn idx (db.payout userId coin amount idx) ∧
      db.liquidity userId [(coin, idx)] prices = some liquidity ∧
      safeWithdraw coin (db.position userId coin).open liquidity prices
        (db.payout userId coin amount idx) := by
  cases h with
  | @mk v₁ v₂ walletId poolId real scaled r ha hw hp hr hsupply hreal hav hprices hliquidity hsafe hm
      hs =>
    obtain rfl := amountToScaled_eq_div hs
    have hpos := position_accrual ha hr
    have hpay : db.payout userId coin amount idx = min amount real :=
      congrArg (min amount) (by rw [hpos, ← toU128_eq_some hreal])
    have hr' : (v₂.ext.books coin).positions.lookup userId = some r := by
      rw [hm.ext_eq]
      exact hr
    rw [hpay, hpos]
    refine ⟨?_, ?_, ?_, hsafe⟩
    · exact (((ha.apartFrom.trans apartFrom_withPosition).trans hm.apartFrom).trans
        (apartFrom_write (.updatePosition coin userId _))).trans
          (apartFrom_write (.updateReserve coin _))
    · rw [position_updated hr']
      rfl
    · rw [← hliquidity]
      exact ((ha.apartFrom.trans apartFrom_withPosition).liquidity
        (Db.withPosition_position.trans (ha.position coin))).symm

theorem borrowed_open (r : Position) : (r.borrowed idx amount).open =
    ⟨readU128 0 r.scaledSupply, readU128 0 (r.scaledDebt + amount * ray / idx.borrowIndex : ℕ),
      r.useAsCollateral⟩ := by
  unfold Position.borrowed
  generalize amount * ray / idx.borrowIndex = n
  cases r
  simp only [Position.open, PositionUpdate.set]

theorem withdrawn_open (r : Position) : (r.withdrawn idx amount).open =
    ⟨readU128 0 (r.open.scaledSupply - amount * ray / idx.liquidityIndex : ℕ),
      readU128 0 r.scaledDebt, r.useAsCollateral⟩ := by
  unfold Position.withdrawn
  generalize r.open.scaledSupply - amount * ray / idx.liquidityIndex = n
  cases r
  simp only [Position.open, PositionUpdate.set]

theorem open_eq (r : Position) :
    r.open = ⟨readU128 0 r.scaledSupply, readU128 0 r.scaledDebt, r.useAsCollateral⟩ := rfl

/-- A loan leaves the supply. -/
theorem borrowed_partUsd (r : Position) (bps : ℕ) :
    (r.borrowed idx amount).open.partUsd prices coin idx bps = r.open.partUsd prices coin idx bps := by
  rw [borrowed_open, open_eq]
  exact partUsd_congr rfl rfl

theorem withdrawn_debtUsd (r : Position) :
    (r.withdrawn idx amount).open.debtUsd prices coin idx = r.open.debtUsd prices coin idx := by
  rw [withdrawn_open, open_eq]
  exact debtUsd_congr rfl

theorem Borrowed.healthy_iff (h : Borrowed userId coin amount idx prices liquidity db db') :
    (LendOp.borrow userId coin amount maxStale).Healthy prices idx db' ↔
      (LendOp.borrow userId coin amount maxStale).Foreseen prices idx db := by
  obtain ⟨hapart, hposition, hliquidity⟩ := h.effect
  have hconv (b : AccountLiquidity) (hb : db'.liquidity userId [(coin, idx)] prices = some b) :
      ((db.position userId coin).borrowed idx amount).open.Converts coin idx := by
    have := ((liquidity_eq_some _ _ _ _).1 hb).1 coin
    rwa [indexesFor_self, hposition] at this
  have hsum (b : AccountLiquidity)
      (hc : ((db.position userId coin).borrowed idx amount).open.Converts coin idx)
      (hb : db'.liquidity userId [(coin, idx)] prices = some b) :
      b.borrowPowerUsd = liquidity.borrowPowerUsd ∧
        (b.debtUsd : ℤ) = ((liquidity.debtUsd + valueUsd prices coin amount : ℕ) +
          borrowError prices coin idx amount (db.position userId coin)) % 2 ^ 128 := by
    obtain ⟨b', hb', -, hpower, hdebt⟩ := hapart.liquidity_eq hliquidity (by rwa [hposition])
    obtain rfl := Option.some.inj (hb.symm.trans hb')
    rw [hposition, borrowed_partUsd, sub_self, add_zero] at hpower
    rw [hposition] at hdebt
    have hlt := ((liquidity_eq_some _ _ _ _).1 hliquidity).2
    have hlt : liquidity.borrowPowerUsd < 2 ^ 128 := by
      rw [hlt]
      exact wrap128_lt _
    refine ⟨by omega, hdebt.trans ?_⟩
    unfold borrowError
    congr 1
    push_cast
    ring
  constructor
  · rintro ⟨b, hb, hle⟩
    refine ⟨hconv b hb, fun a ha => ?_⟩
    obtain rfl := Option.some.inj (hliquidity.symm.trans ha)
    obtain ⟨hpower, hdebt⟩ := hsum b (hconv b hb) hb
    rw [← hdebt, ← hpower]
    exact_mod_cast hle
  · rintro ⟨hc, hle⟩
    obtain ⟨b, hb, -⟩ := hapart.liquidity_eq hliquidity (by rwa [hposition])
    obtain ⟨hpower, hdebt⟩ := hsum b hc hb
    have := hle _ hliquidity
    rw [← hdebt, ← hpower] at this
    exact ⟨b, hb, by exact_mod_cast this⟩

/-- A payout leaves no more than there was. -/
theorem withdrawn_converts {r : Position} (h : r.open.Converts coin idx) :
    (r.withdrawn idx amount).open.Converts coin idx := by
  rw [withdrawn_open]
  refine ⟨fun hc => ?_, by rw [open_eq] at h; exact h.debt⟩
  have hc : r.open.Counts coin := (OpenPosition.counts_congr (by rw [open_eq])).1 hc
  have hs : readU128 0 (r.open.scaledSupply - amount * ray / idx.liquidityIndex : ℕ) ≤
      r.open.scaledSupply := (readU128_zero_le _).trans (Nat.sub_le _ _)
  exact (Nat.div_le_div_right (Nat.mul_le_mul_right _ hs)).trans_lt (h.supply hc)

theorem Withdrawn.healthy_iff (h : Withdrawn userId coin amount idx prices liquidity db db') :
    (LendOp.withdraw userId coin amount maxStale).Healthy prices idx db' ↔
      (LendOp.withdraw userId coin amount maxStale).Foreseen prices idx db := by
  obtain ⟨hapart, hposition, hliquidity, -⟩ := h.effect
  obtain ⟨hconverts, hsums⟩ := (liquidity_eq_some _ _ _ _).1 hliquidity
  have hconv : (db'.position userId coin).open.Converts coin idx := by
    rw [hposition]
    have := hconverts coin
    rw [indexesFor_self] at this
    exact withdrawn_converts this
  obtain ⟨b, hb, hcoll, -, hdebt⟩ := hapart.liquidity_eq hliquidity hconv
  rw [hposition, withdrawn_debtUsd, sub_self, add_zero] at hdebt
  rw [hposition] at hcoll
  have hlt : liquidity.debtUsd < 2 ^ 128 := by
    rw [hsums]
    exact wrap128_lt _
  have hsame : b.debtUsd = liquidity.debtUsd := by omega
  have hcoll' : (b.liquidationCollateralUsd : ℤ) = (liquidity.liquidationCollateralUsd -
      removedUsd prices coin (db.payout userId coin amount idx) (db.position userId coin) +
      withdrawError prices coin idx (db.payout userId coin amount idx)
        (db.position userId coin)) % 2 ^ 128 := by
    refine hcoll.trans ?_
    unfold withdrawError
    congr 1
    ring
  constructor
  · rintro ⟨b', hb', hle⟩ a ha hpos
    obtain rfl := Option.some.inj (hb.symm.trans hb')
    obtain rfl := Option.some.inj (hliquidity.symm.trans ha)
    rw [← hcoll', ← hsame]
    exact_mod_cast hle (hsame ▸ hpos)
  · intro hle
    refine ⟨b, hb, fun hpos => ?_⟩
    have := hle _ hliquidity (hsame ▸ hpos)
    rw [← hcoll', ← hsame] at this
    exact_mod_cast this

theorem Db.payout_le (v : Db lendExt) (userId : Uuid) (coin : Coin) (amount : ℕ) (idx : ReserveState) :
    v.payout userId coin amount idx ≤
      (v.position userId coin).open.scaledSupply * idx.liquidityIndex / ray := min_le_right _ _

end

/-! ## How far the forecasts are off -/

/-- What `(a + b - lost) / unit` is beyond `a / unit + b / unit`. -/
def carry (unit a b : ℕ) (lost : ℤ) : ℤ := ((a % unit + b % unit : ℕ) - lost) / unit

theorem div_eq_add_carry {unit a b c : ℕ} {lost : ℤ} (hu : 0 < unit)
    (h : (c : ℤ) = a + b - lost) : (c / unit : ℕ) = (a / unit : ℕ) + (b / unit : ℕ) + carry unit a b lost := by
  have ha : (a : ℤ) = unit * (a / unit : ℕ) + (a % unit : ℕ) := by exact_mod_cast (Nat.div_add_mod a unit).symm
  have hb : (b : ℤ) = unit * (b / unit : ℕ) + (b % unit : ℕ) := by exact_mod_cast (Nat.div_add_mod b unit).symm
  have hc : (c : ℤ) = ((a % unit + b % unit : ℕ) - lost) +
      unit * ((a / unit : ℕ) + (b / unit : ℕ)) := by
    rw [h]
    push_cast at ha hb ⊢
    linarith
  rw [Int.natCast_ediv, hc, Int.add_mul_ediv_left _ _ (by omega), Int.add_comm]
  rfl

theorem carry_le_one {unit a b : ℕ} {lost : ℤ} (hu : 0 < unit) (h : 0 ≤ lost) :
    carry unit a b lost ≤ 1 := by
  have := Nat.mod_lt a hu
  have := Nat.mod_lt b hu
  refine Int.lt_add_one_iff.1 (Int.ediv_lt_of_lt_mul (by omega) ?_)
  omega

section
variable (prices : PriceTable) (coin : Coin) (idx : ReserveState) (amount : ℕ) (r : Position)

/-- The units of a loan that the debt does not grow by, as it is rounded to scaled units. -/
def Position.unitsLost : ℤ :=
  -(((r.scaledDebt * idx.borrowIndex % ray : ℕ) - (amount * ray % idx.borrowIndex : ℕ)) / ray)

/-- The units of a payout that the supply does not fall by. -/
def Position.unitsKept : ℕ :=
  (r.scaledSupply * idx.liquidityIndex % ray + amount * ray % idx.liquidityIndex) / ray

def Position.unitsLeft : ℕ :=
  r.scaledSupply * idx.liquidityIndex / ray + r.unitsKept idx amount - amount

def debtCarry : ℤ :=
  carry (10 ^ 8) (r.scaledDebt * idx.borrowIndex / ray * (prices coin).1) (amount * (prices coin).1)
    (r.unitsLost idx amount * (prices coin).1)

def removedWorth : ℕ :=
  if r.open.Counts coin then worth prices coin amount * thresholdBps coin / 10000 else 0

def supplyCarry : ℤ :=
  carry (10 ^ 8) (r.unitsLeft idx amount * (prices coin).1) (amount * (prices coin).1)
    (r.unitsKept idx amount * (prices coin).1)

def removedCarry : ℤ :=
  if r.open.Counts coin then
    carry 10000 (worth prices coin (r.unitsLeft idx amount) * thresholdBps coin)
      (worth prices coin amount * thresholdBps coin)
      (-(supplyCarry prices coin idx amount r * thresholdBps coin))
  else 0

end

/-- The numbers of the account can be read, and so can the one that the operation will write. -/
def LendOp.Readable (prices : PriceTable) (idx : ReserveState) (db : Db lendExt) : LendOp → Prop
  | .borrow userId coin amount _ => db.Readable userId [(coin, idx)] prices ∧
    Legible 0 ((db.position userId coin).scaledDebt + amount * ray / idx.borrowIndex : ℕ) ∧
    ((db.position userId coin).scaledDebt + amount * ray / idx.borrowIndex) * idx.borrowIndex / ray <
      2 ^ 128 ∧
    db.debtWorth userId [(coin, idx)] prices + worth prices coin amount + 1 < 2 ^ 128
  | .withdraw userId coin amount _ => db.Readable userId [(coin, idx)] prices ∧
    Legible 0 ((db.position userId coin).scaledSupply -
      db.payout userId coin amount idx * ray / idx.liquidityIndex : ℕ)
  | _ => True

/-- What is foreseen leaves room for what the forecast misses. -/
def LendOp.Spared (prices : PriceTable) (idx : ReserveState) (db : Db lendExt) : LendOp → Prop
  | .borrow userId coin amount _ =>
    db.debtWorth userId [(coin, idx)] prices + worth prices coin amount +
        debtCarry prices coin idx amount (db.position userId coin) ≤
      (db.collateralWorth userId [(coin, idx)] prices factorBps : ℤ)
  | .withdraw userId coin amount _ => 0 < db.debtWorth userId [(coin, idx)] prices →
    db.debtWorth userId [(coin, idx)] prices +
        removedWorth prices coin (db.payout userId coin amount idx) (db.position userId coin) +
        removedCarry prices coin idx (db.payout userId coin amount idx) (db.position userId coin) ≤
      (db.collateralWorth userId [(coin, idx)] prices thresholdBps : ℤ)
  | _ => True

section
variable {prices : PriceTable} {coin : Coin} {idx : ReserveState} {amount : ℕ} {r : Position}

theorem unitsLost_nonneg : 0 ≤ r.unitsLost idx amount := by
  have := Nat.mod_lt (r.scaledDebt * idx.borrowIndex) (show 0 < ray by decide)
  have hlt : (((r.scaledDebt * idx.borrowIndex % ray : ℕ) : ℤ) -
      (amount * ray % idx.borrowIndex : ℕ)) / ray < 1 :=
    Int.ediv_lt_of_lt_mul (by decide) (by omega)
  unfold Position.unitsLost
  omega

/-- The forecast of a loan misses one unit at most. -/
theorem debtCarry_le_one : debtCarry prices coin idx amount r ≤ 1 :=
  carry_le_one (by decide) (mul_nonneg unitsLost_nonneg (Int.natCast_nonneg _))

/-- The forecast of a payout misses two units at most. -/
theorem removedCarry_le_two : removedCarry prices coin idx amount r ≤ 2 := by
  unfold removedCarry
  split
  · have hone : supplyCarry prices coin idx amount r ≤ 1 :=
      carry_le_one (by decide) (by positivity)
    have hbps := thresholdBps_le coin
    have hmul : supplyCarry prices coin idx amount r * thresholdBps coin ≤ 1 * thresholdBps coin :=
      mul_le_mul_of_nonneg_right hone (Int.natCast_nonneg _)
    refine Int.lt_add_one_iff.1 (Int.ediv_lt_of_lt_mul (by decide) ?_)
    have := Nat.mod_lt (worth prices coin (r.unitsLeft idx amount) * thresholdBps coin)
      (show 0 < 10000 by decide)
    have := Nat.mod_lt (worth prices coin amount * thresholdBps coin) (show 0 < 10000 by decide)
    omega
  · decide

/-- The units of the debt after a loan. -/
theorem borrowed_units : (((r.scaledDebt + amount * ray / idx.borrowIndex) * idx.borrowIndex / ray : ℕ) : ℤ) =
    (r.scaledDebt * idx.borrowIndex / ray : ℕ) + amount - r.unitsLost idx amount := by
  have hq := Nat.div_add_mod' (amount * ray) idx.borrowIndex
  have hs := Nat.div_add_mod (r.scaledDebt * idx.borrowIndex) ray
  have hsum : (((r.scaledDebt + amount * ray / idx.borrowIndex) * idx.borrowIndex : ℕ) : ℤ) =
      ((r.scaledDebt * idx.borrowIndex % ray : ℕ) - (amount * ray % idx.borrowIndex : ℕ)) +
        ray * ((r.scaledDebt * idx.borrowIndex / ray : ℕ) + amount) := by
    rw [Nat.add_mul]
    zify at hq hs ⊢
    linarith
  rw [Int.natCast_ediv, hsum, Int.add_mul_ediv_left _ _ (by decide)]
  unfold Position.unitsLost
  ring

/-- The units of the supply after a payout. -/
theorem withdrawn_units (hout : amount ≤ r.scaledSupply * idx.liquidityIndex / ray) :
    (r.scaledSupply - amount * ray / idx.liquidityIndex) * idx.liquidityIndex / ray =
      r.unitsLeft idx amount := by
  have hq := Nat.div_add_mod' (amount * ray) idx.liquidityIndex
  have hs := Nat.div_add_mod (r.scaledSupply * idx.liquidityIndex) ray
  have hle : amount * ray ≤ ray * (r.scaledSupply * idx.liquidityIndex / ray) := by
    rw [Nat.mul_comm ray]
    exact Nat.mul_le_mul_right _ hout
  obtain ⟨left, hleft⟩ := Nat.exists_eq_add_of_le hout
  have hsub : (r.scaledSupply - amount * ray / idx.liquidityIndex) * idx.liquidityIndex =
      (r.scaledSupply * idx.liquidityIndex % ray + amount * ray % idx.liquidityIndex) +
        ray * left := by
    rw [hleft, Nat.mul_add] at hs
    rw [Nat.mul_comm amount ray] at hq ⊢
    rw [Nat.sub_mul]
    omega
  rw [hsub, Nat.add_mul_div_left _ _ (show 0 < ray by decide)]
  unfold Position.unitsLeft
  rw [hleft]
  change r.unitsKept idx amount + left = amount + left + r.unitsKept idx amount - amount
  omega

theorem borrowed_worth :
    (worth prices coin ((r.scaledDebt + amount * ray / idx.borrowIndex) * idx.borrowIndex / ray) : ℤ) =
      worth prices coin (r.scaledDebt * idx.borrowIndex / ray) + worth prices coin amount +
        debtCarry prices coin idx amount r :=
  div_eq_add_carry (by decide) (by
    push_cast [@borrowed_units idx amount r]
    ring)

theorem withdrawn_worth (hout : amount ≤ r.scaledSupply * idx.liquidityIndex / ray) :
    (worth prices coin (r.scaledSupply * idx.liquidityIndex / ray) : ℤ) =
      worth prices coin (r.unitsLeft idx amount) + worth prices coin amount +
        supplyCarry prices coin idx amount r := by
  have hunits : ((r.scaledSupply * idx.liquidityIndex / ray : ℕ) : ℤ) =
      r.unitsLeft idx amount + amount - r.unitsKept idx amount := by
    unfold Position.unitsLeft
    omega
  refine div_eq_add_carry (by decide) ?_
  rw [Nat.cast_mul, hunits]
  push_cast
  ring

/-- What a payout takes from the part of the supply that counts. -/
theorem withdrawn_counted (hc : r.open.Counts coin)
    (hout : amount ≤ r.scaledSupply * idx.liquidityIndex / ray) :
    ((worth prices coin (r.scaledSupply * idx.liquidityIndex / ray) * thresholdBps coin / 10000 : ℕ) : ℤ) =
      (worth prices coin (r.unitsLeft idx amount) * thresholdBps coin / 10000 : ℕ) +
        removedWorth prices coin amount r + removedCarry prices coin idx amount r := by
  unfold removedWorth removedCarry
  rw [if_pos hc, if_pos hc]
  refine div_eq_add_carry (by decide) ?_
  rw [Nat.cast_mul, withdrawn_worth hout]
  push_cast
  ring

end

section
variable {db db' : Db lendExt} {userId : Uuid} {coin : Coin} {amount maxStale : ℕ}
variable {idx : ReserveState} {prices : PriceTable} {liquidity : AccountLiquidity}

theorem Db.Readable.debtUsd_self (h : db.Readable userId [(coin, idx)] prices) :
    (db.position userId coin).open.debtUsd prices coin idx =
      worth prices coin ((db.position userId coin).scaledDebt * idx.borrowIndex / ray) := by
  have := h.debtUsd coin
  rwa [indexesFor_self, ← h.indexesFor, indexesFor_self] at this

/-- The supply of a position stays convertible with another debt. -/
theorem converts_withDebt (hl : db.liquidity userId [(coin, idx)] prices = some liquidity) {n : ℕ}
    (hn : n * idx.borrowIndex / ray < 2 ^ 128) :
    (⟨readU128 0 (db.position userId coin).scaledSupply, n,
      (db.position userId coin).useAsCollateral⟩ : OpenPosition).Converts coin idx := by
  have hc := ((liquidity_eq_some _ _ _ _).1 hl).1 coin
  rw [indexesFor_self, open_eq] at hc
  have hsupply := hc.supply
  simp only [OpenPosition.Counts] at hsupply
  exact ⟨by simpa only [OpenPosition.Counts] using hsupply, hn⟩

theorem foreseen_borrow_iff (hl : db.liquidity userId [(coin, idx)] prices = some liquidity)
    (hr : (LendOp.borrow userId coin amount maxStale).Readable prices idx db) :
    (LendOp.borrow userId coin amount maxStale).Foreseen prices idx db ↔
      (LendOp.borrow userId coin amount maxStale).Spared prices idx db := by
  obtain ⟨hread, hnew, hunits, hroom⟩ := hr
  have hamount : worth prices coin amount < 2 ^ 128 := by omega
  have hold : worth prices coin ((db.position userId coin).scaledDebt * idx.borrowIndex / ray) ≤
      db.debtWorth userId [(coin, idx)] prices := by
    rw [← hread.debtUsd_self, ← hread.debtsUsd]
    have := db.debtUsd_le userId [(coin, idx)] prices coin
    rwa [indexesFor_self] at this
  have hdebt := @borrowed_worth prices coin idx amount (db.position userId coin)
  have hcarry := @debtCarry_le_one prices coin idx amount (db.position userId coin)
  have hlt : worth prices coin (((db.position userId coin).scaledDebt + amount * ray / idx.borrowIndex) *
      idx.borrowIndex / ray) < 2 ^ 128 := by omega
  have hconv : ((db.position userId coin).borrowed idx amount).open.Converts coin idx := by
    rw [borrowed_open, readU128_nat_eq_iff.2 hnew]
    exact converts_withDebt hl hunits
  have herror : borrowError prices coin idx amount (db.position userId coin) =
      debtCarry prices coin idx amount (db.position userId coin) := by
    unfold borrowError
    rw [hread.debtUsd_self, borrowed_open]
    unfold OpenPosition.debtUsd
    rw [readU128_nat_eq_iff.2 hnew, valueUsd_eq_worth hlt, valueUsd_eq_worth hamount]
    omega
  have hmod : ((db.debtWorth userId [(coin, idx)] prices + worth prices coin amount : ℕ) +
      debtCarry prices coin idx amount (db.position userId coin)) % 2 ^ 128 =
        db.debtWorth userId [(coin, idx)] prices + worth prices coin amount +
          debtCarry prices coin idx amount (db.position userId coin) := by
    rw [Int.emod_eq_of_lt] <;> push_cast <;> omega
  simp only [LendOp.Foreseen, LendOp.Spared, herror, valueUsd_eq_worth hamount]
  constructor
  · intro h
    have := h.2 _ hl
    rw [hread.liquidity hl] at this
    rwa [hmod] at this
  · refine fun h => ⟨hconv, fun a ha => ?_⟩
    rw [hread.liquidity ha, hmod]
    exact h

theorem Db.Readable.partUsd_self (h : db.Readable userId [(coin, idx)] prices)
    (hc : (db.position userId coin).open.Counts coin) :
    (db.position userId coin).open.partUsd prices coin idx (thresholdBps coin) =
      worth prices coin ((db.position userId coin).scaledSupply * idx.liquidityIndex / ray) *
        thresholdBps coin / 10000 ∧
    worth prices coin ((db.position userId coin).scaledSupply * idx.liquidityIndex / ray) * 10000 <
      2 ^ 128 := by
  have hpart := h.partUsd coin (thresholdBps_le coin)
  have hsum := (Nat.mul_le_mul_right 10000 (le_sumCoins (db.supplyWorth userId [(coin, idx)] prices)
    coin)).trans_lt h.collateral
  unfold Db.supplyWorth at hpart hsum
  rw [if_pos hc, ← h.indexesFor, indexesFor_self] at hpart hsum
  exact ⟨hpart, hsum⟩

theorem worth_mono {m n : ℕ} (h : m ≤ n) : worth prices coin m ≤ worth prices coin n :=
  Nat.div_le_div_right (Nat.mul_le_mul_right _ h)

/-- What is left of the part that counts, and what was foreseen of it. -/
theorem withdrawn_partUsd (h : db.Readable userId [(coin, idx)] prices)
    (hnew : Legible 0 ((db.position userId coin).scaledSupply - amount * ray / idx.liquidityIndex : ℕ))
    (hout : amount ≤ (db.position userId coin).scaledSupply * idx.liquidityIndex / ray) :
    removedUsd prices coin amount (db.position userId coin) =
        removedWorth prices coin amount (db.position userId coin) ∧
      (((db.position userId coin).withdrawn idx amount).open.partUsd prices coin idx
          (thresholdBps coin) : ℤ) =
        (db.position userId coin).open.partUsd prices coin idx (thresholdBps coin) -
          removedWorth prices coin amount (db.position userId coin) -
          removedCarry prices coin idx amount (db.position userId coin) ∧
      ((db.position userId coin).withdrawn idx amount).open.partUsd prices coin idx
          (thresholdBps coin) ≤
        (db.position userId coin).open.partUsd prices coin idx (thresholdBps coin) := by
  have hread : (db.position userId coin).open.scaledSupply = (db.position userId coin).scaledSupply :=
    readU128_nat_eq_iff.2 (h.supply coin)
  have hcounts : ((db.position userId coin).withdrawn idx amount).open.Counts coin ↔
      (db.position userId coin).open.Counts coin := by
    rw [withdrawn_open, open_eq]
    exact OpenPosition.counts_congr rfl
  by_cases hc : (db.position userId coin).open.Counts coin
  · obtain ⟨hpart, hlt⟩ := h.partUsd_self hc
    have hbps := thresholdBps_le coin
    have hsmall {n : ℕ} (hn : n ≤ (db.position userId coin).scaledSupply * idx.liquidityIndex / ray) :
        valueUsd prices coin n = worth prices coin n ∧
          wrap128 (worth prices coin n * thresholdBps coin) = worth prices coin n * thresholdBps coin := by
      have hle : worth prices coin n ≤ _ := worth_mono hn
      have hmul := (Nat.mul_le_mul hle hbps).trans_lt hlt
      exact ⟨valueUsd_eq_worth (by omega), wrap128_of_lt hmul⟩
    have hleft : (db.position userId coin).unitsLeft idx amount ≤
        (db.position userId coin).scaledSupply * idx.liquidityIndex / ray := by
      rw [← withdrawn_units hout]
      exact Nat.div_le_div_right (Nat.mul_le_mul_right _ (Nat.sub_le _ _))
    have hcounted := @withdrawn_counted prices coin idx amount _ hc hout
    obtain ⟨hvo, hwo⟩ := hsmall hout
    obtain ⟨hvl, hwl⟩ := hsmall hleft
    have hremoved : removedUsd prices coin amount (db.position userId coin) =
        removedWorth prices coin amount (db.position userId coin) := by
      unfold removedUsd removedWorth
      rw [if_pos hc, if_pos hc, hvo, hwo]
    have hrest : ((db.position userId coin).withdrawn idx amount).open.partUsd prices coin idx
        (thresholdBps coin) =
          worth prices coin ((db.position userId coin).unitsLeft idx amount) * thresholdBps coin / 10000 := by
      unfold OpenPosition.partUsd
      rw [if_pos (hcounts.2 hc), withdrawn_open, hread]
      simp only
      rw [readU128_nat_eq_iff.2 hnew, withdrawn_units hout, hvl, hwl]
    rw [hrest, hpart]
    refine ⟨hremoved, by omega, ?_⟩
    exact Nat.div_le_div_right (Nat.mul_le_mul_right _ (worth_mono hleft))
  · unfold removedUsd removedWorth removedCarry OpenPosition.partUsd
    rw [if_neg hc, if_neg hc, if_neg hc, if_neg hc, if_neg (mt hcounts.1 hc)]
    exact ⟨rfl, rfl, le_rfl⟩

theorem foreseen_withdraw_iff (hl : db.liquidity userId [(coin, idx)] prices = some liquidity)
    (hr : (LendOp.withdraw userId coin amount maxStale).Readable prices idx db) :
    (LendOp.withdraw userId coin amount maxStale).Foreseen prices idx db ↔
      (LendOp.withdraw userId coin amount maxStale).Spared prices idx db := by
  obtain ⟨hread, hnew⟩ := hr
  have hout : db.payout userId coin amount idx ≤
      (db.position userId coin).scaledSupply * idx.liquidityIndex / ray := by
    have := db.payout_le userId coin amount idx
    rwa [show (db.position userId coin).open.scaledSupply = (db.position userId coin).scaledSupply from
      readU128_nat_eq_iff.2 (hread.supply coin)] at this
  obtain ⟨hremoved, hleft, hle⟩ := withdrawn_partUsd hread hnew hout
  have hpart : (db.position userId coin).open.partUsd prices coin idx (thresholdBps coin) ≤
      db.collateralWorth userId [(coin, idx)] prices thresholdBps := by
    rw [← hread.partsUsd thresholdBps_le]
    have := db.partUsd_le userId [(coin, idx)] prices thresholdBps coin
    rwa [indexesFor_self] at this
  have hcoll := hread.collateralWorth_lt thresholdBps_le
  -- what the forecast adds to what is left is what the payout takes beyond it
  have hmod : (db.collateralWorth userId [(coin, idx)] prices thresholdBps -
      removedUsd prices coin (db.payout userId coin amount idx) (db.position userId coin) +
      withdrawError prices coin idx (db.payout userId coin amount idx)
        (db.position userId coin)) % 2 ^ 128 =
      (db.collateralWorth userId [(coin, idx)] prices thresholdBps -
        removedWorth prices coin (db.payout userId coin amount idx) (db.position userId coin) -
        removedCarry prices coin idx (db.payout userId coin amount idx) (db.position userId coin) : ℤ) := by
    unfold withdrawError
    rw [hremoved, Int.emod_eq_of_lt] <;> omega
  simp only [LendOp.Foreseen, LendOp.Spared]
  constructor
  · intro h hpos
    have := h _ hl
    simp only [hread.liquidity hl, hmod] at this
    have := this hpos
    omega
  · intro h a ha hpos
    rw [hread.liquidity ha] at hpos ⊢
    rw [hmod]
    have := h hpos
    simp only
    omega

theorem iff_of_readable {a b r : Prop} (h : r → (a ↔ b)) : a ↔ (r → b) ∧ (¬ r → a) := by
  by_cases hr : r
  · exact ⟨fun ha => ⟨fun _ => (h hr).1 ha, fun hn => absurd hr hn⟩, fun hb => (h hr).2 (hb.1 hr)⟩
  · exact ⟨fun ha => ⟨fun hr' => absurd hr' hr, fun _ => ha⟩, fun hb => hb.2 hr⟩

end

/-! User 7 has supplied 998 units of LTC and owes one of BTC, which are worth one and a half. -/

def tight : Db lendExt where
  core := {
    now := 0
    wallets := ((((∅ : Table Wallet).insert 1 ⟨7, .btc, .personal, none⟩).insert 2
      ⟨9, .btc, .lendPool, none⟩).insert 3 ⟨7, .ltc, .personal, none⟩).insert 4
      ⟨9, .ltc, .lendPool, none⟩
    ledger := [⟨2, 1000, .adjustment, none, none, none, none⟩,
      ⟨4, 998, .lendSupply, none, none, none, none⟩]
    jobs := ∅
    outbox := []
    auditLogs := [] }
  ext := {
    books := fun coin => match coin with
      | .btc => ⟨some ⟨ray, ray, 1001, 1, 0⟩, (∅ : Table Position).insert 7 ⟨0, 1, true⟩⟩
      | .ltc => ⟨some ⟨ray, ray, 998, 0, 0⟩, (∅ : Table Position).insert 7 ⟨998, 0, true⟩⟩
      | _ => ⟨some (.fresh 0), ∅⟩
    prices := fun coin => some ⟨if coin = .btc then 150000000 else 100000000, 8, 0⟩
    house := some 9 }

def tightPrices : PriceTable := fun coin => (if coin = .btc then 150000000 else 100000000, 8)

theorem priced_tight : Priced tight tightPrices := by
  intro coin
  refine ⟨_, rfl, ?_, rfl⟩
  cases coin <;> rfl

instance (prices : PriceTable) (idx : ReserveState) (db : Db lendExt) (op : LendOp) :
    Decidable (op.Readable prices idx db) :=
  LendOp.casesOn (motive := fun o => Decidable (o.Readable prices idx db)) op
    (fun _ _ _ => inferInstanceAs (Decidable True))
    (fun _ _ _ _ => inferInstanceAs (Decidable (_ ∧ _)))
    (fun _ _ _ _ => inferInstanceAs (Decidable (_ ∧ _ ∧ _ ∧ _)))
    (fun _ _ _ => inferInstanceAs (Decidable True))
    fun _ _ _ _ _ _ _ => inferInstanceAs (Decidable True)

instance (prices : PriceTable) (idx : ReserveState) (db : Db lendExt) (op : LendOp) :
    Decidable (op.Spared prices idx db) :=
  LendOp.casesOn (motive := fun o => Decidable (o.Spared prices idx db)) op
    (fun _ _ _ => inferInstanceAs (Decidable True))
    (fun _ _ _ _ => inferInstanceAs (Decidable (_ → _)))
    (fun _ _ _ _ => inferInstanceAs (Decidable (_ ≤ _)))
    (fun _ _ _ => inferInstanceAs (Decidable True))
    fun _ _ _ _ _ _ _ => inferInstanceAs (Decidable True)

def sparesAt (op : LendOp) (db : Db lendExt) : Bool :=
  decide (op.Readable tightPrices ⟨ray, ray⟩ db ∧ op.Spared tightPrices ⟨ray, ray⟩ db) &&
    coins.all fun c => decide (db.ext.prices c = tight.ext.prices c)

theorem spared_of_sparesAt {op : LendOp} {db : Db lendExt} (h : sparesAt op db = true) :
    Priced db tightPrices ∧ op.Readable tightPrices ⟨ray, ray⟩ db ∧
      op.Spared tightPrices ⟨ray, ray⟩ db := by
  obtain ⟨hop, hprices⟩ := Bool.and_eq_true_iff.1 h
  obtain ⟨hread, hspared⟩ := of_decide_eq_true hop
  refine ⟨fun coin => ?_, hread, hspared⟩
  have hsame := of_decide_eq_true (List.all_eq_true.1 hprices coin (mem_coins coin))
  obtain ⟨r, hr, hp⟩ := priced_tight coin
  exact ⟨r, hsame.trans hr, hp⟩

def loanRun : Option (Db lendExt × Db lendExt) := do
  let db₁ ← (LendOp.borrow 7 .btc 400 1000000).solo 0 tight
  let db₂ ← (LendOp.withdraw 7 .ltc 100 1000000).solo 0 db₁
  pure (db₁, db₂)

end SatsPay
