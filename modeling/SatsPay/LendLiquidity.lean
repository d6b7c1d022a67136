import SatsPay.LendRepayment

/-!
# The liquidity of an account

What all positions of a user add up to, as the sums in `u128` of what is read of them, and as
the sums of what is stored. The two are the same where every number can be read.
-/

namespace SatsPay

open Interleave ReadCommitted

/-! ## What the positions add up to -/

def OpenPosition.Counts (r : OpenPosition) (coin : Coin) : Prop :=
  r.useAsCollateral ∧ (lendMarket coin).canBeCollateral

instance (r : OpenPosition) (coin : Coin) : Decidable (r.Counts coin) := by
  unfold OpenPosition.Counts; infer_instance

section
variable (prices : PriceTable) (coin : Coin) (idx : ReserveState) (r : OpenPosition)

def OpenPosition.debtUsd : ℕ := valueUsd prices coin (r.scaledDebt * idx.borrowIndex / ray)

def OpenPosition.partUsd (bps : ℕ) : ℕ :=
  if r.Counts coin then
    wrap128 (valueUsd prices coin (r.scaledSupply * idx.liquidityIndex / ray) * bps) / 10000
  else 0

structure OpenPosition.Converts : Prop where
  supply : r.Counts coin → r.scaledSupply * idx.liquidityIndex / ray < 2 ^ 128
  debt : r.scaledDebt * idx.borrowIndex / ray < 2 ^ 128

end

section
variable {prices : PriceTable} {coin : Coin} {idx : ReserveState} {r r' : OpenPosition}

theorem OpenPosition.counts_congr (h : r'.useAsCollateral = r.useAsCollateral) :
    r'.Counts coin ↔ r.Counts coin := by
  unfold OpenPosition.Counts
  rw [h]

/-- The supply counts for the same, whatever is owed. -/
theorem partUsd_congr {bps : ℕ} (hs : r'.scaledSupply = r.scaledSupply)
    (hu : r'.useAsCollateral = r.useAsCollateral) :
    r'.partUsd prices coin idx bps = r.partUsd prices coin idx bps := by
  unfold OpenPosition.partUsd
  by_cases hc : r.Counts coin
  · rw [if_pos hc, if_pos ((r.counts_congr hu).2 hc), hs]
  · rw [if_neg hc, if_neg (mt (r.counts_congr hu).1 hc)]

theorem debtUsd_congr (h : r'.scaledDebt = r.scaledDebt) :
    r'.debtUsd prices coin idx = r.debtUsd prices coin idx := by
  unfold OpenPosition.debtUsd
  rw [h]

end

theorem wrap128_lt (n : ℕ) : wrap128 n < 2 ^ 128 := Nat.mod_lt _ (by decide)

theorem wrap128_of_lt {n : ℕ} (h : n < 2 ^ 128) : wrap128 n = n := Nat.mod_eq_of_lt h

theorem wrap128_wrap_add (m n : ℕ) : wrap128 (wrap128 m + n) = wrap128 (m + n) :=
  Nat.mod_add_mod _ _ _

theorem valueUsd_zero (prices : PriceTable) (coin : Coin) : valueUsd prices coin 0 = 0 := by
  simp [valueUsd, saturate128]

theorem scaledToAmount_eq_some {scaled index amount : ℕ} :
    scaledToAmount scaled index = some amount ↔
      scaled * index / ray < 2 ^ 128 ∧ amount = scaled * index / ray := by
  unfold scaledToAmount toU128
  split
  · rename_i h
    exact ⟨fun e => ⟨h, (Option.some.inj e).symm⟩, fun e => congrArg some e.2.symm⟩
  · rename_i h
    exact ⟨nofun, fun e => absurd e.1 h⟩

structure AccountLiquidity.Bounded (a : AccountLiquidity) : Prop where
  collateral : a.liquidationCollateralUsd < 2 ^ 128
  power : a.borrowPowerUsd < 2 ^ 128
  debt : a.debtUsd < 2 ^ 128

def AccountLiquidity.plus (a : AccountLiquidity) (collateral power debt : ℕ) : AccountLiquidity :=
  ⟨wrap128 (a.liquidationCollateralUsd + collateral), wrap128 (a.borrowPowerUsd + power),
    wrap128 (a.debtUsd + debt)⟩

theorem AccountLiquidity.plus_bounded (a : AccountLiquidity) (collateral power debt : ℕ) :
    (a.plus collateral power debt).Bounded := ⟨wrap128_lt _, wrap128_lt _, wrap128_lt _⟩

theorem AccountLiquidity.plus_zero {a : AccountLiquidity} (h : a.Bounded) : a.plus 0 0 0 = a := by
  simp only [AccountLiquidity.plus, Nat.add_zero, wrap128_of_lt h.collateral, wrap128_of_lt h.power,
    wrap128_of_lt h.debt]

theorem AccountLiquidity.plus_plus (a : AccountLiquidity) (c p d c' p' d' : ℕ) :
    (a.plus c p d).plus c' p' d' = a.plus (c + c') (p + p') (d + d') := by
  simp only [AccountLiquidity.plus, wrap128_wrap_add, Nat.add_assoc]

section
variable {prices : PriceTable} {coin : Coin} {idx : ReserveState} {r : OpenPosition}
variable {a b : AccountLiquidity}

/-- What the supply adds. -/
theorem addSupply_eq_some (ha : a.Bounded) :
    (if 0 < r.scaledSupply ∧ r.useAsCollateral ∧ (lendMarket coin).canBeCollateral then
      (scaledToAmount r.scaledSupply idx.liquidityIndex).map (a.addSupply prices coin)
      else some a) = some b ↔
    (r.Counts coin → r.scaledSupply * idx.liquidityIndex / ray < 2 ^ 128) ∧
      b = a.plus (r.partUsd prices coin idx (lendMarket coin).liquidationThresholdBps)
        (r.partUsd prices coin idx (lendMarket coin).collateralFactorBps) 0 := by
  by_cases hc : r.Counts coin
  · unfold OpenPosition.partUsd
    rw [if_pos hc, if_pos hc]
    rcases Nat.eq_zero_or_pos r.scaledSupply with h0 | hpos
    · rw [if_neg (by omega), h0, Nat.zero_mul, Nat.zero_div, valueUsd_zero, Nat.zero_mul,
        Nat.zero_mul, wrap128_of_lt (by decide), Nat.zero_div, AccountLiquidity.plus_zero ha]
      exact ⟨fun h => ⟨fun _ => by decide, (Option.some.inj h).symm⟩, fun h => congrArg some h.2.symm⟩
    · rw [if_pos ⟨hpos, hc⟩, Option.map_eq_some_iff]
      have hplus (amount : ℕ) : a.addSupply prices coin amount = a.plus
          (wrap128 (valueUsd prices coin amount * (lendMarket coin).liquidationThresholdBps) / 10000)
          (wrap128 (valueUsd prices coin amount * (lendMarket coin).collateralFactorBps) / 10000)
          0 := by
        simp only [AccountLiquidity.addSupply, AccountLiquidity.plus, Nat.add_zero,
          wrap128_of_lt ha.debt]
      constructor
      · rintro ⟨amount, hs, rfl⟩
        obtain ⟨hlt, rfl⟩ := scaledToAmount_eq_some.1 hs
        exact ⟨fun _ => hlt, hplus _⟩
      · rintro ⟨hlt, rfl⟩
        exact ⟨_, scaledToAmount_eq_some.2 ⟨hlt hc, rfl⟩, hplus _⟩
  · unfold OpenPosition.partUsd
    rw [if_neg fun h => hc h.2, if_neg hc, if_neg hc, AccountLiquidity.plus_zero ha]
    exact ⟨fun h => ⟨fun h' => absurd h' hc, (Option.some.inj h).symm⟩, fun h => congrArg some h.2.symm⟩

theorem addDebt_eq_some (ha : a.Bounded) :
    (if 0 < r.scaledDebt then (scaledToAmount r.scaledDebt idx.borrowIndex).map (a.addDebt prices coin)
      else some a) = some b ↔
    r.scaledDebt * idx.borrowIndex / ray < 2 ^ 128 ∧ b = a.plus 0 0 (r.debtUsd prices coin idx) := by
  unfold OpenPosition.debtUsd
  rcases Nat.eq_zero_or_pos r.scaledDebt with h0 | hpos
  · rw [if_neg (by omega), h0, Nat.zero_mul, Nat.zero_div, valueUsd_zero,
      AccountLiquidity.plus_zero ha]
    exact ⟨fun h => ⟨by decide, (Option.some.inj h).symm⟩, fun h => congrArg some h.2.symm⟩
  · rw [if_pos hpos, Option.map_eq_some_iff]
    have hplus (amount : ℕ) : a.addDebt prices coin amount = a.plus 0 0 (valueUsd prices coin amount) := by
      simp only [AccountLiquidity.addDebt, AccountLiquidity.plus, Nat.add_zero,
        wrap128_of_lt ha.collateral, wrap128_of_lt ha.power]
    constructor
    · rintro ⟨amount, hs, rfl⟩
      obtain ⟨hlt, rfl⟩ := scaledToAmount_eq_some.1 hs
      exact ⟨hlt, hplus _⟩
    · rintro ⟨hlt, rfl⟩
      exact ⟨_, scaledToAmount_eq_some.2 ⟨hlt, rfl⟩, hplus _⟩

/-- What a position adds. -/
theorem add_eq_some (ha : a.Bounded) :
    a.add prices coin r idx = some b ↔ r.Converts coin idx ∧
      b = a.plus (r.partUsd prices coin idx (lendMarket coin).liquidationThresholdBps)
        (r.partUsd prices coin idx (lendMarket coin).collateralFactorBps)
        (r.debtUsd prices coin idx) := by
  unfold AccountLiquidity.add
  rw [Option.bind_eq_some_iff]
  constructor
  · rintro ⟨a', hs, hd⟩
    obtain ⟨hsupply, rfl⟩ := (addSupply_eq_some ha).1 hs
    obtain ⟨hdebt, rfl⟩ := (addDebt_eq_some (a.plus_bounded _ _ _)).1 hd
    refine ⟨⟨hsupply, hdebt⟩, ?_⟩
    rw [AccountLiquidity.plus_plus, Nat.add_zero, Nat.add_zero, Nat.zero_add]
  · rintro ⟨hc, rfl⟩
    refine ⟨_, (addSupply_eq_some ha).2 ⟨hc.supply, rfl⟩,
      (addDebt_eq_some (a.plus_bounded _ _ _)).2 ⟨hc.debt, ?_⟩⟩
    rw [AccountLiquidity.plus_plus, Nat.add_zero, Nat.add_zero, Nat.zero_add]

end

/-! ## The sums over all coins -/

def sumCoins (f : Coin → ℕ) : ℕ := (coins.map f).sum

/-- Sums that differ in one coin only. -/
theorem sumCoins_update {f g : Coin → ℕ} (coin : Coin) (h : ∀ c, c ≠ coin → f c = g c) :
    sumCoins f + g coin = sumCoins g + f coin := by
  have hne (c : Coin) (hc : c ≠ coin) := h c hc
  cases coin <;> simp only [sumCoins, coins, List.map_cons, List.map_nil, List.sum_cons, List.sum_nil] <;>
    simp_all <;> omega

theorem sum_filterMap_rows {f : Coin → Option Position} {g : Coin → Position → ℕ}
    (h : ∀ c, f c = none → g c .fresh = 0) (l : List Coin) :
    ((l.filterMap fun c => (f c).map fun r => (c, r)).map fun row => g row.1 row.2).sum =
      (l.map fun c => g c ((f c).getD .fresh)).sum := by
  induction l with
  | nil => rfl
  | cons c l ih =>
    cases hf : f c with
    | none =>
      rw [List.filterMap_cons_none (by rw [hf]; rfl), ih, List.map_cons, List.sum_cons, hf,
        Option.getD_none, h c hf, Nat.zero_add]
    | some r =>
      rw [List.filterMap_cons_some (by rw [hf]; rfl), List.map_cons, List.sum_cons, ih, List.map_cons,
        List.sum_cons, hf, Option.getD_some]

section
variable {prices : PriceTable} {indexes : Coin → ReserveState}

theorem fresh_debtUsd (coin : Coin) (idx : ReserveState) :
    Position.fresh.open.debtUsd prices coin idx = 0 := by
  rw [open_fresh]
  simp only [OpenPosition.debtUsd, Nat.zero_mul, Nat.zero_div, valueUsd_zero]

theorem fresh_partUsd (coin : Coin) (idx : ReserveState) (bps : ℕ) :
    Position.fresh.open.partUsd prices coin idx bps = 0 := by
  rw [open_fresh]
  simp [OpenPosition.partUsd, valueUsd_zero, wrap128]

theorem fresh_converts (coin : Coin) (idx : ReserveState) :
    Position.fresh.open.Converts coin idx := by
  rw [open_fresh]
  exact ⟨fun _ => by simp, by simp⟩

theorem addAll_eq_some {rows : List (Coin × Position)} {a b : AccountLiquidity} (ha : a.Bounded) :
    addAll indexes prices rows a = some b ↔
      (∀ row ∈ rows, row.2.open.Converts row.1 (indexes row.1)) ∧
      b = a.plus
        (rows.map fun row => row.2.open.partUsd prices row.1 (indexes row.1)
          (lendMarket row.1).liquidationThresholdBps).sum
        (rows.map fun row => row.2.open.partUsd prices row.1 (indexes row.1)
          (lendMarket row.1).collateralFactorBps).sum
        (rows.map fun row => row.2.open.debtUsd prices row.1 (indexes row.1)).sum := by
  induction rows generalizing a with
  | nil =>
    simp only [addAll, List.not_mem_nil, false_implies, implies_true, List.map_nil, List.sum_nil,
      AccountLiquidity.plus_zero ha, true_and]
    exact ⟨fun h => (Option.some.inj h).symm, fun h => congrArg some h.symm⟩
  | cons row rows ih =>
    obtain ⟨coin, r⟩ := row
    simp only [addAll, Option.bind_eq_some_iff, List.forall_mem_cons, List.map_cons, List.sum_cons]
    constructor
    · rintro ⟨a', hadd, hrest⟩
      obtain ⟨hc, rfl⟩ := (add_eq_some ha).1 hadd
      obtain ⟨hcs, rfl⟩ := (ih (a.plus_bounded _ _ _)).1 hrest
      exact ⟨⟨hc, hcs⟩, AccountLiquidity.plus_plus ..⟩
    · rintro ⟨⟨hc, hcs⟩, rfl⟩
      exact ⟨_, (add_eq_some ha).2 ⟨hc, rfl⟩, (ih (a.plus_bounded _ _ _)).2
        ⟨hcs, (AccountLiquidity.plus_plus ..).symm⟩⟩

end

section
variable (v : Db lendExt) (userId : Uuid) (fresh : List (Coin × ReserveState)) (prices : PriceTable)

def Db.partsUsd (bps : Coin → ℕ) : ℕ := sumCoins fun c =>
  (v.position userId c).open.partUsd prices c (v.indexesFor fresh c) (bps c)

def Db.debtsUsd : ℕ := sumCoins fun c =>
  (v.position userId c).open.debtUsd prices c (v.indexesFor fresh c)

def thresholdBps (coin : Coin) : ℕ := (lendMarket coin).liquidationThresholdBps

def factorBps (coin : Coin) : ℕ := (lendMarket coin).collateralFactorBps

/-- The liquidity is computed if all amounts are `u128`, and is the sums in `u128`. -/
theorem liquidity_eq_some {b : AccountLiquidity} : v.liquidity userId fresh prices = some b ↔
    (∀ c, (v.position userId c).open.Converts c (v.indexesFor fresh c)) ∧
      b = ⟨wrap128 (v.partsUsd userId fresh prices thresholdBps),
        wrap128 (v.partsUsd userId fresh prices factorBps),
        wrap128 (v.debtsUsd userId fresh prices)⟩ := by
  have hrows (g : Coin → Position → ℕ) (hg : ∀ c, g c .fresh = 0) :
      ((v.ext.positionsOf userId).map fun row => g row.1 row.2).sum =
        sumCoins fun c => g c (v.position userId c) :=
    sum_filterMap_rows (fun c _ => hg c) coins
  unfold Db.liquidity
  rw [addAll_eq_some ⟨by decide, by decide, by decide⟩,
    hrows (fun c r => r.open.partUsd prices c (v.indexesFor fresh c)
      (lendMarket c).liquidationThresholdBps) fun c => fresh_partUsd _ _ _,
    hrows (fun c r => r.open.partUsd prices c (v.indexesFor fresh c)
      (lendMarket c).collateralFactorBps) fun c => fresh_partUsd _ _ _,
    hrows (fun c r => r.open.debtUsd prices c (v.indexesFor fresh c)) fun c => fresh_debtUsd _ _]
  have hconverts : (∀ row ∈ v.ext.positionsOf userId,
      row.2.open.Converts row.1 (v.indexesFor fresh row.1)) ↔
      ∀ c, (v.position userId c).open.Converts c (v.indexesFor fresh c) := by
    constructor
    · intro h c
      unfold Db.position
      cases hl : (v.ext.books c).positions.lookup userId with
      | none => exact fresh_converts _ _
      | some r =>
        exact h (c, r) (List.mem_filterMap.2 ⟨c, mem_coins c, by rw [hl]; rfl⟩)
    · rintro h ⟨c, r⟩ hrow
      obtain ⟨c', -, he⟩ := List.mem_filterMap.1 hrow
      obtain ⟨r', hl, he⟩ := Option.map_eq_some_iff.1 he
      cases he
      have := h c
      unfold Db.position at this
      rwa [hl] at this
  rw [hconverts]
  simp only [AccountLiquidity.plus, Nat.zero_add]
  rfl

end

/-! ## What an operation changes -/

section
variable {v v' db db' : Db lendExt} {userId : Uuid} {coin : Coin} {idx : ReserveState}
variable {prices : PriceTable} {fresh : List (Coin × ReserveState)}

theorem Priced.unique {prices' : PriceTable} (h : Priced db prices) (h' : Priced db prices') :
    prices = prices' := funext fun coin => (h coin).unique (h' coin)

theorem liquidity_congr (hp : ∀ c, v'.position userId c = v.position userId c)
    (hi : ∀ c, v'.indexesFor fresh c = v.indexesFor fresh c) :
    v'.liquidity userId fresh prices = v.liquidity userId fresh prices := by
  refine Option.ext fun b => ?_
  rw [liquidity_eq_some, liquidity_eq_some]
  simp only [Db.partsUsd, Db.debtsUsd, hp, hi]

def ApartFrom (coin : Coin) (v v' : Db lendExt) : Prop :=
  ∀ c, c ≠ coin → v'.ext.books c = v.ext.books c

theorem ApartFrom.trans {v'' : Db lendExt} (h : ApartFrom coin v v') (h' : ApartFrom coin v' v'') :
    ApartFrom coin v v'' := fun c hc => (h' c hc).trans (h c hc)

theorem apartFrom_write (w : LendWrite) : ApartFrom w.coin v (v.write w) :=
  fun _ hc => v.write_book_ne hc

theorem apartFrom_withPosition : ApartFrom coin v (v.withPosition userId coin) :=
  fun _ hc => withPosition_book_ne hc

theorem Accrual.apartFrom (h : Accrual v coin idx v') : ApartFrom coin v v' := fun _ hc => h.book_ne hc

theorem Moved.apartFrom {fromWallet toWallet : Uuid} {amount : ℕ} {type : LedgerType} {key : String}
    (h : Moved v fromWallet toWallet amount type key v') : ApartFrom coin v v' :=
  fun c _ => congrArg (fun e : LendDb => e.books c) h.ext_eq

theorem ApartFrom.position (h : ApartFrom coin v v') {c : Coin} (hc : c ≠ coin) :
    v'.position userId c = v.position userId c := by
  unfold Db.position
  rw [h c hc]

/-- With the indexes of the coin at hand only the other coins' are read. -/
theorem ApartFrom.indexesFor (h : ApartFrom coin v v') (c : Coin) :
    v'.indexesFor [(coin, idx)] c = v.indexesFor [(coin, idx)] c := by
  unfold Db.indexesFor
  by_cases hc : c = coin
  · subst hc
    simp only [List.lookup_cons, beq_self_eq_true]
  · rw [h c hc]

theorem indexesFor_self : v.indexesFor [(coin, idx)] coin = idx := by
  unfold Db.indexesFor
  simp only [List.lookup_cons, beq_self_eq_true]

theorem ApartFrom.liquidity (h : ApartFrom coin v v')
    (hp : v'.position userId coin = v.position userId coin) :
    v'.liquidity userId [(coin, idx)] prices = v.liquidity userId [(coin, idx)] prices := by
  refine liquidity_congr (fun c => ?_) h.indexesFor
  by_cases hc : c = coin
  · rw [hc, hp]
  · exact h.position hc

/-- What a change of one position does to a sum over the coins. -/
theorem sumCoins_position (h : ApartFrom coin v v') (userId : Uuid) (idx : ReserveState)
    (f : Coin → OpenPosition → ReserveState → ℕ) :
    sumCoins (fun c => f c (v'.position userId c).open (v'.indexesFor [(coin, idx)] c)) +
        f coin (v.position userId coin).open idx =
      sumCoins (fun c => f c (v.position userId c).open (v.indexesFor [(coin, idx)] c)) +
        f coin (v'.position userId coin).open idx := by
  have hsum := sumCoins_update coin
    (f := fun c => f c (v'.position userId c).open (v'.indexesFor [(coin, idx)] c))
    (g := fun c => f c (v.position userId c).open (v.indexesFor [(coin, idx)] c))
    fun c hc => by rw [h.position hc, h.indexesFor]
  rwa [indexesFor_self, indexesFor_self] at hsum

theorem wrap128_eq_emod {m n : ℕ} {z : ℤ} (h : (n : ℤ) = m + z) :
    ((wrap128 n : ℕ) : ℤ) = ((wrap128 m : ℕ) + z) % 2 ^ 128 := by
  unfold wrap128
  push_cast
  rw [h, Int.emod_add_emod]

/-- The liquidity after a change of the position in one coin. -/
theorem ApartFrom.liquidity_eq (h : ApartFrom coin v v') {a : AccountLiquidity}
    (ha : v.liquidity userId [(coin, idx)] prices = some a)
    (hc : (v'.position userId coin).open.Converts coin idx) :
    ∃ b, v'.liquidity userId [(coin, idx)] prices = some b ∧
      (b.liquidationCollateralUsd : ℤ) = (a.liquidationCollateralUsd +
        ((v'.position userId coin).open.partUsd prices coin idx (thresholdBps coin) -
          (v.position userId coin).open.partUsd prices coin idx (thresholdBps coin))) % 2 ^ 128 ∧
      (b.borrowPowerUsd : ℤ) = (a.borrowPowerUsd +
        ((v'.position userId coin).open.partUsd prices coin idx (factorBps coin) -
          (v.position userId coin).open.partUsd prices coin idx (factorBps coin))) % 2 ^ 128 ∧
      (b.debtUsd : ℤ) = (a.debtUsd + ((v'.position userId coin).open.debtUsd prices coin idx -
        (v.position userId coin).open.debtUsd prices coin idx)) % 2 ^ 128 := by
  obtain ⟨hconv, rfl⟩ := (liquidity_eq_some v userId [(coin, idx)] prices).1 ha
  refine ⟨_, (liquidity_eq_some v' userId [(coin, idx)] prices).2 ⟨fun c => ?_, rfl⟩, ?_, ?_, ?_⟩
  · by_cases hcc : c = coin
    · subst hcc
      rwa [indexesFor_self]
    · rw [h.position hcc, h.indexesFor]
      exact hconv c
  · have hs := sumCoins_position h userId idx fun c r i =>
      r.partUsd prices c i (thresholdBps c)
    exact wrap128_eq_emod (by simp only [Db.partsUsd]; omega)
  · have hs := sumCoins_position h userId idx fun c r i =>
      r.partUsd prices c i (factorBps c)
    exact wrap128_eq_emod (by simp only [Db.partsUsd]; omega)
  · have hs := sumCoins_position h userId idx fun c r i =>
      r.debtUsd prices c i
    exact wrap128_eq_emod (by simp only [Db.debtsUsd]; omega)

end

/-! ## What is stored -/

section
variable (v : Db lendExt) (userId : Uuid) (fresh : List (Coin × ReserveState)) (prices : PriceTable)

def worth (coin : Coin) (amount : ℕ) : ℕ := amount * (prices coin).1 / 10 ^ 8

/-- The indexes at hand, or those of the reserve as they are stored. -/
def Db.storedIndexes (coin : Coin) : ReserveState :=
  match fresh.lookup coin with
  | some r => r
  | none => match (v.ext.books coin).reserve with
    | some r => r.indexes
    | none => ⟨ray, ray⟩

def Db.debtWorth : ℕ := sumCoins fun c =>
  worth prices c ((v.position userId c).scaledDebt * (v.storedIndexes fresh c).borrowIndex / ray)

def Db.supplyWorth (c : Coin) : ℕ :=
  if (v.position userId c).open.Counts c then
    worth prices c
      ((v.position userId c).scaledSupply * (v.storedIndexes fresh c).liquidityIndex / ray)
  else 0

def Db.collateralWorth (bps : Coin → ℕ) : ℕ := sumCoins fun c =>
  v.supplyWorth userId fresh prices c * bps c / 10000

/-- The numbers of an account can be read, and no sum of them passes `u128`. -/
structure Db.Readable : Prop where
  supply : ∀ c, Legible 0 (v.position userId c).scaledSupply
  debt : ∀ c, Legible 0 (v.position userId c).scaledDebt
  indexes : ∀ c r, fresh.lookup c = none → (v.ext.books c).reserve = some r →
    Legible ray r.liquidityIndex ∧ Legible ray r.borrowIndex
  collateral : sumCoins (v.supplyWorth userId fresh prices) * 10000 < 2 ^ 128
  owed : v.debtWorth userId fresh prices < 2 ^ 128

instance : Decidable (v.Readable userId fresh prices) :=
  decidable_of_iff ((∀ c ∈ coins, Legible 0 (v.position userId c).scaledSupply ∧
      Legible 0 (v.position userId c).scaledDebt ∧
      (fresh.lookup c = none → ∀ r ∈ (v.ext.books c).reserve,
        Legible ray r.liquidityIndex ∧ Legible ray r.borrowIndex)) ∧
      sumCoins (v.supplyWorth userId fresh prices) * 10000 < 2 ^ 128 ∧
      v.debtWorth userId fresh prices < 2 ^ 128)
    ⟨fun h => ⟨fun c => (h.1 c (mem_coins c)).1, fun c => (h.1 c (mem_coins c)).2.1,
        fun c r hf hr => (h.1 c (mem_coins c)).2.2 hf r hr, h.2.1, h.2.2⟩,
      fun h => ⟨fun c _ => ⟨h.supply c, h.debt c, fun hf r hr => h.indexes c r hf hr⟩,
        h.collateral, h.owed⟩⟩

end

theorem thresholdBps_le (c : Coin) : thresholdBps c ≤ 10000 := by cases c <;> decide

theorem factorBps_le (c : Coin) : factorBps c ≤ 10000 := by cases c <;> decide

theorem le_sumCoins (f : Coin → ℕ) (c : Coin) : f c ≤ sumCoins f :=
  List.le_sum_of_mem (List.mem_map_of_mem (mem_coins c))

theorem Db.debtUsd_le (v : Db lendExt) (userId : Uuid) (fresh : List (Coin × ReserveState))
    (prices : PriceTable) (c : Coin) :
    (v.position userId c).open.debtUsd prices c (v.indexesFor fresh c) ≤
      v.debtsUsd userId fresh prices :=
  le_sumCoins (fun c => (v.position userId c).open.debtUsd prices c (v.indexesFor fresh c)) c

theorem Db.partUsd_le (v : Db lendExt) (userId : Uuid) (fresh : List (Coin × ReserveState))
    (prices : PriceTable) (bps : Coin → ℕ) (c : Coin) :
    (v.position userId c).open.partUsd prices c (v.indexesFor fresh c) (bps c) ≤
      v.partsUsd userId fresh prices bps :=
  le_sumCoins (fun c => (v.position userId c).open.partUsd prices c (v.indexesFor fresh c) (bps c)) c

theorem sumCoins_le_sumCoins {f g : Coin → ℕ} (h : ∀ c, f c ≤ g c) : sumCoins f ≤ sumCoins g :=
  List.sum_le_sum fun c _ => h c

theorem valueUsd_eq_worth {prices : PriceTable} {coin : Coin} {amount : ℕ}
    (h : worth prices coin amount < 2 ^ 128) : valueUsd prices coin amount = worth prices coin amount :=
  saturate128_of_lt h

namespace Db.Readable

variable {v : Db lendExt} {userId : Uuid} {fresh : List (Coin × ReserveState)} {prices : PriceTable}

theorem indexesFor (h : v.Readable userId fresh prices) (c : Coin) :
    v.indexesFor fresh c = v.storedIndexes fresh c := by
  unfold Db.indexesFor Db.storedIndexes
  cases hl : fresh.lookup c with
  | some r => rfl
  | none =>
    cases hr : (v.ext.books c).reserve with
    | none => rfl
    | some r =>
      obtain ⟨hli, hbi⟩ := h.indexes c r hl hr
      simp only [Reserve.indexes, readU128_nat_eq_iff.2 hli, readU128_nat_eq_iff.2 hbi]

theorem debtUsd (h : v.Readable userId fresh prices) (c : Coin) :
    (v.position userId c).open.debtUsd prices c (v.indexesFor fresh c) =
      worth prices c
        ((v.position userId c).scaledDebt * (v.storedIndexes fresh c).borrowIndex / ray) := by
  have hread : (v.position userId c).open.scaledDebt = (v.position userId c).scaledDebt :=
    readU128_nat_eq_iff.2 (h.debt c)
  unfold OpenPosition.debtUsd
  rw [hread, h.indexesFor]
  exact valueUsd_eq_worth ((le_sumCoins (fun c => worth prices c ((v.position userId c).scaledDebt *
    (v.storedIndexes fresh c).borrowIndex / ray)) c).trans_lt h.owed)

theorem partUsd (h : v.Readable userId fresh prices) (c : Coin) {bps : ℕ} (hb : bps ≤ 10000) :
    (v.position userId c).open.partUsd prices c (v.indexesFor fresh c) bps =
      v.supplyWorth userId fresh prices c * bps / 10000 := by
  have hread : (v.position userId c).open.scaledSupply = (v.position userId c).scaledSupply :=
    readU128_nat_eq_iff.2 (h.supply c)
  have hlt : v.supplyWorth userId fresh prices c * bps < 2 ^ 128 :=
    (Nat.mul_le_mul (le_sumCoins _ c) hb).trans_lt h.collateral
  have hone : v.supplyWorth userId fresh prices c < 2 ^ 128 :=
    ((le_sumCoins _ c).trans (Nat.le_mul_of_pos_right _ (by decide))).trans_lt h.collateral
  unfold OpenPosition.partUsd Db.supplyWorth at *
  by_cases hc : (v.position userId c).open.Counts c
  · rw [if_pos hc] at hlt hone ⊢
    rw [if_pos hc, hread, h.indexesFor, valueUsd_eq_worth hone, wrap128_of_lt hlt]
  · rw [if_neg hc, if_neg hc, Nat.zero_mul, Nat.zero_div]

theorem partsUsd (h : v.Readable userId fresh prices) {bps : Coin → ℕ} (hb : ∀ c, bps c ≤ 10000) :
    v.partsUsd userId fresh prices bps = v.collateralWorth userId fresh prices bps :=
  congrArg sumCoins (funext fun c => h.partUsd c (hb c))

theorem debtsUsd (h : v.Readable userId fresh prices) :
    v.debtsUsd userId fresh prices = v.debtWorth userId fresh prices :=
  congrArg sumCoins (funext h.debtUsd)

theorem collateralWorth_lt (h : v.Readable userId fresh prices) {bps : Coin → ℕ}
    (hb : ∀ c, bps c ≤ 10000) : v.collateralWorth userId fresh prices bps < 2 ^ 128 := by
  have hle : v.collateralWorth userId fresh prices bps ≤
      sumCoins (v.supplyWorth userId fresh prices) :=
    sumCoins_le_sumCoins fun c => Nat.div_le_of_le_mul
      ((Nat.mul_le_mul_left _ (hb c)).trans (Nat.mul_comm _ _).le)
  exact (hle.trans (Nat.le_mul_of_pos_right _ (by decide))).trans_lt h.collateral

theorem liquidity (h : v.Readable userId fresh prices) {b : AccountLiquidity}
    (hb : v.liquidity userId fresh prices = some b) :
    b = ⟨v.collateralWorth userId fresh prices thresholdBps,
      v.collateralWorth userId fresh prices factorBps, v.debtWorth userId fresh prices⟩ := by
  rw [((liquidity_eq_some v userId fresh prices).1 hb).2, h.partsUsd thresholdBps_le,
    h.partsUsd factorBps_le, h.debtsUsd, wrap128_of_lt (h.collateralWorth_lt thresholdBps_le),
    wrap128_of_lt (h.collateralWorth_lt factorBps_le), wrap128_of_lt h.owed]

end Db.Readable

end SatsPay
