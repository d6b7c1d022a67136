import SatsPay.Lend
import SatsPay.Script

/-!
# Reading the tables of the money market

Every amount is read with a default for what does not parse. Which stored values are read
as they are, and which are replaced.
-/

namespace SatsPay

open Interleave ReadCommitted

/-- A process runs one operation; `closeFactor` says which close factors are passed. -/
inductive LendProcess (closeFactor : ℕ → Prop) : Prog (sig (satsPay lendExt)) Empty Unit → Prop
  | supply (userId : Uuid) (coin : Coin) (amount : ℕ) :
      LendProcess closeFactor (supply userId coin amount).spawn
  | withdraw (userId : Uuid) (coin : Coin) (amount maxStale : ℕ) :
      LendProcess closeFactor (withdraw userId coin amount maxStale).spawn
  | borrow (userId : Uuid) (coin : Coin) (amount maxStale : ℕ) :
      LendProcess closeFactor (borrow userId coin amount maxStale).spawn
  | repay (userId : Uuid) (coin : Coin) (amount : ℕ) :
      LendProcess closeFactor (repay userId coin amount).spawn
  | liquidate (liquidatorId borrowerId : Uuid) (debtCoin collateralCoin : Coin)
      (amount closeFactorBps maxStale : ℕ) (h : closeFactor closeFactorBps) :
      LendProcess closeFactor
        (liquidate liquidatorId borrowerId debtCoin collateralCoin amount closeFactorBps
          maxStale).spawn

/-! ## One value -/

/-- What is read of a column with a default. -/
def Legible (default : ℕ) (stored : ℤ) : Prop := stored = default ∨ ReadsBack stored

instance (default : ℕ) (stored : ℤ) : Decidable (Legible default stored) := by
  unfold Legible; infer_instance

theorem readsBack_nonneg {n : ℤ} (h : ReadsBack n) : 0 ≤ n := by
  rcases h with h | h
  · exact h.ge
  · exact h.1.le

theorem readU128_of_readsBack (default : ℕ) {n : ℕ} (h : ReadsBack n) : readU128 default n = n := by
  unfold readU128
  rw [readStored_eq, if_pos h, Option.getD_some, Int.toNat_natCast]

theorem readU128_of_not_readsBack (default : ℕ) {n : ℤ} (h : ¬ ReadsBack n) :
    readU128 default n = default := by
  unfold readU128
  rw [readStored_eq, if_neg h, Option.getD_none]

theorem readU128_eq_iff {default : ℕ} {n : ℤ} :
    (readU128 default n : ℤ) = n ↔ Legible default n := by
  by_cases h : ReadsBack n
  · obtain ⟨m, rfl⟩ := Int.eq_ofNat_of_zero_le (readsBack_nonneg h)
    rw [readU128_of_readsBack default h]
    exact iff_of_true rfl (.inr h)
  · rw [readU128_of_not_readsBack default h]
    exact ⟨fun e => .inl e.symm, fun hl => (hl.resolve_right h).symm⟩

theorem readU128_nat_eq_iff {default n : ℕ} : readU128 default n = n ↔ Legible default n := by
  rw [← readU128_eq_iff, Nat.cast_inj]

@[simp] theorem readU128_self (n : ℕ) : readU128 n n = n := readU128_nat_eq_iff.2 (.inl rfl)

/-- What is not the default was stored. -/
theorem readU128_ne_default {default n : ℕ} (h : readU128 default n ≠ default) :
    readU128 default n = n := by
  by_cases hr : ReadsBack n
  · exact readU128_of_readsBack default hr
  · exact absurd (readU128_of_not_readsBack default hr) h

theorem open_fresh : Position.fresh.open = ⟨0, 0, true⟩ := by
  simp only [Position.open, Position.fresh, Nat.cast_zero, OpenPosition.mk.injEq, and_true]
  exact ⟨readU128_nat_eq_iff.2 (.inl rfl), readU128_nat_eq_iff.2 (.inl rfl)⟩

/-! ## Scaled units -/

theorem toU128_eq_some {n m : ℕ} (h : toU128 n = some m) : m = n := by
  unfold toU128 at h
  split at h
  · exact (Option.some.inj h).symm
  · cases h

theorem scaledToAmount_mul_le {scaled index amount : ℕ} (h : scaledToAmount scaled index = some amount) :
    amount * ray ≤ scaled * index := by
  rw [toU128_eq_some h]
  exact Nat.div_mul_le_self _ _

theorem amountToScaled_eq {amount index scaled : ℕ} (hi : 0 < index)
    (h : amountToScaled amount index = some scaled) : scaled = amount * ray / index := by
  unfold amountToScaled at h
  rw [if_neg hi.ne'] at h
  exact toU128_eq_some h

theorem wrap128_le (n : ℕ) : wrap128 n ≤ n := Nat.mod_le _ _

/-- What is worth no more than a position is no more of it in scaled units. -/
theorem amountToScaled_le {scaled index real out n : ℕ} (hr : scaledToAmount scaled index = some real)
    (ho : out ≤ real) (hn : amountToScaled out index = some n) : n ≤ scaled := by
  rcases Nat.eq_zero_or_pos index with rfl | hi
  · cases hn
    exact Nat.zero_le _
  · rw [amountToScaled_eq hi hn]
    refine Nat.div_le_of_le_mul ?_
    calc out * ray ≤ real * ray := Nat.mul_le_mul_right _ ho
      _ ≤ scaled * index := scaledToAmount_mul_le hr
      _ = index * scaled := mul_comm _ _

theorem valueUsd_le (prices : PriceTable) (coin : Coin) (amount : ℕ) :
    valueUsd prices coin amount ≤ amount * (prices coin).1 / 10 ^ 8 := saturate128_le _

/-- There and back again is no more than there was. -/
theorem usdToAmount_le {prices : PriceTable} {coin : Coin} {usd amount : ℕ}
    (h : usd ≤ valueUsd prices coin amount) : usdToAmount prices coin usd ≤ amount := by
  unfold usdToAmount
  split
  · exact Nat.zero_le _
  · refine (saturate128_le _).trans (Nat.div_le_of_le_mul ?_)
    calc usd * 10 ^ 8 ≤ amount * (prices coin).1 / 10 ^ 8 * 10 ^ 8 :=
          Nat.mul_le_mul_right _ (h.trans (valueUsd_le prices coin amount))
      _ ≤ amount * (prices coin).1 := Nat.div_mul_le_self _ _
      _ = (prices coin).1 * amount := mul_comm _ _

theorem valueUsd_le_of_lt {prices : PriceTable} {coin : Coin} {usd amount : ℕ}
    (h : amount < usdToAmount prices coin usd) : valueUsd prices coin amount ≤ usd := by
  unfold usdToAmount at h
  split at h
  · omega
  · rename_i hp
    have hlt : amount < usd * 10 ^ 8 / (prices coin).1 := lt_of_lt_of_le h (saturate128_le _)
    have hmul : amount * (prices coin).1 ≤ usd * 10 ^ 8 :=
      (Nat.mul_le_mul_right _ hlt.le).trans (Nat.div_mul_le_self _ _)
    refine (valueUsd_le prices coin amount).trans (Nat.div_le_of_le_mul ?_)
    rwa [mul_comm (10 ^ 8)]

/-- A liquidation repays no more than was offered and than the share of the debt, and seizes no
more than the collateral. -/
theorem liquidationAmounts_le_min (prices : PriceTable) (debtCoin collateralCoin : Coin)
    (amount closeFactorBps debtReal collReal : ℕ) :
    (liquidationAmounts prices debtCoin collateralCoin amount closeFactorBps debtReal collReal).1 ≤
        min amount (debtReal * closeFactorBps / 10000) ∧
      (liquidationAmounts prices debtCoin collateralCoin amount closeFactorBps debtReal
        collReal).2 ≤ collReal := by
  have hclose : min amount (wrap128 (debtReal * closeFactorBps) / 10000) ≤
      min amount (debtReal * closeFactorBps / 10000) :=
    min_le_min_left _ (Nat.div_le_div_right (wrap128_le _))
  simp only [liquidationAmounts]
  split
  · rename_i hlt
    refine ⟨(usdToAmount_le ?_).trans hclose, le_rfl⟩
    -- what is left of the value of the collateral without the bonus
    have hv := valueUsd_le_of_lt hlt
    refine Nat.div_le_of_le_mul ((wrap128_le _).trans ?_)
    refine (Nat.mul_le_mul_right 10000 (hv.trans (Nat.div_le_div_right (wrap128_le _)))).trans ?_
    exact (Nat.div_mul_le_self _ _).trans_eq (mul_comm _ _)
  · rename_i hle
    exact ⟨hclose, not_lt.1 hle⟩

/-! ## The whole store -/

structure ReadsExactly (db : Db lendExt) : Prop where
  reserve : ∀ coin r, (db.ext.books coin).reserve = some r → openReserve coin (some r) =
    .ret (⟨r.liquidityIndex, r.borrowIndex⟩, r.totalScaledDebt, r.lastAccruedAt)
  position : ∀ coin userId r, (db.ext.books coin).positions.lookup userId = some r →
    r.open = ⟨r.scaledSupply, r.scaledDebt, r.useAsCollateral⟩
  pool : ∀ coin houseId id, db.ext.house = some houseId →
    db.core.walletOf houseId coin .lendPool = some id →
    (readU128 0 (db.core.balance id) : ℤ) = db.core.balance id

structure AllLegible (db : Db lendExt) : Prop where
  liquidityIndex : ∀ coin r, (db.ext.books coin).reserve = some r → Legible ray r.liquidityIndex
  borrowIndex : ∀ coin r, (db.ext.books coin).reserve = some r → Legible ray r.borrowIndex
  totalScaledDebt : ∀ coin r, (db.ext.books coin).reserve = some r → Legible 0 r.totalScaledDebt
  scaledSupply : ∀ coin userId r, (db.ext.books coin).positions.lookup userId = some r →
    Legible 0 r.scaledSupply
  scaledDebt : ∀ coin userId r, (db.ext.books coin).positions.lookup userId = some r →
    Legible 0 r.scaledDebt
  pool : ∀ coin houseId id, db.ext.house = some houseId →
    db.core.walletOf houseId coin .lendPool = some id → Legible 0 (db.core.balance id)

theorem openReserve_exact_iff {coin : Coin} {r : Reserve} :
    openReserve coin (some r) =
      .ret (⟨r.liquidityIndex, r.borrowIndex⟩, r.totalScaledDebt, r.lastAccruedAt) ↔
    Legible ray r.liquidityIndex ∧ Legible ray r.borrowIndex ∧ Legible 0 r.totalScaledDebt := by
  simp only [openReserve, Prog.ret.injEq, Prod.mk.injEq, ReserveState.mk.injEq,
    readU128_nat_eq_iff, and_true, and_assoc]

theorem open_exact_iff {r : Position} :
    r.open = ⟨r.scaledSupply, r.scaledDebt, r.useAsCollateral⟩ ↔
      Legible 0 r.scaledSupply ∧ Legible 0 r.scaledDebt := by
  simp only [Position.open, OpenPosition.mk.injEq, readU128_nat_eq_iff, and_true]

/-- A fallback replaces a stored value unless every value can be read. -/
theorem readsExactly_iff (db : Db lendExt) : ReadsExactly db ↔ AllLegible db := by
  constructor
  · intro h
    have hr := fun coin r e => openReserve_exact_iff.1 (h.reserve coin r e)
    have hp := fun coin userId r e => open_exact_iff.1 (h.position coin userId r e)
    exact ⟨fun coin r e => (hr coin r e).1, fun coin r e => (hr coin r e).2.1,
      fun coin r e => (hr coin r e).2.2, fun coin userId r e => (hp coin userId r e).1,
      fun coin userId r e => (hp coin userId r e).2,
      fun coin houseId id hh hw => readU128_eq_iff.1 (h.pool coin houseId id hh hw)⟩
  · intro h
    exact ⟨fun coin r e => openReserve_exact_iff.2 ⟨h.liquidityIndex coin r e,
        h.borrowIndex coin r e, h.totalScaledDebt coin r e⟩,
      fun coin userId r e => open_exact_iff.2 ⟨h.scaledSupply coin userId r e,
        h.scaledDebt coin userId r e⟩,
      fun coin houseId id hh hw => readU128_eq_iff.2 (h.pool coin houseId id hh hw)⟩

/-! User 7 has collateral in LTC and borrows `10 ^ 16` of BTC from a pool that has it. -/

def bigPool : Db lendExt where
  core := {
    now := 0
    wallets := ((∅ : Table Wallet).insert 1 ⟨7, .btc, .personal, none⟩).insert 2
      ⟨9, .btc, .lendPool, none⟩
    ledger := [⟨2, 3 * 10 ^ 16 + 1, .adjustment, none, none, none, none⟩]
    jobs := ∅
    outbox := []
    auditLogs := [] }
  ext := {
    books := Function.update (fun _ => ⟨some (.fresh 0), ∅⟩) .ltc
      ⟨some ⟨ray, ray, 3 * 10 ^ 16 + 1, 0, 0⟩,
        (∅ : Table Position).insert 7 ⟨3 * 10 ^ 16 + 1, 0, true⟩⟩
    prices := fun _ => some ⟨10 ^ 8, 8, 0⟩
    house := some 9 }

def lendRunner (progs : List (Prog (sig (satsPay lendExt)) Empty Unit)) : Runner (satsPay lendExt) :=
  ⟨2, progs, Db.wait, fun _ _ => true⟩

def goOn (p n : Nat) : List (Act (satsPay lendExt)) := List.replicate n (.op p (.go 0))

def clockRead (p : Nat) (now : Instant) : List (Act (satsPay lendExt)) :=
  [.op p (.answer fun _ => (now : Instant))]

def priceReads (p : Nat) (now : Instant) : List (Act (satsPay lendExt)) :=
  (coins.map fun _ => goOn p 1 ++ clockRead p now).flatten

theorem run_of_lendScript {closeFactor : ℕ → Prop}
    {progs : List (Prog (sig (satsPay lendExt)) Empty Unit)}
    (hprogs : ∀ c ∈ progs, LendProcess closeFactor c) {db : Db lendExt}
    {l : List (Act (satsPay lendExt))} {w : World (machine (satsPay lendExt))}
    (hw : (lendRunner progs).run l (.init _ (.start db)) = some w) :
    Run (LendProcess closeFactor) (anyStep _) db w :=
  Runner.steps_of_run (R := lendRunner progs) hprogs Db.tick_wait (fun _ _ _ => trivial)
    (fun _ _ => rfl) hw

def bigLoan : List (Act (satsPay lendExt)) :=
  .start 0 0 :: (goOn 0 3 ++ clockRead 0 0 ++ goOn 0 4 ++ priceReads 0 0 ++ goOn 0 21 ++
    [.finish 0])

/-- The loan is made, and the next health check does not see it. -/
theorem bigLoan_unread : ∃ w : World (machine (satsPay lendExt)),
    Run (LendProcess fun _ => True) (anyStep _) bigPool w ∧
    (∃ r, (w.conf.s.db.ext.books .btc).positions.lookup 7 = some r ∧
      r.scaledDebt = 10 ^ 16 ∧ r.open.scaledDebt = 0) ∧ ¬ ReadsExactly w.conf.s.db := by
  have hrun : ((lendRunner [(borrow 7 .btc (10 ^ 16) 1000000).spawn]).run bigLoan
      (.init _ (.start bigPool))).map
        (fun w => (w.conf.s.db.ext.books .btc).positions.lookup 7) =
      some (some ⟨0, 10 ^ 16, true⟩) := by
    decide +kernel
  obtain ⟨w, hw, hl⟩ := Option.map_eq_some_iff.1 hrun
  have hread : (Position.open ⟨0, 10 ^ 16, true⟩).scaledDebt = 0 := by decide +kernel
  refine ⟨w, run_of_lendScript (by simpa using .borrow 7 .btc (10 ^ 16) 1000000) hw,
    ⟨_, hl, rfl, hread⟩, fun h => ?_⟩
  have := congrArg OpenPosition.scaledDebt (h.position .btc 7 _ hl)
  rw [hread] at this
  exact absurd this (by decide)

end SatsPay
