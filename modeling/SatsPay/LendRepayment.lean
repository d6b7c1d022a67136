import SatsPay.LendAccrual

/-!
# Repayment in full

A payment is rounded to units of the coin, and from these to scaled units again. Whoever pays
all there is to pay is rid of the debt only if the first rounding took nothing off.
-/

namespace SatsPay

open Interleave ReadCommitted

/-! ## What an operation leaves of the books -/

def Db.indexes (v : Db lendExt) (coin : Coin) : Option ReserveState :=
  (v.ext.books coin).reserve.map Reserve.indexes

section
variable {v v' db db' : Db lendExt} {userId : Uuid} {coin : Coin} {idx : ReserveState}

theorem Db.write_book_ne (v : Db lendExt) {w : LendWrite} {c : Coin} (h : c ≠ w.coin) :
    (v.write w).ext.books c = v.ext.books c := LendDb.onBook_ne _ h _

theorem withReserve_book_ne {c : Coin} (h : c ≠ coin) :
    (v.withReserve coin).ext.books c = v.ext.books c := by
  unfold Db.withReserve
  split
  · rfl
  · exact v.write_book_ne h

theorem withPosition_book_ne {c : Coin} (h : c ≠ coin) :
    (v.withPosition userId coin).ext.books c = v.ext.books c := by
  unfold Db.withPosition
  split
  · rfl
  · exact v.write_book_ne h

theorem withPosition_reserve (c : Coin) :
    ((v.withPosition userId coin).ext.books c).reserve = (v.ext.books c).reserve := by
  unfold Db.withPosition
  split
  · rfl
  · by_cases hc : c = coin
    · subst hc
      have hb := congrArg LendBook.reserve (v.write_book (.putPosition c userId .fresh))
      exact hb
    · rw [v.write_book_ne hc]

theorem Accrual.book_ne (h : Accrual v coin idx v') {c : Coin} (hc : c ≠ coin) :
    v'.ext.books c = v.ext.books c := by
  cases h
  exact (Db.write_book_ne _ hc).trans (withReserve_book_ne hc)

theorem Accrual.indexes (h : Accrual v coin idx v') : v'.indexes coin = some idx := by
  cases h with
  | @mk r _ _ _ now hr =>
    have hb := congrArg LendBook.reserve (Db.write_book (v.withReserve coin)
      (.updateReserve coin (.accrued idx.liquidityIndex idx.borrowIndex now)))
    exact congrArg (Option.map Reserve.indexes) (hb.trans (congrArg (Option.map _) hr))

theorem Moved.ext_eq {fromWallet toWallet : Uuid} {amount : ℕ} {type : LedgerType} {key : String}
    (h : Moved v fromWallet toWallet amount type key v') : v'.ext = v.ext := by
  obtain ⟨_, _, rfl⟩ := h.entries
  rfl

def ReserveUpdate.KeepsIndexes (u : ReserveUpdate) : Prop := ∀ r, (u.set r).indexes = r.indexes

def LendWrite.KeepsIndexes : LendWrite → Prop
  | .putReserve _ _ => False
  | .updateReserve _ u => u.KeepsIndexes
  | .putPosition _ _ _ | .updatePosition _ _ _ => True

theorem LendWrite.KeepsIndexes.set {w : LendWrite} (hw : w.KeepsIndexes) (b : LendBook) :
    (w.set b).reserve.map Reserve.indexes = b.reserve.map Reserve.indexes := by
  cases w with
  | putReserve _ r => exact hw.elim
  | updateReserve _ u =>
    refine (Option.map_map _ _ _).trans ?_
    exact Option.map_congr fun r _ => hw r
  | putPosition _ userId r => rfl
  | updatePosition _ userId u =>
    simp only [LendWrite.set]
    split <;> rfl

theorem Db.write_indexes {w : LendWrite} (hw : w.KeepsIndexes) (c : Coin) :
    (v.write w).indexes c = v.indexes c := by
  by_cases hc : c = w.coin
  · rw [hc]
    exact (congrArg (fun b : LendBook => b.reserve.map Reserve.indexes) (v.write_book w)).trans
      (hw.set _)
  · exact congrArg (fun b : LendBook => b.reserve.map Reserve.indexes) (v.write_book_ne hc)

/-- The last two writes of an operation leave the indexes. -/
theorem indexes_updated {u : PositionUpdate} {u' : ReserveUpdate} (hu : u'.KeepsIndexes) (c : Coin) :
    ((v.write (.updatePosition coin userId u)).write (.updateReserve coin u')).indexes c =
      v.indexes c :=
  (Db.write_indexes (w := .updateReserve coin u') hu c).trans
    (Db.write_indexes (w := .updatePosition coin userId u) trivial c)

theorem Db.indexes_of_ext (h : v'.ext = v.ext) : v'.indexes coin = v.indexes coin := by
  unfold Db.indexes
  rw [h]

theorem Db.position_of_ext (h : v'.ext = v.ext) (c : Coin) :
    v'.position userId c = v.position userId c := by
  unfold Db.position
  rw [h]

theorem Db.withPosition_indexes (c : Coin) :
    (v.withPosition userId coin).indexes c = v.indexes c :=
  congrArg (Option.map Reserve.indexes) (withPosition_reserve c)

theorem Db.withPosition_position : (v.withPosition userId coin).position userId coin =
    v.position userId coin := by
  conv_lhs => unfold Db.position
  rw [lookup_withPosition]
  rfl

/-- A position there is after an accrual is the one there was. -/
theorem Accrual.position (h : Accrual v coin idx v') (c : Coin) :
    v'.position userId c = v.position userId c := by
  unfold Db.position
  rw [positions_accrual h]

end

/-! ## Repaying all of it -/

section
variable {db db' : Db lendExt} {userId : Uuid} {coin : Coin} {amount : ℕ} {idx : ReserveState}

theorem Repaid.indexes (h : Repaid userId coin amount idx db db') :
    db'.indexes coin = some idx := by
  cases h with
  | mk ha _ _ _ _ _ hm _ =>
    rw [indexes_updated fun _ => rfl, Db.indexes_of_ext hm.ext_eq, Db.withPosition_indexes, ha.indexes]

/-- What a repayment leaves of a position. -/
theorem Repaid.position (h : Repaid userId coin amount idx db db') :
    0 < (db.position userId coin).scaledDebt ∧ ∃ real scaled,
      scaledToAmount (db.position userId coin).scaledDebt idx.borrowIndex = some real ∧
      amountToScaled (min amount real) idx.borrowIndex = some scaled ∧
      (db'.position userId coin).scaledDebt = (db.position userId coin).scaledDebt - scaled := by
  cases h with
  | @mk v₁ v₂ walletId poolId real scaled r ha hw hp hr hdebt hreal hm hs =>
    have hread : r.open.scaledDebt = r.scaledDebt := readU128_ne_default hdebt
    rw [position_accrual ha hr]
    have hr' : (v₂.ext.books coin).positions.lookup userId = some r := by
      rw [hm.ext_eq]
      exact hr
    rw [position_updated hr']
    refine ⟨?_, real, scaled, by rw [← hread]; exact hreal, hs, ?_⟩
    · rw [← hread]
      exact Nat.pos_of_ne_zero hdebt
    · show r.open.scaledDebt - scaled = r.scaledDebt - scaled
      rw [hread]

theorem repaid_of_code (h : Commits (LendOp.repay userId coin amount).code db () db') :
    ∃ idx, Repaid userId coin amount idx db db' := by
  obtain ⟨s, h, rfl⟩ := h
  obtain ⟨n, s₁, h₁, h⟩ := h.of_bind
  cases h
  exact repaid_of_commits ⟨s, h₁, rfl⟩

/-- Floored to units of the coin and back. -/
theorem roundTrip_eq_self_iff {scaled index : ℕ} (hi : 0 < index) :
    scaled - scaled * index / ray * ray / index = 0 ↔ ray ∣ scaled * index := by
  have hle : scaled * index / ray * ray ≤ scaled * index := Nat.div_mul_le_self _ _
  rw [Nat.sub_eq_zero_iff_le, Nat.le_div_iff_mul_le hi]
  exact ⟨fun h => ⟨_, (Nat.mul_comm _ _).trans (le_antisymm hle h) |>.symm⟩,
    fun h => (Nat.div_mul_cancel h).ge⟩

/-- What the two roundings take off is one scaled unit at most. -/
theorem roundTrip_le {scaled index : ℕ} (hi : ray ≤ index) :
    scaled - scaled * index / ray * ray / index ≤ 1 := by
  have hpos : 0 < index := PoolSound.index_pos hi
  have hlt : scaled * index < scaled * index / ray * ray + ray :=
    Nat.lt_div_mul_add (by decide)
  have : scaled ≤ scaled * index / ray * ray / index + 1 := by
    refine Nat.le_of_lt_succ ?_
    rw [← Nat.add_div_right _ hpos]
    refine Nat.lt_succ_of_le ((Nat.le_div_iff_mul_le hpos).2 ?_)
    omega
  omega

/-- Whoever repays all of a debt is left with none if and only if the debt, at the index of the
time, is a whole number of units; else one scaled unit is left. -/
theorem repay_clears_iff (h : Commits (LendOp.repay userId coin amount).code db () db')
    (hi : db'.indexes coin = some idx) (hray : ray ≤ idx.borrowIndex)
    (hfull : (db.position userId coin).scaledDebt * idx.borrowIndex / ray ≤ amount) :
    ((db'.position userId coin).scaledDebt = 0 ↔
      ray ∣ (db.position userId coin).scaledDebt * idx.borrowIndex) ∧
    (db'.position userId coin).scaledDebt ≤ 1 := by
  obtain ⟨idx', hr⟩ := repaid_of_code h
  obtain rfl := Option.some.inj (hi.symm.trans hr.indexes)
  obtain ⟨hpos, real, scaled, hreal, hscaled, hleft⟩ := hr.position
  have hindex := PoolSound.index_pos hray
  obtain rfl := toU128_eq_some hreal
  rw [min_eq_right hfull] at hscaled
  rw [amountToScaled_eq hindex hscaled] at hleft
  rw [hleft]
  exact ⟨roundTrip_eq_self_iff hindex, roundTrip_le hray⟩

/-! User 7 owes three scaled units of BTC, and has enough to pay for them. -/

def owing (borrowIndex : ℕ) : Db lendExt where
  core := {
    now := 0
    wallets := ((∅ : Table Wallet).insert 1 ⟨7, .btc, .personal, none⟩).insert 2
      ⟨9, .btc, .lendPool, none⟩
    ledger := [⟨1, 1000, .deposit, none, none, none, none⟩]
    jobs := ∅
    outbox := []
    auditLogs := [] }
  ext := {
    books := fun _ => ⟨some ⟨ray, borrowIndex, 3, 3, 0⟩, (∅ : Table Position).insert 7 ⟨0, 3, true⟩⟩
    prices := fun _ => some ⟨10 ^ 8, 8, 0⟩
    house := some 9 }

/-- What the repayment of 1000 units leaves, and the indexes at the time. -/
theorem repaid_owing {borrowIndex left : ℕ}
    (h : ((LendOp.repay 7 .btc 1000).solo 0 (owing borrowIndex)).map (fun db' =>
      (db'.indexes .btc, (db'.position 7 .btc).scaledDebt)) = some (some ⟨ray, borrowIndex⟩, left)) :
    ∃ db', Commits (LendOp.repay 7 .btc 1000).code (owing borrowIndex) () db' ∧
      db'.indexes .btc = some ⟨ray, borrowIndex⟩ ∧ (db'.position 7 .btc).scaledDebt = left := by
  obtain ⟨db', hs, he⟩ := Option.map_eq_some_iff.1 h
  obtain ⟨hi, hl⟩ := Prod.mk.inj he
  exact ⟨db', commits_of_solo hs, hi, hl⟩

/-- At an index of a half more than one: of four and a half units four are paid. -/
theorem repaid_residue : ∃ db', Commits (LendOp.repay 7 .btc 1000).code
      (owing (3 * ray / 2 + 1)) () db' ∧
    db'.indexes .btc = some ⟨ray, 3 * ray / 2 + 1⟩ ∧
    ((owing (3 * ray / 2 + 1)).position 7 .btc).scaledDebt * (3 * ray / 2 + 1) / ray ≤ 1000 ∧
    (db'.position 7 .btc).scaledDebt = 1 := by
  have hrun : ((LendOp.repay 7 .btc 1000).solo 0 (owing (3 * ray / 2 + 1))).map (fun db' =>
      (db'.indexes .btc, (db'.position 7 .btc).scaledDebt)) =
      some (some ⟨ray, 3 * ray / 2 + 1⟩, 1) := by
    decide +kernel
  obtain ⟨db', hc, hi, hl⟩ := repaid_owing hrun
  exact ⟨db', hc, hi, by decide, hl⟩

/-- At the index a debt starts with, nothing is left. -/
theorem repaid_cleared : ∃ db', Commits (LendOp.repay 7 .btc 1000).code (owing ray) () db' ∧
    (db'.position 7 .btc).scaledDebt = 0 := by
  have hrun : ((LendOp.repay 7 .btc 1000).solo 0 (owing ray)).map (fun db' =>
      (db'.indexes .btc, (db'.position 7 .btc).scaledDebt)) = some (some ⟨ray, ray⟩, 0) := by
    decide +kernel
  obtain ⟨db', hc, hi, -⟩ := repaid_owing hrun
  have hp : ((owing ray).position 7 .btc).scaledDebt = 3 := rfl
  exact ⟨db', hc, (repay_clears_iff hc hi le_rfl (by rw [hp]; decide)).1.2
    (by rw [hp]; exact Dvd.intro_left 3 rfl)⟩

end

end SatsPay
