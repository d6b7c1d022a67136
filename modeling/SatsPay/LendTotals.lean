import SatsPay.Focus
import SatsPay.LendAmounts
import SatsPay.LendParts
import Mathlib.Algebra.Order.BigOperators.Group.List

/-!
# The totals of a reserve

The positions of a coin are read and written only by who has locked its reserve. Their sums
are the totals of the reserve, and each subtraction is made in full, as long as no
liquidation repays more than the debt.
-/

namespace SatsPay

open Interleave ReadCommitted RowProtocol

/-! ## Sums over a table -/

def tableSum {α : Type} (g : α → ℕ) (t : Table α) : ℕ := (t.entries.map fun e => g e.2).sum

section
variable {α : Type} (g : α → ℕ) {t : Table α} {id : Uuid} {r : α}

theorem tableSum_insert_of_none (h : t.lookup id = none) :
    tableSum g (t.insert id r) = tableSum g t + g r := by
  have hk : id ∉ t.entries.keys := AList.lookup_eq_none.1 h
  have he : (t.insert id r).entries = ⟨id, r⟩ :: t.entries := by
    rw [AList.entries_insert, List.kerase_of_notMem_keys hk]
  rw [tableSum, he, List.map_cons, List.sum_cons, add_comm]
  rfl

theorem tableSum_insert_of_some (r' : α) (h : t.lookup id = some r) :
    tableSum g (t.insert id r') + g r = tableSum g t + g r' := by
  have hk : id ∈ t.entries.keys := AList.lookup_isSome.1 (by rw [h]; rfl)
  obtain ⟨b, l₁, l₂, -, hl, he⟩ := List.exists_of_kerase hk
  obtain rfl : b = r := by
    have := (AList.mem_lookup_iff (s := t)).2 (by rw [hl]; simp : (⟨id, b⟩ : Sigma _) ∈ t.entries)
    exact Option.some.inj (this.symm.trans h)
  have hi : (t.insert id r').entries = ⟨id, r'⟩ :: (l₁ ++ l₂) := by rw [AList.entries_insert, he]
  simp only [tableSum, hi, hl, List.map_cons, List.map_append, List.sum_cons, List.sum_append]
  omega

end

/-! ## The two sides of a book -/

inductive LendSide where
  | supply
  | debt
  deriving DecidableEq, Repr

def LendSide.total : LendSide → Reserve → ℕ
  | .supply => Reserve.totalScaledSupply
  | .debt => Reserve.totalScaledDebt

def LendSide.scaled : LendSide → Position → ℕ
  | .supply => Position.scaledSupply
  | .debt => Position.scaledDebt

/-- What the reserve says there is; a reserve without a row has nothing. -/
def LendBook.total (side : LendSide) (b : LendBook) : ℕ := (b.reserve.map side.total).getD 0

def LendBook.sum (side : LendSide) (b : LendBook) : ℕ := tableSum side.scaled b.positions

/-- What an update adds to the totals, and nothing is cut off at zero. -/
def ReserveUpdate.change : ReserveUpdate → LendSide → ℤ
  | .addSupply n, .supply => n
  | .subSupply n, .supply => -n
  | .addDebt n, .debt => n
  | .subDebt n, .debt => -n
  | _, _ => 0

def openChange (coin : Coin) (side : LendSide) : List (Did (sig (satsPay lendExt))) → ℤ
  | [] => 0
  | ⟨.begin, _⟩ :: _ => 0
  | ⟨.tx (.ext (.updateReserve c u)), .ok _⟩ :: t =>
    (if c = coin then u.change side else 0) + openChange coin side t
  | _ :: t => openChange coin side t

/-- What the updates of all committed transactions add. -/
def booked (coin : Coin) (side : LendSide) : Hist (sig (satsPay lendExt)) → ℤ
  | [] => 0
  | .did p .commit (.ok _) :: h => openChange coin side (doneBy p h) + booked coin side h
  | _ :: h => booked coin side h

/-! ## Amounts -/

/-- A liquidation repays no more than the debt and seizes no more than the collateral. -/
theorem liquidationAmounts_le {prices : PriceTable} {debtCoin collateralCoin : Coin}
    {amount closeFactorBps debtReal collReal : ℕ} (hc : closeFactorBps ≤ 10000) :
    (liquidationAmounts prices debtCoin collateralCoin amount closeFactorBps debtReal collReal).1 ≤
        debtReal ∧
      (liquidationAmounts prices debtCoin collateralCoin amount closeFactorBps debtReal
        collReal).2 ≤ collReal := by
  obtain ⟨hrepay, hseize⟩ := liquidationAmounts_le_min prices debtCoin collateralCoin amount
    closeFactorBps debtReal collReal
  refine ⟨(hrepay.trans (min_le_right _ _)).trans (Nat.div_le_of_le_mul ?_), hseize⟩
  rw [Nat.mul_comm]
  exact Nat.mul_le_mul_right _ hc

/-! ## One book -/

def lendFocus (coin : Coin) : Focus lendExt where
  View := LendBook
  see db := db.ext.books coin
  act
    | .ext w => if w.coin = coin then w.set else id
    | .core _ => id
  see_apply w db := by
    cases w with
    | core w => rfl
    | ext w =>
      by_cases h : w.coin = coin
      · subst h
        simp only [if_true]
        exact db.ext.onBook_self _ _
      · simp only [if_neg h]
        exact db.ext.onBook_ne (Ne.symm h) _
  see_tick := by
    rintro db _ ⟨t, -, rfl⟩
    rfl

theorem acts_lend {coin : Coin} {w : LendWrite} (h : w.coin = coin) :
    (lendFocus coin).acts [.ext w] = w.set := by
  rw [Focus.acts_one]
  exact if_pos h

def LendStmt.Besides (coin : Coin) : LendStmt → Prop
  | .insertReserve c | .updateReserve c _ | .insertPosition _ c | .updatePosition _ c _ => c ≠ coin
  | _ => True

theorem lendAside {coin : Coin} {st : LendStmt} (h : st.Besides coin) :
    (lendFocus coin).Aside (.ext st) := by
  have other (w : LendWrite) (hw : w.coin ≠ coin) : (lendFocus coin).acts [.ext w] = id := by
    rw [Focus.acts_one]
    exact if_neg hw
  intro db a ws he
  obtain ⟨ws', he', rfl⟩ := ext_eval_ok he
  change Except.ok (a, ws') ∈ LendStmt.eval st db.core db.ext at he'
  cases st with
  | insertReserve c | insertPosition u c =>
    simp only [LendStmt.eval] at he'
    split at he'
    · cases List.mem_singleton.1 he'
    · cases List.mem_singleton.1 he'
      exact other _ h
  | updateReserve c u | updatePosition u c up =>
    simp only [LendStmt.eval] at he'
    split at he'
    · split at he'
      · cases List.mem_singleton.1 he'
        exact other _ h
      · cases List.mem_singleton.1 he'
    · cases List.mem_singleton.1 he'
      rfl
  | _ => cases List.mem_singleton.1 he'; rfl

theorem lendAside_core {coin : Coin} (st : CoreStmt) : (lendFocus coin).Aside (.core st) := by
  intro db a ws he
  obtain ⟨ws', -, rfl⟩ := core_eval_ok he
  clear he
  induction ws' with
  | nil => rfl
  | cons w ws ih =>
    rw [List.map_cons, ← List.singleton_append, Focus.acts_append, ih, Focus.acts_one]
    rfl

theorem lend_not_entry {st : LendStmt} (input : LedgerCreditInput) :
    (Stmt.ext st : Stmt lendExt) ≠ .core (.insertLedgerEntry input) := by simp

/-! ## The plan for a book -/

/-- The totals of a book change by `k`, and the sums of its positions by `d`. -/
structure Changes (k d : LendSide → ℤ) (b b' : LendBook) : Prop where
  total : ∀ side, (b'.total side : ℤ) = b.total side + k side
  sum : ∀ side, (b'.sum side : ℤ) = b.sum side + d side
  reserve : b.reserve.isSome → b'.reserve.isSome

theorem Changes.refl (b : LendBook) : Changes 0 0 b b := ⟨by simp, by simp, id⟩

section
variable {k d e : LendSide → ℤ} {b b' : LendBook} (coin : Coin)

/-- An update of the totals that is made in full. -/
theorem Changes.updateReserve {u : ReserveUpdate} (h : Changes k d b b') (hr : b'.reserve.isSome)
    (hu : ∀ side, 0 ≤ (b'.total side : ℤ) + u.change side) :
    Changes (k + u.change) d b ((LendWrite.updateReserve coin u).set b') where
  total side := by
    obtain ⟨r, hr⟩ := Option.isSome_iff_exists.1 hr
    have ht := h.total side
    have hs := hu side
    rw [Pi.add_apply]
    simp only [LendBook.total, LendWrite.set, hr, Option.map_some, Option.getD_some] at ht hs ⊢
    cases u <;> cases side <;>
      simp only [ReserveUpdate.set, ReserveUpdate.change, LendSide.total] at hs ht ⊢ <;> omega
  sum := h.sum
  reserve _ := by
    show (b'.reserve.map u.set).isSome
    rwa [Option.isSome_map]

/-- An update of a position that there is. -/
theorem Changes.updatePosition {userId : Uuid} {u : PositionUpdate} {r : Position}
    (h : Changes k d b b') (hr : b'.positions.lookup userId = some r)
    (hu : ∀ side, (side.scaled (u.set r) : ℤ) = side.scaled r + e side) :
    Changes k (d + e) b ((LendWrite.updatePosition coin userId u).set b') where
  total side := by
    have hb : ((LendWrite.updatePosition coin userId u).set b').reserve = b'.reserve := by
      simp only [LendWrite.set, hr]
    rw [← h.total side]
    unfold LendBook.total
    rw [hb]
  sum side := by
    have hs := h.sum side
    have he := hu side
    have hi := tableSum_insert_of_some side.scaled (u.set r) hr
    simp only [LendBook.sum, LendWrite.set, hr, Pi.add_apply] at hs ⊢
    omega
  reserve hb := by
    simp only [LendWrite.set, hr]
    exact h.reserve hb

/-- A new position has nothing. -/
theorem Changes.putPosition {userId : Uuid} (h : Changes k d b b')
    (hn : b'.positions.lookup userId = none) :
    Changes k d b ((LendWrite.putPosition coin userId .fresh).set b') where
  total := h.total
  sum side := by
    have hs := h.sum side
    have hi := tableSum_insert_of_none side.scaled (r := .fresh) hn
    have hz : side.scaled .fresh = 0 := by cases side <;> rfl
    simp only [LendBook.sum, LendWrite.set] at hs ⊢
    omega
  reserve := h.reserve

/-- A new reserve has nothing. -/
theorem Changes.putReserve {now : Instant} (h : Changes k d b b') (hn : b'.reserve = none) :
    Changes k d b ((LendWrite.putReserve coin (.fresh now)).set b') where
  total side := by
    have ht := h.total side
    have hz : side.total (.fresh now) = 0 := by cases side <;> rfl
    simp only [LendBook.total, LendWrite.set, hn, Option.map_none, Option.map_some,
      Option.getD_none, Option.getD_some, hz] at ht ⊢
    exact ht
  sum := h.sum
  reserve _ := rfl

end

/-- The totals are the sums of the positions, and what has been booked on them. -/
structure LendBook.Tallies (b : LendBook) (coin : Coin) (start : LendSide → ℤ)
    (h : Hist (sig (satsPay lendExt))) : Prop where
  total_eq_sum : ∀ side, b.total side = b.sum side
  total_eq_booked : ∀ side, (b.total side : ℤ) = start side + booked coin side h

def BooksNothing (e : Event (sig (satsPay lendExt))) : Prop := ∀ p, e ≠ .did p .commit (.ok ())

theorem booked_of_booksNothing {e : Event (sig (satsPay lendExt))} (he : BooksNothing e)
    (coin : Coin) (side : LendSide) (h : Hist (sig (satsPay lendExt))) :
    booked coin side (e :: h) = booked coin side h := by
  cases e with
  | did p o r =>
    cases o with
    | commit =>
      cases r with
      | ok a => exact absurd rfl (he p)
      | error e => rfl
    | _ => rfl
  | _ => rfl

theorem LendBook.Tallies.nothing {b : LendBook} {coin : Coin} {start : LendSide → ℤ}
    {h : Hist (sig (satsPay lendExt))} {e : Event (sig (satsPay lendExt))} (he : BooksNothing e)
    (hb : b.Tallies coin start h) : b.Tallies coin start (e :: h) :=
  ⟨hb.total_eq_sum, fun side => by rw [booked_of_booksNothing he, hb.total_eq_booked]⟩

theorem LendBook.Tallies.commit {b b' : LendBook} {coin : Coin} {start k : LendSide → ℤ}
    {h : Hist (sig (satsPay lendExt))} {p : Nat} (hb : b.Tallies coin start h)
    (hc : Changes k k b b') (hk : ∀ side, openChange coin side (doneBy p h) = k side) :
    b'.Tallies coin start (.did p .commit (.ok ()) :: h) where
  total_eq_sum side := by
    have := hb.total_eq_sum side
    have := hc.total side
    have := hc.sum side
    omega
  total_eq_booked side := by
    show _ = start side + (openChange coin side (doneBy p h) + booked coin side h)
    have := hb.total_eq_booked side
    have := hc.total side
    have := hk side
    omega

def totalsPlan (coin : Coin) (start : LendSide → ℤ) :
    Plan (lendFocus coin) fun _ _ _ => True where
  inv b h := LendBook.Tallies b coin start h
  rel _ b _ b' _ := LendBook.reserve b |>.isSome → (LendBook.reserve b').isSome
  done _ _ _ := True
  quiet := BooksNothing
  rel_refl _ _ _ := id
  rel_trans _ _ _ _ _ _ _ h₁ h₂ h := h₂ (h₁ h)
  quiet_begin _ _ _ := by simp
  quiet_rollback _ _ := by simp
  quiet_tx _ _ _ _ := by simp
  quiet_commit _ _ _ := by simp
  inv_quiet he hb := hb.nothing he
  rel_quiet _ _ _ := id
  finish hb _ _ := ⟨hb.nothing fun _ => by simp, fun _ _ => id⟩
  crash hb _ := ⟨hb.nothing fun _ => by simp, fun _ _ => id⟩
  tick hb _ := ⟨hb.nothing fun _ => by simp, fun _ => id⟩

/-! ## Statements on the book -/

section
variable {coin : Coin} {start : LendSide → ℤ} {p : Nat}
variable {f : LendBook → LendBook} {A : Plan.KeyAssertion lendExt} {φ ψ : LendBook → Prop}

def Held (coin : Coin) (φ : LendBook → Prop) : Plan.KeyAssertion lendExt := fun ks db _ =>
  Key.ext (X := lendExt) coin ∈ ks ∧ φ (db.ext.books coin)

theorem keeps_held : (totalsPlan coin start).Keeps p (Held coin φ) :=
  Plan.keeps_row (.ext (X := lendExt) coin) φ

/-- Rows are not removed. -/
theorem keeps_reserve :
    (totalsPlan coin start).Keeps p fun _ db _ => (db.ext.books coin).reserve.isSome where
  framed := ⟨fun _ _ _ _ _ _ hg _ hr _ _ => hr.2 hg, fun _ _ _ _ _ _ _ hg => hg⟩
  mono _ _ _ _ hg := hg

/-- A statement that writes one row of the book, whose reserve it locks. -/
theorem triple_lendWrite (hA : (totalsPlan coin start).Keeps p A) (st : LendStmt)
    (hl : ∀ c db, coin ∈ st.locks c db) {ι : Type} (w : ι → LendWrite)
    (hw : ∀ x, (w x).coin = coin) {ψ : ι → LendBook → Prop}
    (hok : ∀ ks db h c v a ws, LendBook.Tallies (db.ext.books coin) coin start h → A ks db h →
      v.books coin = f (db.ext.books coin) → .ok (a, ws) ∈ st.eval c v →
      ∃ x, ws = [w x] ∧ ψ x (db.ext.books coin)) :
    (totalsPlan coin start).Keeping p (InTx p (Plan.Eff (lendFocus coin) f A))
      (lendQuery st : Lend LendError _)
      (outcome (fun _ c => ∃ x, InTx p (Plan.Eff (lendFocus coin) ((w x).set ∘ f)
        (Held coin (ψ x))) c) fun _ => InTx p fun _ => A) := by
  refine Plan.triple_effect (ε := LendError) (.ext st) lend_not_entry hA (g := fun _ x => (w x).set)
    (C := fun _ x => Held coin (ψ x)) (fun _ _ => keeps_held) ?_
  intro ws ks db h a ws' hi hg he
  obtain ⟨ws'', he', rfl⟩ := ext_eval_ok he
  obtain ⟨x, rfl, hx⟩ := hok ks db h _ _ a ws'' hi hg.left hg.see he'
  exact ⟨x, acts_lend (hw x),
    List.mem_append_right _ (List.mem_map_of_mem (hl (viewOf ws db).core (viewOf ws db).ext)), hx⟩

/-- An update of the reserve, of which there is a row. -/
theorem triple_updateReserve (hA : (totalsPlan coin start).Keeps p A) (u : ReserveUpdate)
    (hψ : ∀ ks db h, LendBook.Tallies (db.ext.books coin) coin start h → A ks db h →
      (f (db.ext.books coin)).reserve.isSome ∧ ψ (db.ext.books coin)) :
    (totalsPlan coin start).Keeping p (InTx p (Plan.Eff (lendFocus coin) f A))
      (lendQuery (.updateReserve coin u) : Lend LendError Unit)
      (outcome (fun _ c => ∃ _ : Unit, InTx p (Plan.Eff (lendFocus coin)
        ((LendWrite.updateReserve coin u).set ∘ f) (Held coin ψ)) c) fun _ => InTx p fun _ => A) := by
  refine triple_lendWrite hA (.updateReserve coin u) (fun _ _ => List.mem_singleton_self _)
    (fun _ => .updateReserve coin u) (fun _ => rfl) (ψ := fun _ => ψ) ?_
  intro ks db h c v a ws hi ha hv he
  obtain ⟨hr, hb⟩ := hψ ks db h hi ha
  refine ⟨(), ?_, hb⟩
  simp only [LendStmt.eval, hv] at he
  split at he
  · split at he
    · cases List.mem_singleton.1 he
      rfl
    · cases List.mem_singleton.1 he
  · rename_i hn
    rw [hn] at hr
    cases hr

/-- An update of a position, of which there is a row. -/
theorem triple_updatePosition (hA : (totalsPlan coin start).Keeps p A) (userId : Uuid)
    (u : PositionUpdate)
    (hψ : ∀ ks db h, LendBook.Tallies (db.ext.books coin) coin start h → A ks db h →
      ((f (db.ext.books coin)).positions.lookup userId).isSome ∧ ψ (db.ext.books coin)) :
    (totalsPlan coin start).Keeping p (InTx p (Plan.Eff (lendFocus coin) f A))
      (lendQuery (.updatePosition userId coin u) : Lend LendError Unit)
      (outcome (fun _ c => ∃ _ : Unit, InTx p (Plan.Eff (lendFocus coin)
        ((LendWrite.updatePosition coin userId u).set ∘ f) (Held coin ψ)) c)
        fun _ => InTx p fun _ => A) := by
  refine triple_lendWrite hA (.updatePosition userId coin u)
    (fun _ _ => List.mem_singleton_self _) (fun _ => .updatePosition coin userId u) (fun _ => rfl)
    (ψ := fun _ => ψ) ?_
  intro ks db h c v a ws hi ha hv he
  obtain ⟨hr, hb⟩ := hψ ks db h hi ha
  refine ⟨(), ?_, hb⟩
  simp only [LendStmt.eval, hv] at he
  split at he
  · split at he
    · cases List.mem_singleton.1 he
      rfl
    · cases List.mem_singleton.1 he
  · rename_i hn
    rw [hn] at hr
    cases hr

/-- A new row for the reserve. -/
theorem triple_insertReserve (hA : (totalsPlan coin start).Keeps p A)
    (hψ : ∀ ks db h, A ks db h → (f (db.ext.books coin)).reserve = none → ψ (db.ext.books coin)) :
    (totalsPlan coin start).Keeping p (InTx p (Plan.Eff (lendFocus coin) f A))
      (lendQuery (.insertReserve coin) : Lend LendError Unit)
      (outcome (fun _ c => ∃ now : Instant, InTx p (Plan.Eff (lendFocus coin)
        ((LendWrite.putReserve coin (.fresh now)).set ∘ f) (Held coin ψ)) c)
        fun _ => InTx p fun _ => A) := by
  refine triple_lendWrite hA (.insertReserve coin) (fun _ _ => List.mem_singleton_self _)
    (fun now => .putReserve coin (.fresh now)) (fun _ => rfl) (ψ := fun _ => ψ) ?_
  intro ks db h c v a ws hi ha hv he
  simp only [LendStmt.eval, hv] at he
  split at he
  · cases List.mem_singleton.1 he
  · rename_i hn
    cases List.mem_singleton.1 he
    exact ⟨_, rfl, hψ ks db h ha (by simpa using hn)⟩

/-- A new row for a position. -/
theorem triple_insertPosition (hA : (totalsPlan coin start).Keeps p A) (userId : Uuid)
    (hψ : ∀ ks db h, A ks db h → (f (db.ext.books coin)).positions.lookup userId = none →
      ψ (db.ext.books coin)) :
    (totalsPlan coin start).Keeping p (InTx p (Plan.Eff (lendFocus coin) f A))
      (lendQuery (.insertPosition userId coin) : Lend LendError Unit)
      (outcome (fun _ c => ∃ _ : Unit, InTx p (Plan.Eff (lendFocus coin)
        ((LendWrite.putPosition coin userId .fresh).set ∘ f) (Held coin ψ)) c)
        fun _ => InTx p fun _ => A) := by
  refine triple_lendWrite hA (.insertPosition userId coin)
    (fun _ _ => List.mem_singleton_self _) (fun _ => .putPosition coin userId .fresh)
    (fun _ => rfl) (ψ := fun _ => ψ) ?_
  intro ks db h c v a ws hi ha hv he
  simp only [LendStmt.eval, hv] at he
  split at he
  · cases List.mem_singleton.1 he
  · rename_i hn
    cases List.mem_singleton.1 he
    exact ⟨(), rfl, hψ ks db h ha (by simpa using hn)⟩

/-! ## Functions on the book -/

/-- The process is in its transaction, and its updates so far change the totals by `k`. -/
def Tracked (coin : Coin) (p : Nat) (f : LendBook → LendBook) (A : Plan.KeyAssertion lendExt)
    (k : LendSide → ℤ) (c : Conf (machine (satsPay lendExt))) : Prop :=
  InTx p (Plan.Eff (lendFocus coin) f A) c ∧
    ∀ side, openChange coin side (doneBy p c.hist) = k side

theorem openChange_stable {k : LendSide → ℤ} {l l' : Hist (sig (satsPay lendExt))}
    (he : ReadCommitted.Ext (satsPay lendExt) p l l')
    (h : ∀ side, openChange coin side (doneBy p l) = k side) :
    ∀ side, openChange coin side (doneBy p l') = k side := by
  obtain ⟨m, rfl, hm⟩ := he
  induction m with
  | nil => exact h
  | cons e m ih =>
    rw [List.cons_append, doneBy_of_ne (hm e List.mem_cons_self)]
    exact ih fun e he => hm e (List.mem_cons_of_mem _ he)

def SparesTotals (coin : Coin) (o : Op (satsPay lendExt)) : Prop :=
  ∀ r t side, openChange coin side (⟨o, r⟩ :: t) = openChange coin side t

structure Bystands (coin : Coin) (start : LendSide → ℤ) (p : Nat) {ε α : Type} (x : Lend ε α) :
    Prop where
  aloof : (totalsPlan coin start).Aloof p x
  spares : Within (SparesTotals coin) x

abbrev Proceeds (coin : Coin) (start : LendSide → ℤ) (p : Nat)
    (S : Conf (machine (satsPay lendExt)) → Prop) {α : Type} (x : Lend LendError α) : Prop :=
  (totalsPlan coin start).Keeping p S x fun _ _ => True

theorem Proceeds.throw {S : Conf (machine (satsPay lendExt)) → Prop} {α : Type} (e : LendError) :
    Proceeds coin start p S (.throw e : Lend LendError α) :=
  Protocol.Triple.throw fun _ _ _ => trivial

theorem Proceeds.ret {S : Conf (machine (satsPay lendExt)) → Prop} {α : Type} (a : α) :
    Proceeds coin start p S (.ret a : Lend LendError α) :=
  Protocol.Triple.ret fun _ _ _ => trivial

/-- What `x` leaves is what the rest starts from. -/
theorem Proceeds.bind {S : Conf (machine (satsPay lendExt)) → Prop} {α β : Type}
    {x : Lend LendError α} {g : α → Lend LendError β}
    {T : α → Conf (machine (satsPay lendExt)) → Prop}
    {E : LendError → Conf (machine (satsPay lendExt)) → Prop}
    (hx : (totalsPlan coin start).Keeping p S x (outcome T E))
    (hg : ∀ a, Proceeds coin start p (T a) (g a)) : Proceeds coin start p S (x >>= g) :=
  Protocol.Triple.bind hx hg fun _ _ _ _ => trivial

theorem Proceeds.orPanic {S : Conf (machine (satsPay lendExt)) → Prop} {α β : Type} {o : Option α}
    {g : α → Lend LendError β} (hg : ∀ a, o = some a → Proceeds coin start p S (g a)) :
    Proceeds coin start p S (orPanic o >>= g) := by
  cases o with
  | none => exact .throw _
  | some a => exact hg a rfl

/-- A step that only concerns the transaction's view, where the totals are spared. -/
theorem triple_tracked {k : LendSide → ℤ} {α : Type} {x : Lend LendError α}
    {Q : Except LendError α → Conf (machine (satsPay lendExt)) → Prop}
    (hx : (totalsPlan coin start).Keeping p (InTx p (Plan.Eff (lendFocus coin) f A)) x Q)
    (hs : Within (SparesTotals coin) x) :
    (totalsPlan coin start).Keeping p (Tracked coin p f A k) x fun r c => Q r c ∧
      ∀ side, openChange coin side (doneBy p c.hist) = k side := by
  refine Protocol.Triple.also (T := fun h => ∀ side, openChange coin side (doneBy p h) = k side) hx
    (fun _ _ hr h => openChange_stable hr.ext h) fun t => (hs t).imp ?_
  intro t o ho r h hT side
  rw [doneBy_self, ho]
  exact hT side

theorem Bystands.step {k : LendSide → ℤ} {α β : Type} {x : Lend LendError α}
    {g : α → Lend LendError β} (hx : Bystands coin start p x)
    (hA : (totalsPlan coin start).Keeps p A)
    (hg : ∀ a, Proceeds coin start p (Tracked coin p f A k) (g a)) :
    Proceeds coin start p (Tracked coin p f A k) (x >>= g) :=
  Protocol.Triple.bind (triple_tracked (hx.aloof f A hA) hx.spares) hg fun _ _ _ _ => trivial

/-- An update that changes no total. -/
theorem sparesTotals_update {c : Coin} {u : ReserveUpdate}
    (h : c ≠ coin ∨ ∀ side, u.change side = 0) :
    SparesTotals coin (.tx (.ext (LendStmt.updateReserve c u))) := by
  intro r t side
  cases r with
  | error e => rfl
  | ok a =>
    show (if c = coin then u.change side else 0) + _ = _
    rcases h with h | h
    · rw [if_neg h, zero_add]
    · rw [h, ite_self, zero_add]

theorem bystands_lendQuery {ε : Type} [FromErr DbError ε] {st : LendStmt} (h : st.Besides coin) :
    Bystands coin start p (lendQuery st : Lend ε _) where
  aloof := Plan.aloof_query (.ext st) lend_not_entry (lendAside h)
  spares := within_lendQuery <| by
    cases st with
    | updateReserve c u => exact sparesTotals_update (.inl h)
    | _ => exact fun _ _ _ => rfl

theorem lookups_bystands : Lookups fun _ _ x => Bystands coin start p x where
  ret a := ⟨.ret a, .ret a⟩
  throw e := ⟨.throw e, .throw e⟩
  bind hx hf := ⟨hx.aloof.bind fun a => (hf a).aloof, hx.spares.bind fun a => (hf a).spares⟩
  mapErr g hx := ⟨hx.aloof.mapErr g, hx.spares.mapErr g⟩
  utcNow := ⟨Plan.aloof_invoke _ fun r q => by simp,
    free_invoke (S := satsPay lendExt) fun _ _ _ _ => rfl⟩
  core st hst := ⟨Plan.aloof_query (.core st) (by simpa using hst) (lendAside_core st),
    free_query (S := satsPay lendExt) fun _ _ _ _ => rfl⟩
  lockReserve _ := bystands_lendQuery trivial
  reserve _ := bystands_lendQuery trivial
  findHouse := bystands_lendQuery trivial
  position _ _ := bystands_lendQuery trivial
  positions _ := bystands_lendQuery trivial
  price _ := bystands_lendQuery trivial

theorem lookups_sparesTotals : Lookups fun _ _ x => Within (SparesTotals coin) x :=
  AllowsLookups.lookups
    { core := fun _ _ _ _ _ => rfl
      lockReserve := fun _ _ _ _ => rfl
      reserve := fun _ _ _ _ => rfl
      findHouse := fun _ _ _ => rfl
      position := fun _ _ _ _ _ => rfl
      positions := fun _ _ _ _ => rfl
      price := fun _ _ _ _ => rfl
      call := fun _ _ _ _ => rfl }

theorem bystands_apply (input : LedgerCreditInput) :
    Bystands coin start p ((applyLedgerEntry input).mapErr LendError.ledger : Lend LendError Unit) :=
  ⟨Plan.aloof_apply (fun _ => rfl) _, (lookups_sparesTotals.applyLedgerEntry
    (free_query (S := satsPay lendExt) fun _ _ _ _ => rfl)).mapErr _⟩

theorem bystands_accrue {c : Coin} (h : c ≠ coin) : Bystands coin start p (accrue c) :=
  lookups_bystands.accrue (bystands_lendQuery h) fun _ _ _ => bystands_lendQuery h

theorem bystands_updateReserve {c : Coin} (h : c ≠ coin) {u : ReserveUpdate} :
    Bystands coin start p (lendQuery (.updateReserve c u) : Lend LendError Unit) :=
  bystands_lendQuery h

theorem bystands_updatePosition {c : Coin} (h : c ≠ coin) {userId : Uuid} {u : PositionUpdate} :
    Bystands coin start p (lendQuery (.updatePosition userId c u) : Lend LendError Unit) :=
  bystands_lendQuery h

theorem bystands_getOrCreatePosition {c : Coin} (h : c ≠ coin) (userId : Uuid) :
    Bystands coin start p (getOrCreatePosition userId c) :=
  lookups_bystands.getOrCreatePosition (bystands_lendQuery h)

/-! ## Functions on the book -/

/-- The book as the transaction has it: what has changed, and that there is a reserve. -/
structure Standing (k d : LendSide → ℤ) (f : LendBook → LendBook) (φ : LendBook → Prop)
    (b : LendBook) : Prop where
  changes : Changes k d b (f b)
  reserve : (f b).reserve.isSome
  seen : φ (f b)

theorem Bystands.pass {α β : Type} {x : Lend LendError α} {g : α → Lend LendError β}
    {T : β → Conf (machine (satsPay lendExt)) → Prop} (hx : Bystands coin start p x)
    (hA : (totalsPlan coin start).Keeps p A)
    (hg : ∀ a, (totalsPlan coin start).Keeping p (InTx p (Plan.Eff (lendFocus coin) f A)) (g a)
      (outcome T fun _ _ => True)) :
    (totalsPlan coin start).Keeping p (InTx p (Plan.Eff (lendFocus coin) f A)) (x >>= g)
      (outcome T fun _ _ => True) :=
  Protocol.Triple.bind (hx.aloof f A hA) hg fun _ _ _ _ => trivial

/-- The row of the reserve, or a new one. -/
theorem triple_openReserve {row : Option Reserve} :
    (totalsPlan coin start).Keeping p (InTx p (Plan.Eff (lendFocus coin) id
        fun _ db _ => row.isSome → (db.ext.books coin).reserve.isSome))
      (openReserve coin row)
      (outcome (fun _ c => ∃ fA : (LendBook → LendBook) × Plan.KeyAssertion lendExt,
        ((totalsPlan coin start).Keeps p fA.2 ∧ ∀ ks db h, fA.2 ks db h →
          Standing 0 0 fA.1 (fun _ => True) (db.ext.books coin)) ∧
        InTx p (Plan.Eff (lendFocus coin) fA.1 fA.2) c) fun _ _ => True) := by
  cases row with
  | some r =>
    refine Protocol.Triple.ret fun c _ h => ⟨(id, fun _ db _ => (db.ext.books coin).reserve.isSome),
      ⟨keeps_reserve, fun ks db h hr => ⟨.refl _, hr, trivial⟩⟩, ?_⟩
    exact Plan.inTx_imp (fun _ _ _ h => h rfl) h
  | none =>
    have hA := Plan.keeps_fact (P := totalsPlan coin start) (p := p) True
    refine Protocol.Triple.bind (.conseq (triple_insertReserve hA (f := id)
      (ψ := fun b => b.reserve = none) fun _ _ _ _ h => h)
      (fun _ _ h => Plan.inTx_imp (fun _ _ _ _ => trivial) h) fun _ _ _ h => h) (fun _ => ?_)
      fun _ _ _ _ => trivial
    have hnone : (totalsPlan coin start).Keeps p (Held coin fun b => b.reserve = none) := keeps_held
    refine .of_exists fun now => lookups_bystands.utcNow.pass keeps_held fun _ => ?_
    exact Protocol.Triple.ret fun c _ h => ⟨((LendWrite.putReserve coin (.fresh now)).set,
      Held coin fun b => b.reserve = none), ⟨hnone, fun ks db h hb =>
        ⟨(Changes.refl _).putReserve coin hb.2, rfl, trivial⟩⟩, h⟩

/-- After `accrue` the reserve is there and locked, and the totals are as they were. -/
theorem triple_accrue :
    (totalsPlan coin start).Keeping p (InTx p (Plan.Eff (lendFocus coin) id fun _ _ _ => True))
      (accrue coin) (outcome (fun _ c => ∃ f, InTx p (Plan.Eff (lendFocus coin) f
        (Held coin (Standing 0 0 f fun _ => True))) c) fun _ _ => True) := by
  have hT := Plan.keeps_fact (P := totalsPlan coin start) (p := p) True
  refine (lookups_bystands.lockReserve coin).pass hT fun _ => ?_
  have hφ (row : Option Reserve) : (totalsPlan coin start).Keeps p
      fun _ db _ => row.isSome → (db.ext.books coin).reserve.isSome :=
    { framed := ⟨fun _ _ _ _ _ _ hg _ hr _ _ h => hr.2 (hg h), fun _ _ _ _ _ _ _ hg => hg⟩
      mono := fun _ _ _ _ hg => hg }
  have read : (totalsPlan coin start).Keeping p
      (InTx p (Plan.Eff (lendFocus coin) id fun _ _ _ => True))
      (lendQuery (.reserve coin) : Lend LendError (Option Reserve))
      (outcome (fun row => InTx p (Plan.Eff (lendFocus coin) id fun _ db _ =>
        True ∧ (row.isSome → (db.ext.books coin).reserve.isSome)))
        fun _ => InTx p fun _ _ _ _ => True) := by
    have aside : (lendFocus coin).Aside (.ext (LendStmt.reserve coin)) := lendAside trivial
    refine Plan.triple_reading (Stmt.ext (X := lendExt) (LendStmt.reserve coin)) lend_not_entry aside
      (φ := fun (row : Option Reserve) _ db _ => row.isSome → (db.ext.books coin).reserve.isSome)
      hT hφ fun ws ks db h row ws' _ hg he hr => ?_
    obtain ⟨rfl, -⟩ := ext_eval_one rfl he
    have hs : (viewOf ws db).ext.books coin = db.ext.books coin := hg.see
    rwa [← hs]
  refine Protocol.Triple.bind read (fun row => ?_) fun _ _ _ _ => trivial
  refine Protocol.Triple.bind (.conseq triple_openReserve
    (fun _ _ h => Plan.inTx_imp (fun _ _ _ h => h.2) h) fun _ _ _ h => h) (fun open' => ?_)
    fun _ _ _ _ => trivial
  refine .of_exists fun fA => .of_pure fun ⟨hA, hst⟩ => ?_
  refine lookups_bystands.utcNow.pass hA fun now => ?_
  refine (lookups_bystands.orPanic _).pass hA fun realDebt => ?_
  refine (lookups_bystands.getLendPoolWalletIdTx coin).pass hA fun poolId => ?_
  refine (lookups_bystands.readBalance poolId).pass hA fun available => ?_
  refine (lookups_bystands.orPanic _).pass hA fun fresh => ?_
  have hz : (0 : LendSide → ℤ) + (ReserveUpdate.accrued fresh.liquidityIndex fresh.borrowIndex
      now).change = 0 := funext fun side => by cases side <;> rfl
  refine Protocol.Triple.bind (triple_updateReserve hA _
    (ψ := Standing 0 0 (fun b => (LendWrite.updateReserve coin (.accrued fresh.liquidityIndex
      fresh.borrowIndex now)).set (fA.1 b)) fun _ => True) fun ks db h _ ha => ?_)
    (fun _ => .of_exists fun _ => .ret fun _ _ h => ⟨_, h⟩) fun _ _ _ _ => trivial
  obtain ⟨hc, hr, -⟩ := hst ks db h ha
  refine ⟨hr, ?_, ?_, trivial⟩
  · rw [← hz]
    refine hc.updateReserve coin hr fun side => ?_
    cases side <;> simp only [ReserveUpdate.change, add_zero, Nat.cast_nonneg]
  · show ((fA.1 _).reserve.map _).isSome
    rwa [Option.isSome_map]

section
variable {k d : LendSide → ℤ} {userId : Uuid} {r : Position}

/-- The position a transaction has made or found. -/
theorem triple_getOrCreatePosition :
    (totalsPlan coin start).Keeping p
      (InTx p (Plan.Eff (lendFocus coin) f (Held coin (Standing k d f φ))))
      (getOrCreatePosition userId coin)
      (outcome (fun a c => ∃ fr : (LendBook → LendBook) × Position, a = fr.2.open ∧
        InTx p (Plan.Eff (lendFocus coin) fr.1 (Held coin (Standing k d fr.1
          fun b => b.positions.lookup userId = some fr.2))) c) fun _ _ => True) := by
  have aside : (lendFocus coin).Aside (.ext (LendStmt.position userId coin)) := lendAside trivial
  let φ' (row : Option Position) : LendBook → Prop :=
    Standing k d f fun b => b.positions.lookup userId = row
  have read : (totalsPlan coin start).Keeping p
      (InTx p (Plan.Eff (lendFocus coin) f (Held coin (Standing k d f φ))))
      (lendQuery (.position userId coin) : Lend LendError (Option Position))
      (outcome (fun row => InTx p (Plan.Eff (lendFocus coin) f fun ks db h =>
        Held coin (Standing k d f φ) ks db h ∧ Held coin (φ' row) ks db h))
        fun _ => InTx p fun _ => Held coin (Standing k d f φ)) := by
    refine Plan.triple_reading (Stmt.ext (X := lendExt) (LendStmt.position userId coin))
      lend_not_entry aside (φ := fun row => Held coin (φ' row)) keeps_held (fun _ => keeps_held)
      fun ws ks db h row ws' _ hg he => ?_
    obtain ⟨rfl, -⟩ := ext_eval_one rfl he
    have hs : (viewOf ws db).ext.books coin = f (db.ext.books coin) := hg.see
    obtain ⟨hk, hc, hr, -⟩ := hg.left
    exact ⟨List.mem_append_left _ hk, hc, hr, by rw [← hs]⟩
  refine Protocol.Triple.bind read (fun row => ?_) fun _ _ _ _ => trivial
  refine .conseq (A := InTx p (Plan.Eff (lendFocus coin) f (Held coin (φ' row)))) ?_
    (fun _ _ h => Plan.inTx_imp (fun _ _ _ h => h.2) h) fun _ _ _ h => h
  cases row with
  | some r => exact Protocol.Triple.ret fun _ _ h => ⟨(f, r), rfl, h⟩
  | none =>
    refine Protocol.Triple.bind (triple_insertPosition keeps_held userId
      (ψ := Standing k d (fun b => (LendWrite.putPosition coin userId .fresh).set (f b))
        fun b => b.positions.lookup userId = some .fresh) fun ks db h ha hn => ?_)
      (fun _ => .of_exists fun _ => .ret fun _ _ h => ⟨(_, .fresh), open_fresh.symm, h⟩)
      fun _ _ _ _ => trivial
    obtain ⟨-, hc, hr, -⟩ := ha
    exact ⟨hc.putPosition coin hn, hr, AList.lookup_insert _⟩

/-- A position that is known is read as it is. -/
theorem triple_knownPosition :
    (totalsPlan coin start).Keeping p
      (InTx p (Plan.Eff (lendFocus coin) f
        (Held coin (Standing k d f fun b => b.positions.lookup userId = some r))))
      (getOrCreatePosition userId coin)
      (outcome (fun a c => a = r.open ∧ InTx p (Plan.Eff (lendFocus coin) f
        (Held coin (Standing k d f fun b => b.positions.lookup userId = some r))) c)
        fun _ _ => True) := by
  have aside : (lendFocus coin).Aside (.ext (LendStmt.position userId coin)) := lendAside trivial
  let A := Held coin (Standing k d f fun b => b.positions.lookup userId = some r)
  have read : (totalsPlan coin start).Keeping p (InTx p (Plan.Eff (lendFocus coin) f A))
      (lendQuery (.position userId coin) : Lend LendError (Option Position))
      (outcome (fun row => InTx p (Plan.Eff (lendFocus coin) f fun ks db h =>
        A ks db h ∧ row = some r)) fun _ => InTx p fun _ => A) := by
    refine Plan.triple_reading (Stmt.ext (X := lendExt) (LendStmt.position userId coin))
      lend_not_entry aside (φ := fun (row : Option Position) _ _ _ => row = some r) keeps_held
      (fun _ => Plan.keeps_fact _) fun ws ks db h row ws' _ hg he => ?_
    obtain ⟨rfl, -⟩ := ext_eval_one rfl he
    have hs : (viewOf ws db).ext.books coin = f (db.ext.books coin) := hg.see
    obtain ⟨-, -, -, hr⟩ := hg.left
    rw [hs]
    exact hr
  refine Protocol.Triple.bind read (fun row => ?_) fun _ _ _ _ => trivial
  refine .conseq (A := fun c => row = some r ∧ InTx p (Plan.Eff (lendFocus coin) f A) c)
    (.of_pure ?_) (fun c _ ⟨t, ht, hg⟩ => ⟨hg.left.2, t, ht, hg.acts, hg.wallets, hg.left.1⟩)
    fun _ _ _ h => h
  rintro rfl
  exact Protocol.Triple.ret fun _ _ h => ⟨rfl, h⟩

abbrev At (coin : Coin) (userId : Uuid) (r : Position) (p : Nat) (f : LendBook → LendBook)
    (k d : LendSide → ℤ) : Conf (machine (satsPay lendExt)) → Prop :=
  Tracked coin p f (Held coin (Standing k d f fun b => b.positions.lookup userId = some r)) k

/-- An update of a position. -/
theorem triple_bookPosition {u : PositionUpdate} {e : LendSide → ℤ}
    (hu : ∀ side, (side.scaled (u.set r) : ℤ) = side.scaled r + e side) :
    (totalsPlan coin start).Keeping p (At coin userId r p f k d)
      (lendQuery (.updatePosition userId coin u) : Lend LendError Unit)
      (outcome (fun _ c => ∃ f', At coin userId (u.set r) p f' k (d + e) c) fun _ _ => True) := by
  refine .conseq (triple_tracked (triple_updatePosition (A := Held coin (Standing k d f
      fun b => b.positions.lookup userId = some r)) keeps_held userId u
    (ψ := Standing k (d + e) (fun b => (LendWrite.updatePosition coin userId u).set (f b))
      fun b => b.positions.lookup userId = some (u.set r)) ?_)
    (within_lendQuery fun _ _ _ => rfl)) (fun _ _ h => h) fun r _ _ h => ?_
  · rintro ks db h - ⟨-, hc, hr, hs⟩
    refine ⟨by rw [hs]; rfl, hc.updatePosition coin hs hu, ?_, ?_⟩
    · simp only [LendWrite.set, hs]
      exact hr
    · simp only [LendWrite.set, hs]
      exact AList.lookup_insert _
  · cases r with
    | ok a =>
      obtain ⟨⟨-, hx⟩, hT⟩ := h
      exact ⟨fun b => (LendWrite.updatePosition coin userId u).set (f b), hx, hT⟩
    | error _ => trivial

theorem triple_bookReserve (u : ReserveUpdate) :
    (totalsPlan coin start).Keeping p (At coin userId r p f k (k + u.change))
      (lendQuery (.updateReserve coin u) : Lend LendError Unit)
      (outcome (fun _ c => ∃ f', At coin userId r p f' (k + u.change) (k + u.change) c)
        fun _ _ => True) := by
  refine .conseq (RowProtocol.triple_query_hist (S := satsPay lendExt)
    (A := At coin userId r p f k (k + u.change))
    (T := fun _ h => ∀ side, openChange coin side (doneBy p h) = (k + u.change) side)
    (.conseq (triple_updateReserve (A := Held coin (Standing k (k + u.change) f
        fun b => b.positions.lookup userId = some r)) keeps_held u
      (ψ := Standing (k + u.change) (k + u.change)
        (fun b => (LendWrite.updateReserve coin u).set (f b))
        fun b => b.positions.lookup userId = some r) ?_) (fun _ _ h => h.1) fun _ _ _ h => h)
    (fun c a hc side => ?_) fun _ _ _ hT he => openChange_stable he hT) (fun _ _ h => h)
    fun r _ _ h => ?_
  · rintro ks db h hi ⟨-, hc, hr, hs⟩
    refine ⟨hr, hc.updateReserve coin hr fun side => ?_, ?_, hs⟩
    · -- what is left of the positions is not negative
      have h₁ := hi.total_eq_sum side
      have h₂ := hc.total side
      have h₃ := hc.sum side
      rw [Pi.add_apply] at h₃
      omega
    · show ((f _).reserve.map _).isSome
      rwa [Option.isSome_map]
  · rw [doneBy_self]
    show (if coin = coin then u.change side else 0) + _ = _
    rw [if_pos rfl, hc.2, add_comm]
    rfl
  · cases r with
    | ok a =>
      obtain ⟨⟨-, hx⟩, hT⟩ := h
      exact ⟨fun b => (LendWrite.updateReserve coin u).set (f b), hx, hT _ rfl⟩
    | error _ => trivial

end

theorem proceeds_commit {k : LendSide → ℤ} {α : Type} {a : α}
    (hA : ∀ ks db h, A ks db h → Changes k k (db.ext.books coin) (f (db.ext.books coin))) :
    Proceeds coin start p (Tracked coin p f A k) (commit >>= fun _ => .ret a : Lend LendError α) := by
  refine Protocol.Triple.bind (.conseq (Plan.triple_commit (P := totalsPlan coin start)
    (A := fun ks db h => A ks db h ∧ ∀ side, openChange coin side (doneBy p h) = k side)
    RowProtocol.stable_true RowProtocol.framed_true ?_ fun _ _ _ _ => trivial)
    (fun c _ ⟨⟨t, ht, hg⟩, hk⟩ => ⟨t, ht, hg.acts, hg.wallets, hg.left, hk⟩) fun _ _ _ h => h)
    (fun _ => Proceeds.ret _) fun _ _ _ _ => trivial
  rintro ks db h hi ⟨ha, hk⟩ -
  exact ⟨⟨hi.commit (hA ks db h ha) hk, fun q _ => (hA ks db h ha).reserve⟩, fun _ _ => trivial⟩

/-! ## Operations -/

theorem tracked_exists {k : LendSide → ℤ} {α ι : Type} {x : Lend LendError α} {ψ : α → ι → Prop}
    {f' : ι → LendBook → LendBook} {A' : ι → Plan.KeyAssertion lendExt}
    (hx : (totalsPlan coin start).Keeping p (InTx p (Plan.Eff (lendFocus coin) f A)) x
      (outcome (fun a c => ∃ i, ψ a i ∧ InTx p (Plan.Eff (lendFocus coin) (f' i) (A' i)) c)
        fun _ _ => True)) (hs : Within (SparesTotals coin) x) :
    (totalsPlan coin start).Keeping p (Tracked coin p f A k) x
      (outcome (fun a c => ∃ i, ψ a i ∧ Tracked coin p (f' i) (A' i) k c) fun _ _ => True) := by
  refine .conseq (triple_tracked hx hs) (fun _ _ h => h) fun r _ _ h => ?_
  cases r with
  | ok a =>
    obtain ⟨⟨i, hi, hx⟩, hk⟩ := h
    exact ⟨i, hi, hx, hk⟩
  | error _ => trivial

abbrev Outset (coin : Coin) (p : Nat) : Conf (machine (satsPay lendExt)) → Prop :=
  Tracked coin p id (fun _ _ _ => True) 0

abbrev Opened (coin : Coin) (p : Nat) (f : LendBook → LendBook) :
    Conf (machine (satsPay lendExt)) → Prop :=
  Tracked coin p f (Held coin (Standing 0 0 f fun _ => True)) 0

section
variable {α : Type} {userId : Uuid}

theorem keeps_nothing : (totalsPlan coin start).Keeps p fun _ _ _ => True := Plan.keeps_fact True

theorem sparesTotals_accrue (c : Coin) : Within (SparesTotals coin) (accrue c) :=
  lookups_sparesTotals.accrue (within_lendQuery fun _ _ _ => rfl) fun _ _ _ =>
    within_lendQuery (sparesTotals_update (.inr fun side => by cases side <;> rfl))

theorem proceeds_accrue {g : ReserveState → Lend LendError α}
    (hg : ∀ idx f, Proceeds coin start p (Opened coin p f) (g idx)) :
    Proceeds coin start p (Outset coin p) (accrue coin >>= g) := by
  have open' : (totalsPlan coin start).Keeping p (Outset coin p) (accrue coin)
      (outcome (fun _ c => ∃ f, True ∧ Opened coin p f c) fun _ _ => True) :=
    tracked_exists (.conseq triple_accrue (fun _ _ h => h) fun r _ _ h => match r with
      | .ok _ => Exists.imp (fun _ h => ⟨trivial, h⟩) h
      | .error _ => trivial) (sparesTotals_accrue coin)
  exact Proceeds.bind open' fun idx => .of_exists fun f => .of_pure fun _ => hg idx f

theorem proceeds_getOrCreatePosition {k : LendSide → ℤ} {g : OpenPosition → Lend LendError α}
    (hg : ∀ f' r, Proceeds coin start p (At coin userId r p f' k k) (g r.open)) :
    Proceeds coin start p (Tracked coin p f (Held coin (Standing k k f φ)) k)
      (getOrCreatePosition userId coin >>= g) := by
  refine Proceeds.bind (tracked_exists triple_getOrCreatePosition
    (lookups_sparesTotals.getOrCreatePosition (within_lendQuery fun _ _ _ => rfl))) fun a => .of_exists fun fr => .of_pure ?_
  rintro rfl
  exact hg fr.1 fr.2

theorem proceeds_knownPosition {k : LendSide → ℤ} {r : Position} {g : OpenPosition → Lend LendError α}
    (hg : Proceeds coin start p (At coin userId r p f k k) (g r.open)) :
    Proceeds coin start p (At coin userId r p f k k) (getOrCreatePosition userId coin >>= g) := by
  have known : (totalsPlan coin start).Keeping p (At coin userId r p f k k)
      (getOrCreatePosition userId coin)
      (outcome (fun a c => ∃ _ : Unit, a = r.open ∧ At coin userId r p f k k c) fun _ _ => True) :=
    tracked_exists (.conseq triple_knownPosition (fun _ _ h => h) fun r _ _ h => match r with
      | .ok _ => ⟨(), h⟩
      | .error _ => trivial) (lookups_sparesTotals.getOrCreatePosition
        (within_lendQuery fun _ _ _ => rfl))
  refine Proceeds.bind known fun a => .of_exists fun _ => .of_pure ?_
  rintro rfl
  exact hg

/-- A position and the totals change by as much. -/
theorem proceeds_book {k : LendSide → ℤ} {r : Position} {u : PositionUpdate} {u' : ReserveUpdate}
    {g : Lend LendError α}
    (hu : ∀ side, (side.scaled (u.set r) : ℤ) = side.scaled r + u'.change side)
    (hg : ∀ f', Proceeds coin start p (At coin userId (u.set r) p f' (k + u'.change) (k + u'.change))
      g) :
    Proceeds coin start p (At coin userId r p f k k) (do
      let _ ← lendQuery (.updatePosition userId coin u)
      let _ ← lendQuery (.updateReserve coin u')
      g) :=
  Proceeds.bind (triple_bookPosition hu) fun _ => .of_exists fun _ =>
    Proceeds.bind (triple_bookReserve u') fun _ => .of_exists hg

theorem bystands_ledgerMove {fromWallet toWallet : Uuid} {amount : ℕ} {type : LedgerType}
    {key memoOut memoIn : String} :
    Bystands coin start p (ledgerMove fromWallet toWallet amount type key memoOut memoIn) :=
  lookups_bystands.ledgerMove bystands_apply

abbrev Abides (coin : Coin) (start : LendSide → ℤ) (p : Nat) (x : Lend LendError α) : Prop :=
  (totalsPlan coin start).Keeping p (Idle p (Unborn p)) x fun _ _ => True

theorem doneBy_unborn {h : Hist (sig (satsPay lendExt))} (hu : ∀ e ∈ h, e.pid ≠ some p) :
    doneBy p h = [] := by
  induction h with
  | nil => rfl
  | cons e h ih =>
    rw [doneBy_of_ne (hu e List.mem_cons_self)]
    exact ih fun e he => hu e (List.mem_cons_of_mem _ he)

theorem keeps_transaction {body : Lend LendError α}
    (hb : Proceeds coin start p (Outset coin p) body) :
    Abides coin start p (transaction body) := by
  have scope : (totalsPlan coin start).Keeping p
      (fun c => Idle p (fun _ _ => True) c ∧ ∀ side, openChange coin side (doneBy p c.hist) = 0)
      (transaction body) fun _ => Idle p fun _ _ => True := by
    refine RowProtocol.triple_transaction_also
      (T := fun h => ∀ side, openChange coin side (doneBy p h) = 0)
      (fun l l' he h => openChange_stable (k := 0) he h) (fun r h _ side => ?_) framed_true
      (fun _ => framed_true) (fun _ _ _ _ => trivial) ?_
    · rw [doneBy_self]
      rfl
    · refine .conseq hb (fun c _ ⟨⟨t, ht, hw, _⟩, hT⟩ => ⟨⟨t, ht, ?_⟩, hT⟩) fun _ _ _ _ => trivial
      rw [hw]
      exact ⟨(lendFocus coin).acts_nil, fun _ => rfl, trivial⟩
  refine .conseq scope (fun c _ ⟨ht, hu⟩ => ⟨⟨ht, trivial⟩, fun side => ?_⟩) fun _ _ _ _ => trivial
  rw [doneBy_unborn hu]
  rfl

theorem keeps_supply (c : Coin) (amount : ℕ) : Abides coin start p (supply userId c amount) := by
  unfold supply
  split
  · exact Proceeds.throw _
  refine keeps_transaction ?_
  by_cases hc : c = coin
  · subst hc
    refine proceeds_accrue fun idx f => ?_
    refine (lookups_bystands.openWallets _ _).step keeps_held fun ⟨walletId, poolId⟩ => ?_
    refine bystands_ledgerMove.step keeps_held fun _ => ?_
    refine (lookups_bystands.orPanic _).step keeps_held fun scaled => ?_
    refine proceeds_getOrCreatePosition fun f' r => ?_
    refine proceeds_book (fun side => ?_) fun f'' => proceeds_commit fun _ _ _ h => h.2.changes
    cases side <;> simp [LendSide.scaled, PositionUpdate.set, ReserveUpdate.change]
  · refine (bystands_accrue hc).step keeps_nothing fun idx => ?_
    refine (lookups_bystands.openWallets _ _).step keeps_nothing fun ⟨walletId, poolId⟩ => ?_
    refine bystands_ledgerMove.step keeps_nothing fun _ => ?_
    refine (lookups_bystands.orPanic _).step keeps_nothing fun scaled => ?_
    refine (bystands_getOrCreatePosition hc _).step keeps_nothing fun _ => ?_
    refine (bystands_updatePosition hc).step keeps_nothing fun _ => ?_
    refine (bystands_updateReserve hc).step keeps_nothing fun _ => ?_
    exact proceeds_commit fun _ _ _ _ => .refl _

/-- What the code has of a position is what is stored, unless it is nothing. -/
theorem open_supply {r : Position} (h : ¬ r.open.scaledSupply = 0) :
    r.open.scaledSupply = r.scaledSupply := readU128_ne_default h

theorem open_debt {r : Position} (h : ¬ r.open.scaledDebt = 0) : r.open.scaledDebt = r.scaledDebt :=
  readU128_ne_default h

/-- The debt is reduced by what has been paid. -/
theorem scaled_setDebt {r : Position} {x n : ℕ} (hx : x = r.scaledDebt) (hn : n ≤ x)
    (side : LendSide) : (side.scaled ((PositionUpdate.setDebt (x - n)).set r) : ℤ) =
      side.scaled r + (ReserveUpdate.subDebt n).change side := by
  cases side <;> simp only [LendSide.scaled, PositionUpdate.set, ReserveUpdate.change] <;> omega

theorem scaled_setSupply {r : Position} {x n : ℕ} (hx : x = r.scaledSupply) (hn : n ≤ x)
    (side : LendSide) : (side.scaled ((PositionUpdate.setSupply (x - n)).set r) : ℤ) =
      side.scaled r + (ReserveUpdate.subSupply n).change side := by
  cases side <;> simp only [LendSide.scaled, PositionUpdate.set, ReserveUpdate.change] <;> omega

theorem keeps_withdraw (c : Coin) (amount maxStale : ℕ) :
    Abides coin start p (withdraw userId c amount maxStale) := by
  unfold withdraw
  split
  · exact Proceeds.throw _
  refine keeps_transaction ?_
  by_cases hc : c = coin
  · subst hc
    refine proceeds_accrue fun idx f => ?_
    refine (lookups_bystands.loadPriceTable _).step keeps_held fun prices => ?_
    refine (lookups_bystands.openWallets _ _).step keeps_held fun ⟨walletId, poolId⟩ => ?_
    refine proceeds_getOrCreatePosition fun f' r => ?_
    split
    · exact Proceeds.throw _
    rename_i hs
    refine Proceeds.orPanic fun supplyReal hreal => ?_
    refine (lookups_bystands.readBalance _).step keeps_held fun available => ?_
    split
    · exact Proceeds.throw _
    refine (lookups_bystands.computeAccountLiquidity _ _ _).step keeps_held fun liquidity => ?_
    split
    · exact Proceeds.throw _
    refine bystands_ledgerMove.step keeps_held fun _ => ?_
    refine Proceeds.orPanic fun scaledOut hout => ?_
    exact proceeds_book (scaled_setSupply (open_supply hs)
      (amountToScaled_le hreal (min_le_right _ _) hout)) fun f'' =>
        proceeds_commit fun _ _ _ h => h.2.changes
  · refine (bystands_accrue hc).step keeps_nothing fun idx => ?_
    refine (lookups_bystands.loadPriceTable _).step keeps_nothing fun prices => ?_
    refine (lookups_bystands.openWallets _ _).step keeps_nothing fun ⟨walletId, poolId⟩ => ?_
    refine (bystands_getOrCreatePosition hc _).step keeps_nothing fun position => ?_
    split
    · exact Proceeds.throw _
    refine Proceeds.orPanic fun supplyReal _ => ?_
    refine (lookups_bystands.readBalance _).step keeps_nothing fun available => ?_
    split
    · exact Proceeds.throw _
    refine (lookups_bystands.computeAccountLiquidity _ _ _).step keeps_nothing fun liquidity => ?_
    split
    · exact Proceeds.throw _
    refine bystands_ledgerMove.step keeps_nothing fun _ => ?_
    refine Proceeds.orPanic fun scaledOut _ => ?_
    refine (bystands_updatePosition hc).step keeps_nothing fun _ => ?_
    refine (bystands_updateReserve hc).step keeps_nothing fun _ => ?_
    exact proceeds_commit fun _ _ _ _ => .refl _

theorem keeps_borrow (c : Coin) (amount maxStale : ℕ) :
    Abides coin start p (borrow userId c amount maxStale) := by
  unfold borrow
  split
  · exact Proceeds.throw _
  split
  · exact Proceeds.throw _
  refine keeps_transaction ?_
  by_cases hc : c = coin
  · subst hc
    refine proceeds_accrue fun idx f => ?_
    refine (lookups_bystands.loadPriceTable _).step keeps_held fun prices => ?_
    refine (lookups_bystands.openWallets _ _).step keeps_held fun ⟨walletId, poolId⟩ => ?_
    refine (lookups_bystands.readBalance _).step keeps_held fun available => ?_
    split
    · exact Proceeds.throw _
    refine (lookups_bystands.computeAccountLiquidity _ _ _).step keeps_held fun liquidity => ?_
    split
    · exact Proceeds.throw _
    refine bystands_ledgerMove.step keeps_held fun _ => ?_
    refine (lookups_bystands.orPanic _).step keeps_held fun scaled => ?_
    refine proceeds_getOrCreatePosition fun f' r => ?_
    refine proceeds_book (fun side => ?_) fun f'' => proceeds_commit fun _ _ _ h => h.2.changes
    cases side <;> simp [LendSide.scaled, PositionUpdate.set, ReserveUpdate.change]
  · refine (bystands_accrue hc).step keeps_nothing fun idx => ?_
    refine (lookups_bystands.loadPriceTable _).step keeps_nothing fun prices => ?_
    refine (lookups_bystands.openWallets _ _).step keeps_nothing fun ⟨walletId, poolId⟩ => ?_
    refine (lookups_bystands.readBalance _).step keeps_nothing fun available => ?_
    split
    · exact Proceeds.throw _
    refine (lookups_bystands.computeAccountLiquidity _ _ _).step keeps_nothing fun liquidity => ?_
    split
    · exact Proceeds.throw _
    refine bystands_ledgerMove.step keeps_nothing fun _ => ?_
    refine (lookups_bystands.orPanic _).step keeps_nothing fun scaled => ?_
    refine (bystands_getOrCreatePosition hc _).step keeps_nothing fun _ => ?_
    refine (bystands_updatePosition hc).step keeps_nothing fun _ => ?_
    refine (bystands_updateReserve hc).step keeps_nothing fun _ => ?_
    exact proceeds_commit fun _ _ _ _ => .refl _

theorem keeps_repay (c : Coin) (amount : ℕ) : Abides coin start p (repay userId c amount) := by
  unfold repay
  split
  · exact Proceeds.throw _
  refine keeps_transaction ?_
  by_cases hc : c = coin
  · subst hc
    refine proceeds_accrue fun idx f => ?_
    refine (lookups_bystands.openWallets _ _).step keeps_held fun ⟨walletId, poolId⟩ => ?_
    refine proceeds_getOrCreatePosition fun f' r => ?_
    split
    · exact Proceeds.throw _
    rename_i hd
    refine Proceeds.orPanic fun debtReal hreal => ?_
    refine bystands_ledgerMove.step keeps_held fun _ => ?_
    refine Proceeds.orPanic fun scaledPaid hpaid => ?_
    exact proceeds_book (scaled_setDebt (open_debt hd)
      (amountToScaled_le hreal (min_le_right _ _) hpaid)) fun f'' =>
        proceeds_commit fun _ _ _ h => h.2.changes
  · refine (bystands_accrue hc).step keeps_nothing fun idx => ?_
    refine (lookups_bystands.openWallets _ _).step keeps_nothing fun ⟨walletId, poolId⟩ => ?_
    refine (bystands_getOrCreatePosition hc _).step keeps_nothing fun position => ?_
    split
    · exact Proceeds.throw _
    refine Proceeds.orPanic fun debtReal _ => ?_
    refine bystands_ledgerMove.step keeps_nothing fun _ => ?_
    refine Proceeds.orPanic fun scaledPaid _ => ?_
    refine (bystands_updatePosition hc).step keeps_nothing fun _ => ?_
    refine (bystands_updateReserve hc).step keeps_nothing fun _ => ?_
    exact proceeds_commit fun _ _ _ _ => .refl _

section
variable {liquidatorId borrowerId : Uuid} {debtCoin collateralCoin : Coin}

/-- From here the borrower's positions are reduced, whatever of the debt is repaid. -/
def Reduces (coin : Coin) (start : LendSide → ℤ) (p : Nat) (liquidatorId borrowerId : Uuid)
    (debtCoin collateralCoin : Coin) (debtPosition collPosition : OpenPosition)
    (S : Conf (machine (satsPay lendExt)) → Prop) : Prop :=
  ∀ (idxDebt idxColl : ReserveState) (debtReal collReal repay seize : ℕ),
    scaledToAmount debtPosition.scaledDebt idxDebt.borrowIndex = some debtReal →
    scaledToAmount collPosition.scaledSupply idxColl.liquidityIndex = some collReal →
    repay ≤ debtReal → seize ≤ collReal → Proceeds coin start p S (do
      reducePositions borrowerId debtCoin collateralCoin debtPosition collPosition idxDebt idxColl
        repay seize
      let _ ← (coreQuery (.insertAudit (liquidateAudit liquidatorId borrowerId debtCoin
        collateralCoin repay seize)) : Lend LendError Unit)
      commit
      .ret (⟨borrowerId, debtCoin, collateralCoin, repay, seize⟩ : LiquidationResult))

/-- What comes between reading the positions and reducing them. -/
theorem proceeds_liquidation {A : Plan.KeyAssertion lendExt} {k : LendSide → ℤ}
    (hA : (totalsPlan coin start).Keeps p A) {amount closeFactorBps : ℕ}
    (hcf : closeFactorBps ≤ 10000) {prices : PriceTable} {idxDebt idxColl : ReserveState}
    {debtPosition collPosition : OpenPosition}
    (hr : Reduces coin start p liquidatorId borrowerId debtCoin collateralCoin debtPosition
      collPosition (Tracked coin p f A k)) :
    Proceeds coin start p (Tracked coin p f A k) (do
      let liquidity ← computeAccountLiquidity borrowerId
        (freshIndexes debtCoin collateralCoin idxDebt idxColl) prices
      if ¬ (0 < liquidity.debtUsd ∧ liquidity.liquidationCollateralUsd < liquidity.debtUsd) then
        .throw .positionHealthy
      else do
        let debtReal ← orPanic (scaledToAmount debtPosition.scaledDebt idxDebt.borrowIndex)
        let collReal ← orPanic (scaledToAmount collPosition.scaledSupply idxColl.liquidityIndex)
        let (repay, seize) :=
          liquidationAmounts prices debtCoin collateralCoin amount closeFactorBps debtReal collReal
        if repay = 0 ∨ seize = 0 then .throw .liquidationTooSmall
        else do
          moveLiquidated liquidatorId borrowerId debtCoin collateralCoin repay seize
          reducePositions borrowerId debtCoin collateralCoin debtPosition collPosition idxDebt
            idxColl repay seize
          let _ ← (coreQuery (.insertAudit (liquidateAudit liquidatorId borrowerId debtCoin
            collateralCoin repay seize)) : Lend LendError Unit)
          commit
          .ret (⟨borrowerId, debtCoin, collateralCoin, repay, seize⟩ : LiquidationResult)) := by
  refine (lookups_bystands.computeAccountLiquidity _ _ _).step hA fun liquidity => ?_
  split
  · exact Proceeds.throw _
  refine Proceeds.orPanic fun debtReal hd => Proceeds.orPanic fun collReal hc => ?_
  have hle := @liquidationAmounts_le prices debtCoin collateralCoin amount closeFactorBps debtReal
    collReal hcf
  dsimp only
  split
  · exact Proceeds.throw _
  refine (lookups_bystands.moveLiquidated bystands_apply).step hA fun _ => ?_
  exact hr _ _ _ _ _ _ hd hc hle.1 hle.2

theorem reducePositions_bind {debtPosition collPosition : OpenPosition}
    {idxDebt idxColl : ReserveState} {repay seize : ℕ} (g : Unit → Lend LendError α) :
    (reducePositions borrowerId debtCoin collateralCoin debtPosition collPosition idxDebt idxColl
      repay seize >>= g) = (do
        let scaledRepaid ← orPanic (amountToScaled repay idxDebt.borrowIndex)
        let _ ← lendQuery (.updatePosition borrowerId debtCoin
          (.setDebt (debtPosition.scaledDebt - scaledRepaid)))
        let _ ← lendQuery (.updateReserve debtCoin (.subDebt scaledRepaid))
        let scaledSeized ← orPanic (amountToScaled seize idxColl.liquidityIndex)
        let _ ← lendQuery (.updatePosition borrowerId collateralCoin
          (.setSupply (collPosition.scaledSupply - scaledSeized)))
        let _ ← lendQuery (.updateReserve collateralCoin (.subSupply scaledSeized))
        g ()) := by
  simp only [reducePositions, Prog.bind_eq, Prog.bind_assoc, Prog.pure_eq, Prog.ret_bind]

theorem bystands_audit (log : AuditLog) :
    Bystands coin start p (coreQuery (.insertAudit log) : Lend LendError Unit) :=
  lookups_bystands.core _ (by simp)

/-- Debt and collateral of the coin. -/
theorem reduces_both {k : LendSide → ℤ} {f : LendBook → LendBook} {r : Position}
    (hd : ¬ r.open.scaledDebt = 0) (hs : ¬ r.open.scaledSupply = 0) :
    Reduces coin start p liquidatorId borrowerId coin coin r.open r.open
      (At coin borrowerId r p f k k) := by
  intro idxDebt idxColl debtReal collReal repay seize hdr hcr hrepay hseize
  rw [reducePositions_bind]
  refine Proceeds.orPanic fun scaledRepaid hn => ?_
  refine proceeds_book (scaled_setDebt (open_debt hd) (amountToScaled_le hdr hrepay hn)) fun f' => ?_
  refine Proceeds.orPanic fun scaledSeized hm => ?_
  refine proceeds_book (scaled_setSupply (open_supply hs) (amountToScaled_le hcr hseize hm))
    fun f'' => ?_
  refine (bystands_audit _).step keeps_held fun _ => ?_
  exact proceeds_commit fun _ _ _ h => h.2.changes

theorem reduces_debt {k : LendSide → ℤ} {f : LendBook → LendBook} {r : Position}
    {collPosition : OpenPosition} (hc : collateralCoin ≠ coin) (hd : ¬ r.open.scaledDebt = 0) :
    Reduces coin start p liquidatorId borrowerId coin collateralCoin r.open collPosition
      (At coin borrowerId r p f k k) := by
  intro idxDebt idxColl debtReal collReal repay seize hdr hcr hrepay hseize
  rw [reducePositions_bind]
  refine Proceeds.orPanic fun scaledRepaid hn => ?_
  refine proceeds_book (scaled_setDebt (open_debt hd) (amountToScaled_le hdr hrepay hn)) fun f' => ?_
  refine Proceeds.orPanic fun scaledSeized _ => ?_
  refine (bystands_updatePosition hc).step keeps_held fun _ => ?_
  refine (bystands_updateReserve hc).step keeps_held fun _ => ?_
  refine (bystands_audit _).step keeps_held fun _ => ?_
  exact proceeds_commit fun _ _ _ h => h.2.changes

theorem reduces_collateral {k : LendSide → ℤ} {f : LendBook → LendBook} {r : Position}
    {debtPosition : OpenPosition} (hc : debtCoin ≠ coin) (hs : ¬ r.open.scaledSupply = 0) :
    Reduces coin start p liquidatorId borrowerId debtCoin coin debtPosition r.open
      (At coin borrowerId r p f k k) := by
  intro idxDebt idxColl debtReal collReal repay seize hdr hcr hrepay hseize
  rw [reducePositions_bind]
  refine Proceeds.orPanic fun scaledRepaid _ => ?_
  refine (bystands_updatePosition hc).step keeps_held fun _ => ?_
  refine (bystands_updateReserve hc).step keeps_held fun _ => ?_
  refine Proceeds.orPanic fun scaledSeized hm => ?_
  refine proceeds_book (scaled_setSupply (open_supply hs) (amountToScaled_le hcr hseize hm))
    fun f' => ?_
  refine (bystands_audit _).step keeps_held fun _ => ?_
  exact proceeds_commit fun _ _ _ h => h.2.changes

theorem reduces_other {debtPosition collPosition : OpenPosition} (hd : debtCoin ≠ coin)
    (hc : collateralCoin ≠ coin) :
    Reduces coin start p liquidatorId borrowerId debtCoin collateralCoin debtPosition collPosition
      (Outset coin p) := by
  intro idxDebt idxColl debtReal collReal repay seize _ _ _ _
  rw [reducePositions_bind]
  refine Proceeds.orPanic fun scaledRepaid _ => ?_
  refine (bystands_updatePosition hd).step keeps_nothing fun _ => ?_
  refine (bystands_updateReserve hd).step keeps_nothing fun _ => ?_
  refine Proceeds.orPanic fun scaledSeized _ => ?_
  refine (bystands_updatePosition hc).step keeps_nothing fun _ => ?_
  refine (bystands_updateReserve hc).step keeps_nothing fun _ => ?_
  refine (bystands_audit _).step keeps_nothing fun _ => ?_
  exact proceeds_commit fun _ _ _ _ => .refl _

theorem keeps_liquidate {amount closeFactorBps maxStale : ℕ} (hcf : closeFactorBps ≤ 10000) :
    Abides coin start p (liquidate liquidatorId borrowerId debtCoin collateralCoin amount
      closeFactorBps maxStale) := by
  unfold liquidate
  split
  · exact Proceeds.throw _
  split
  · exact Proceeds.throw _
  refine keeps_transaction ((lookups_bystands.loadPriceTable _).step keeps_nothing fun prices => ?_)
  by_cases hd : debtCoin = coin
  · subst hd
    refine proceeds_accrue fun idxDebt f => ?_
    unfold accrueOther
    by_cases hc : collateralCoin = debtCoin
    · subst hc
      rw [if_pos rfl]
      refine proceeds_getOrCreatePosition fun f' r => ?_
      split
      · exact Proceeds.throw _
      rename_i hdebt
      refine proceeds_knownPosition ?_
      split
      · exact Proceeds.throw _
      rename_i hsupply
      exact proceeds_liquidation keeps_held hcf (reduces_both hdebt fun h => hsupply (.inl h))
    · rw [if_neg hc]
      refine (bystands_accrue hc).step keeps_held fun idxColl => ?_
      refine proceeds_getOrCreatePosition fun f' r => ?_
      split
      · exact Proceeds.throw _
      rename_i hdebt
      refine (bystands_getOrCreatePosition hc _).step keeps_held fun collPosition => ?_
      split
      · exact Proceeds.throw _
      exact proceeds_liquidation keeps_held hcf (reduces_debt hc hdebt)
  · refine (bystands_accrue hd).step keeps_nothing fun idxDebt => ?_
    unfold accrueOther
    by_cases hc : collateralCoin = coin
    · subst hc
      rw [if_neg (Ne.symm hd)]
      refine proceeds_accrue fun idxColl f => ?_
      refine (bystands_getOrCreatePosition hd _).step keeps_held fun debtPosition => ?_
      split
      · exact Proceeds.throw _
      refine proceeds_getOrCreatePosition fun f' r => ?_
      split
      · exact Proceeds.throw _
      rename_i hsupply
      exact proceeds_liquidation keeps_held hcf (reduces_collateral hd fun h => hsupply (.inl h))
    · have other : Bystands coin start p (if collateralCoin = debtCoin then .ret idxDebt
          else accrue collateralCoin : Lend LendError ReserveState) := by
        split
        · exact ⟨.ret _, .ret _⟩
        · exact bystands_accrue hc
      refine other.step keeps_nothing fun idxColl => ?_
      refine (bystands_getOrCreatePosition hd _).step keeps_nothing fun debtPosition => ?_
      split
      · exact Proceeds.throw _
      refine (bystands_getOrCreatePosition hc _).step keeps_nothing fun collPosition => ?_
      split
      · exact Proceeds.throw _
      exact proceeds_liquidation keeps_nothing hcf (reduces_other hd hc)

end

end

end

/-! ## Runs -/

def LendBook.Agrees (b : LendBook) : Prop := ∀ side, b.total side = b.sum side

/-- In every run in which no liquidation may repay more than the debt, the totals of each
reserve are the sums of the positions, and every statement that adds to a total or subtracts
from it has done so in full: had one of the two been cut off at zero, it would now be more
than what was booked. -/
theorem totals_of_run {db : Db lendExt} {w : World (machine (satsPay lendExt))}
    (h₀ : ∀ coin, (db.ext.books coin).Agrees)
    (h : Run (LendProcess (· ≤ 10000)) (anyStep _) db w) (coin : Coin) (side : LendSide) :
    (w.conf.s.db.ext.books coin).total side = (w.conf.s.db.ext.books coin).sum side ∧
      ((w.conf.s.db.ext.books coin).total side : ℤ) =
        (db.ext.books coin).total side + booked coin side w.conf.hist := by
  have hi := RowProtocol.inv_of_steps
    (R := (totalsPlan coin fun side => (db.ext.books coin).total side).rows) ?_
    ⟨h₀ coin, fun side => (add_zero _).symm⟩ h
  · exact ⟨hi.total_eq_sum side, hi.total_eq_booked side⟩
  · intro c hc p
    refine .conseq (Q := fun _ _ => True) ?_ (fun _ _ h => h) fun _ _ _ _ => trivial
    cases hc with
    | supply userId c amount => exact Protocol.Triple.spawn (keeps_supply c amount)
    | withdraw userId c amount maxStale =>
      exact Protocol.Triple.spawn (keeps_withdraw c amount maxStale)
    | borrow userId c amount maxStale =>
      exact Protocol.Triple.spawn (keeps_borrow c amount maxStale)
    | repay userId c amount => exact Protocol.Triple.spawn (keeps_repay c amount)
    | liquidate liquidatorId borrowerId debtCoin collateralCoin amount closeFactorBps maxStale hcf =>
      exact Protocol.Triple.spawn (keeps_liquidate hcf)

/-! User 7 owes BTC and much DOGE, and has LTC; user 6 owes BTC, too. -/

def overClosed : Db lendExt where
  core := {
    now := 0
    wallets := ((((∅ : Table Wallet).insert 1 ⟨8, .btc, .personal, none⟩).insert 2
      ⟨8, .ltc, .personal, none⟩).insert 3 ⟨9, .btc, .lendPool, none⟩).insert 4
      ⟨9, .ltc, .lendPool, none⟩
    ledger := [⟨1, 2000, .adjustment, none, none, none, none⟩,
      ⟨4, 5000, .adjustment, none, none, none, none⟩]
    jobs := ∅
    outbox := []
    auditLogs := [] }
  ext := {
    books := fun coin => match coin with
      | .btc => ⟨some ⟨ray, ray, 0, 3000, 0⟩,
          ((∅ : Table Position).insert 7 ⟨0, 1000, true⟩).insert 6 ⟨0, 2000, true⟩⟩
      | .doge => ⟨some ⟨ray, ray, 0, 100000, 0⟩, (∅ : Table Position).insert 7 ⟨0, 100000, true⟩⟩
      | .ltc => ⟨some ⟨ray, ray, 5000, 0, 0⟩, (∅ : Table Position).insert 7 ⟨5000, 0, true⟩⟩
      | _ => ⟨some (.fresh 0), ∅⟩
    prices := fun _ => some ⟨10 ^ 8, 8, 0⟩
    house := some 9 }

def halfClose : List (Act (satsPay lendExt)) :=
  .start 0 0 :: (goOn 0 3 ++ clockRead 0 0 ++ .start 1 1 :: goOn 1 1 ++ priceReads 1 0 ++ goOn 0 22 ++
    goOn 1 2 ++ clockRead 1 0 ++ goOn 1 6 ++ clockRead 1 0 ++ goOn 1 39 ++ [.finish 0, .finish 1])

/-- User 8 supplies 600 of BTC, and repays half of what user 7 owes. -/
theorem totals_halfClose : ∃ w : World (machine (satsPay lendExt)),
    Run (LendProcess (· ≤ 10000)) (anyStep _) overClosed w ∧
    (w.conf.s.db.ext.books .btc).total .supply = 600 ∧
    (w.conf.s.db.ext.books .btc).total .debt = 2500 ∧
    (w.conf.s.db.ext.books .btc).sum .debt = 2500 ∧ booked .btc .debt w.conf.hist = -500 ∧
    booked .ltc .supply w.conf.hist = -537 := by
  have hrun : ((lendRunner [(supply 8 .btc 600).spawn,
      (liquidate 8 7 .btc .ltc 2000 5000 1000000).spawn]).run halfClose
      (.init _ (.start overClosed))).map (fun w => ((w.conf.s.db.ext.books .btc).total .supply,
        (w.conf.s.db.ext.books .btc).total .debt, (w.conf.s.db.ext.books .ltc).total .supply)) =
      some (600, 2500, 4463) := by
    decide +kernel
  obtain ⟨w, hw, ht⟩ := Option.map_eq_some_iff.1 hrun
  obtain ⟨h₁, h₂, h₃⟩ := by simpa only [Prod.mk.injEq] using ht
  have h₀ : ∀ coin, (overClosed.ext.books coin).Agrees := fun coin side => by
    cases coin <;> cases side <;> decide
  have hr : Run (LendProcess (· ≤ 10000)) (anyStep _) overClosed w := by
    refine run_of_lendScript ?_ hw
    intro c hc
    rcases List.mem_pair.1 hc with rfl | rfl
    · exact .supply 8 .btc 600
    · exact .liquidate 8 7 .btc .ltc 2000 5000 1000000 (by decide)
  obtain ⟨hs, hb⟩ := totals_of_run h₀ hr .btc .debt
  have hl := (totals_of_run h₀ hr .ltc .supply).2
  rw [h₂, show (overClosed.ext.books .btc).total .debt = 3000 by decide] at hb
  rw [h₃, show (overClosed.ext.books .ltc).total .supply = 5000 by decide] at hl
  exact ⟨w, hr, h₁, h₂, hs.symm.trans h₂, by omega, by omega⟩

def overClose : List (Act (satsPay lendExt)) :=
  .start 0 0 :: (goOn 0 1 ++ priceReads 0 0 ++ goOn 0 2 ++ clockRead 0 0 ++ goOn 0 6 ++
    clockRead 0 0 ++ goOn 0 39 ++ [.finish 0])

/-- User 8 repays twice the BTC of user 7: the debt is cut off at zero, the total is not. -/
theorem overClose_disagrees : (∀ coin, (overClosed.ext.books coin).Agrees) ∧
    ∃ w : World (machine (satsPay lendExt)),
      Run (LendProcess fun _ => True) (anyStep _) overClosed w ∧
      (w.conf.s.db.ext.books .btc).total .debt = 1000 ∧
      (w.conf.s.db.ext.books .btc).sum .debt = 2000 := by
  refine ⟨fun coin side => by cases coin <;> cases side <;> decide, ?_⟩
  have hrun : ((lendRunner [(liquidate 8 7 .btc .ltc 2000 20000 1000000).spawn]).run overClose
      (.init _ (.start overClosed))).map (fun w => ((w.conf.s.db.ext.books .btc).total .debt,
        (w.conf.s.db.ext.books .btc).sum .debt)) = some (1000, 2000) := by
    decide +kernel
  obtain ⟨w, hw, ht⟩ := Option.map_eq_some_iff.1 hrun
  obtain ⟨h₁, h₂⟩ := Prod.mk.inj ht
  exact ⟨w, run_of_lendScript (by simpa using .liquidate 8 7 .btc .ltc 2000 20000 1000000 trivial)
    hw, h₁, h₂⟩

end SatsPay
