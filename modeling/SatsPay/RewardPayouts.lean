import SatsPay.LendAmounts
import SatsPay.RewardTicks

/-!
# The payouts of a due tick

A tick that has something to pay pays it if no wallet concerned has had a reward of the
program before: the reference of every entry is the program, and an index lets each wallet
have one.
-/

namespace SatsPay

open Interleave ReadCommitted

/-! ## Shares -/

theorem sum_shares_le (emission total : ℕ) : ∀ l : List ℕ,
    (l.map fun w => emission * w / total).sum ≤ emission * l.sum / total
  | [] => by simp
  | w :: l => by
    rw [List.map_cons, List.sum_cons, List.sum_cons, Nat.mul_add]
    exact (Nat.add_le_add_left (sum_shares_le emission total l) _).trans Nat.div_add_div_le_add_div

theorem sum_filterMap_le {α β : Type} (f : α → Option β) (g : β → ℕ) (h : α → ℕ)
    (hle : ∀ a b, f a = some b → g b ≤ h a) : ∀ l : List α,
    ((l.filterMap f).map g).sum ≤ (l.map h).sum
  | [] => le_rfl
  | a :: l => by
    have ih := sum_filterMap_le f g h hle l
    rw [List.filterMap_cons, List.map_cons, List.sum_cons]
    cases hf : f a with
    | none => exact ih.trans (Nat.le_add_left _ _)
    | some b =>
      rw [List.map_cons, List.sum_cons]
      exact Nat.add_le_add (hle a b hf) ih

/-- What a payout is made of. -/
theorem payoutTo_eq_some {c : Core} {coin : Coin} {emission total : ℕ}
    {w : Sigma fun _ : Uuid => ℕ} {x : Payout} (h : payoutTo c coin emission total w = some x) :
    x.userId = w.1 ∧ c.walletOf w.1 coin .personal = some x.walletId ∧
      0 < emission * w.2 / total ∧ x.share = (toU128 (emission * w.2 / total)).getD 0 := by
  obtain ⟨walletId, hw, h⟩ := Option.bind_eq_some_iff.1 h
  split at h
  · rename_i hpos
    cases h
    exact ⟨rfl, hw, hpos, rfl⟩
  · cases h

theorem toU128_getD_le (n : ℕ) : (toU128 n).getD 0 ≤ n ∧ (toU128 n).getD 0 < 2 ^ 128 := by
  unfold toU128
  split
  · rename_i h
    exact ⟨le_rfl, h⟩
  · exact ⟨Nat.zero_le _, by simp⟩

/-- The shares come to no more than the emission. -/
theorem sum_payouts_le (c : Core) (coin : Coin) (emission : ℕ) (weights : Weights) :
    ((payoutsOf c coin emission (totalWeight weights) weights.entries).map Payout.share).sum ≤
      emission := by
  refine (sum_filterMap_le _ _ (fun w => emission * w.2 / totalWeight weights) (fun w x h => ?_)
    _).trans ?_
  · rw [(payoutTo_eq_some h).2.2.2]
    exact (toU128_getD_le _).1
  · have hs := sum_shares_le emission (totalWeight weights) (weights.entries.map fun w => w.2)
    rw [List.map_map] at hs
    exact hs.trans (Nat.div_le_of_le_mul (by
      rw [show (weights.entries.map fun w => w.2).sum = totalWeight weights from rfl, mul_comm]))

theorem sumShares_le (payouts : List Payout) : sumShares payouts ≤ (payouts.map Payout.share).sum :=
  Nat.mod_le _ _

theorem sumShares_lt (payouts : List Payout) : sumShares payouts < 2 ^ 128 :=
  Nat.mod_lt _ (by positivity)

theorem readBigInt_le {n : ℤ} (h : 0 < readBigInt n) : readBigInt n = n := by
  rcases readBigInt_eq_or n with h' | h'
  · omega
  · exact h'

/-! ## One credit -/

def Core.Rewarded (c : Core) (programId walletId : Uuid) : Prop :=
  ∃ e ∈ c.ledger, e.walletId = walletId ∧ e.type = .reward ∧
    e.referenceType = some "RewardProgram" ∧ e.referenceId = some programId

structure Core.Receives (c : Core) (programId walletId : Uuid) : Prop where
  wallet : (c.wallets.lookup walletId).isSome
  unheld : ((c.wallets.lookup walletId).map Wallet.reorgHoldAt).join = none
  unrewarded : ¬ c.Rewarded programId walletId

theorem any_clash_iff {c : Core} {programId walletId : Uuid} {q : ℚ} {memo : String} {n : ℤ} :
    c.ledger.any ((referenced walletId q .reward programId "RewardProgram" memo).entry n).clash =
      false ↔ ¬ c.Rewarded programId walletId := by
  rw [← Bool.not_eq_true, not_iff_not, List.any_eq_true]
  refine exists_congr fun e => and_congr_right fun _ => ?_
  simp only [LedgerEntry.clash, referenced, LedgerCreditInput.entry, Option.isSome_some,
    Option.isSome_none, Bool.and_true, Bool.true_and, Bool.false_and, Bool.or_false,
    Bool.and_eq_true, beq_iff_eq]
  tauto

theorem numeric39_share {n : ℕ} (h : n < 2 ^ 128) : numeric39 (n : ℚ) = some (n : ℤ) := by
  refine numeric39_int_eq_some.2 ⟨rfl, ?_⟩
  rw [abs_of_nonneg (by positivity)]
  have : (2 : ℤ) ^ 128 < 10 ^ 39 := by norm_num
  have : (n : ℤ) < 2 ^ 128 := by exact_mod_cast h
  omega

/-- What a reward enters. -/
theorem takes_reward_iff {c : Core} {programId walletId : Uuid} {memo : String} {q : ℚ} {n m : ℤ}
    (hn : numeric39 q = some n) (hcov : q < 0 → 0 ≤ c.balance walletId + q) :
    c.Takes (referenced walletId q .reward programId "RewardProgram" memo) m ↔
      m = n ∧ c.Receives programId walletId := by
  constructor
  · intro h
    exact ⟨Option.some.inj (h.numeric.symm.trans hn), h.wallet, h.hold, any_clash_iff.1 h.fresh⟩
  · rintro ⟨rfl, h⟩
    exact ⟨hn, h.wallet, h.unheld, hcov, any_clash_iff.2 h.unrewarded⟩

section
variable {programId : Uuid} {coin : Coin}

def credited (programId : Uuid) (coin : Coin) (v : Db rewardExt) (x : Payout) : Db rewardExt :=
  (v.withCore { v.core with ledger := (creditOf programId coin x).entry x.share :: v.core.ledger }).withExt
    (v.ext.withAccrual programId x)

structure Creditable (programId : Uuid) (v : Db rewardExt) (x : Payout) : Prop where
  receives : v.core.Receives programId x.walletId
  fits : |v.ext.claimed x.userId programId + x.share| < 10 ^ 39

theorem accrued_eq_ok {db db' : RewardDb} {x : Payout} : db.accrued programId x = .ok db' ↔
    |db.claimed x.userId programId + x.share| < 10 ^ 39 ∧ db' = db.withAccrual programId x := by
  unfold RewardDb.accrued
  split
  · rename_i h
    exact ⟨fun e => ⟨h, (Except.ok.inj e).symm⟩, fun e => by rw [e.2]⟩
  · rename_i h
    exact ⟨fun e => (by cases e), fun e => absurd e.1 h⟩

theorem paidUser_eq_ok {v v' : Db rewardExt} {x : Payout} (hx : x.share < 2 ^ 128) :
    paidUser programId coin v x = .ok v' ↔ Creditable programId v x ∧ v' = credited programId coin v x := by
  have hn := numeric39_share hx
  have hcov : ((x.share : ℕ) : ℚ) < 0 → 0 ≤ (v.core.balance x.walletId : ℚ) + (x.share : ℕ) :=
    fun h => absurd h (not_lt.2 (by positivity))
  unfold paidUser
  cases ha : v.core.applied (creditOf programId coin x) with
  | error e =>
    refine ⟨fun h => (by cases h), fun h => ?_⟩
    have := (@Core.applied_eq_ok v.core _ (creditOf programId coin x) (by rintro ⟨⟩)).2
      ⟨x.share, (takes_reward_iff hn hcov).2 ⟨rfl, h.1.receives⟩, rfl⟩
    rw [ha] at this
    cases this
  | ok c =>
    obtain ⟨n, ht, rfl⟩ := (@Core.applied_eq_ok v.core _ (creditOf programId coin x)
      (by rintro ⟨⟩)).1 ha
    obtain ⟨rfl, hr⟩ := (takes_reward_iff hn hcov).1 ht
    constructor
    · intro h
      cases hacc : v.ext.accrued programId x with
      | error e =>
        rw [hacc] at h
        cases h
      | ok db =>
        rw [hacc] at h
        obtain ⟨hf, rfl⟩ := accrued_eq_ok.1 hacc
        cases h
        exact ⟨⟨hr, hf⟩, rfl⟩
    · rintro ⟨h, rfl⟩
      rw [accrued_eq_ok.2 ⟨h.fits, rfl⟩]
      rfl

/-! ## All of them -/

theorem receives_cons {c : Core} {walletId : Uuid} {e : LedgerEntry} (he : e.walletId ≠ walletId) :
    ({ c with ledger := e :: c.ledger } : Core).Receives programId walletId ↔
      c.Receives programId walletId := by
  have : ({ c with ledger := e :: c.ledger } : Core).Rewarded programId walletId ↔
      c.Rewarded programId walletId := by
    simp only [Core.Rewarded, List.mem_cons, exists_eq_or_imp, he, false_and, false_or]
  exact ⟨fun h => ⟨h.wallet, h.unheld, fun hr => h.unrewarded (this.2 hr)⟩,
    fun h => ⟨h.wallet, h.unheld, fun hr => h.unrewarded (this.1 hr)⟩⟩

theorem claimed_withAccrual_ne {db : RewardDb} {u : Uuid} {x : Payout} (h : u ≠ x.userId) :
    (db.withAccrual programId x).claimed u programId = db.claimed u programId := by
  unfold RewardDb.claimed RewardDb.withAccrual
  rw [AList.lookup_insert_ne (by simp [h])]

theorem creditable_credited {v : Db rewardExt} {x y : Payout} (hw : x.walletId ≠ y.walletId)
    (hu : x.userId ≠ y.userId) :
    Creditable programId (credited programId coin v x) y ↔ Creditable programId v y := by
  have hr : (credited programId coin v x).core.Receives programId y.walletId ↔
      v.core.Receives programId y.walletId := receives_cons hw
  have hc : (credited programId coin v x).ext.claimed y.userId programId =
      v.ext.claimed y.userId programId := claimed_withAccrual_ne (Ne.symm hu)
  exact ⟨fun h => ⟨hr.1 h.receives, hc ▸ h.fits⟩, fun h => ⟨hr.2 h.receives, hc.symm ▸ h.fits⟩⟩

def Payouts.Apart (payouts : List Payout) : Prop :=
  payouts.Pairwise fun x y => x.walletId ≠ y.walletId ∧ x.userId ≠ y.userId

theorem paidUsers_eq_ok : ∀ {payouts : List Payout} {v v' : Db rewardExt},
    (∀ x ∈ payouts, x.share < 2 ^ 128) → Payouts.Apart payouts →
    (payouts.foldlM (paidUser programId coin) v = .ok v' ↔
      (∀ x ∈ payouts, Creditable programId v x) ∧ v' = payouts.foldl (credited programId coin) v)
  | [], v, v', _, _ => ⟨fun h => ⟨by simp, (Except.ok.inj h).symm⟩, fun h => congrArg _ h.2.symm⟩
  | x :: payouts, v, v', hs, hp => by
    obtain ⟨hx, hp⟩ := List.pairwise_cons.1 hp
    have ih {v v'} := @paidUsers_eq_ok payouts v v'
      (fun y hy => hs y (List.mem_cons_of_mem _ hy)) hp
    have step {v₁} := @paidUser_eq_ok programId coin v v₁ x (hs x List.mem_cons_self)
    have rest : (∀ y ∈ payouts, Creditable programId (credited programId coin v x) y) ↔
        ∀ y ∈ payouts, Creditable programId v y :=
      forall₂_congr fun y hy => creditable_credited (hx y hy).1 (hx y hy).2
    rw [List.foldlM_cons, List.foldl_cons, List.forall_mem_cons]
    constructor
    · intro h
      cases hu : paidUser programId coin v x with
      | error e =>
        rw [hu] at h
        cases h
      | ok v₁ =>
        rw [hu] at h
        obtain ⟨hc, rfl⟩ := step.1 hu
        obtain ⟨hr, rfl⟩ := ih.1 h
        exact ⟨⟨hc, rest.1 hr⟩, rfl⟩
    · rintro ⟨⟨hc, hr⟩, rfl⟩
      rw [step.2 ⟨hc, rfl⟩]
      exact ih.2 ⟨rest.2 hr, rfl⟩

def debited (programId : Uuid) (coin : Coin) (w : Uuid) (payouts : List Payout) (v : Db rewardExt) :
    Db rewardExt :=
  v.withCore { v.core with
    ledger := (debitOf programId coin w payouts).entry (-(sumShares payouts : ℤ)) :: v.core.ledger }

structure Payable (programId w : Uuid) (payouts : List Payout) (v : Db rewardExt) : Prop where
  house : v.core.Receives programId w
  users : ∀ x ∈ payouts, Creditable programId v x

theorem paidShares_eq_ok {v v' : Db rewardExt} {w : Uuid} {payouts : List Payout}
    (hcov : sumShares payouts ≤ v.core.balance w) (hshare : ∀ x ∈ payouts, x.share < 2 ^ 128)
    (hp : Payouts.Apart payouts) (hw : ∀ x ∈ payouts, x.walletId ≠ w) :
    paidShares programId coin w payouts v = .ok v' ↔ Payable programId w payouts v ∧
      v' = payouts.foldl (credited programId coin) (debited programId coin w payouts v) := by
  have hn : numeric39 (-(sumShares payouts : ℚ)) = some (-(sumShares payouts : ℤ)) := by
    rw [numeric39_neg, numeric39_share (sumShares_lt payouts)]
    rfl
  have hcov' : -(sumShares payouts : ℚ) < 0 →
      0 ≤ (v.core.balance w : ℚ) + -(sumShares payouts : ℚ) := by
    intro _
    have : ((sumShares payouts : ℤ) : ℚ) ≤ (v.core.balance w : ℚ) := by exact_mod_cast hcov
    rw [← sub_eq_add_neg, sub_nonneg]
    exact_mod_cast this
  have users : (∀ x ∈ payouts, Creditable programId (debited programId coin w payouts v) x) ↔
      ∀ x ∈ payouts, Creditable programId v x := by
    refine forall₂_congr fun x hx => ?_
    have hr : (debited programId coin w payouts v).core.Receives programId x.walletId ↔
        v.core.Receives programId x.walletId := receives_cons (Ne.symm (hw x hx))
    exact ⟨fun h => ⟨hr.1 h.receives, h.fits⟩, fun h => ⟨hr.2 h.receives, h.fits⟩⟩
  unfold paidShares
  cases ha : v.core.applied (debitOf programId coin w payouts) with
  | error e =>
    refine ⟨fun h => (by cases h), fun h => ?_⟩
    have := (@Core.applied_eq_ok v.core _ (debitOf programId coin w payouts)
      (by rintro ⟨⟩)).2 ⟨_, (takes_reward_iff hn hcov').2 ⟨rfl, h.1.house⟩, rfl⟩
    rw [ha] at this
    cases this
  | ok c =>
    obtain ⟨n, ht, rfl⟩ := (@Core.applied_eq_ok v.core _
      (debitOf programId coin w payouts) (by rintro ⟨⟩)).1 ha
    obtain ⟨rfl, hr⟩ := (takes_reward_iff hn hcov').1 ht
    refine (paidUsers_eq_ok hshare hp).trans ?_
    constructor
    · rintro ⟨hu, rfl⟩
      exact ⟨⟨hr, users.1 hu⟩, rfl⟩
    · rintro ⟨h, rfl⟩
      exact ⟨users.2 h.users, rfl⟩

def rewardEntries (programId : Uuid) (coin : Coin) (w : Uuid) (payouts : List Payout) :
    List LedgerEntry :=
  (payouts.map fun x => (creditOf programId coin x).entry x.share).reverse ++
    [(debitOf programId coin w payouts).entry (-(sumShares payouts : ℤ))]

theorem ledger_foldl_credited : ∀ (payouts : List Payout) (v : Db rewardExt),
    (payouts.foldl (credited programId coin) v).core.ledger =
      (payouts.map fun x => (creditOf programId coin x).entry x.share).reverse ++ v.core.ledger
  | [], _ => rfl
  | x :: payouts, v => by
    rw [List.foldl_cons, ledger_foldl_credited payouts, List.map_cons, List.reverse_cons,
      List.append_assoc]
    rfl

theorem ledger_paid {v : Db rewardExt} {w : Uuid} {payouts : List Payout} :
    (payouts.foldl (credited programId coin) (debited programId coin w payouts v)).core.ledger =
      rewardEntries programId coin w payouts ++ v.core.ledger := by
  rw [ledger_foldl_credited, rewardEntries, List.append_assoc]
  rfl

end

abbrev paidStore (programId : Uuid) (coin : Coin) (w : Uuid) (payouts : List Payout)
    (db : Db rewardExt) : Db rewardExt :=
  payouts.foldl (credited programId coin) (debited programId coin w payouts db)

/-! ## What has come due, as it is stored -/

/-- What has come due, by the emission that is stored. -/
def RewardProgram.dueEmission (p : RewardProgram) (elapsedMs : ℤ) : ℕ :=
  p.emissionPerDay.toNat * elapsedMs.toNat / msPerDay

/-- What has come due, as far as the inventory of the house goes. -/
def RewardProgram.payable (p : RewardProgram) (now : Instant) (balance : ℤ) : ℕ :=
  min (p.dueEmission (p.elapsedMs now)) balance.toNat

def LendShare.held (indexes : Coin → Option (ℕ × ℕ)) (x : LendShare) : List UserSum :=
  let (li, bi) := (indexes x.coin).getD (ray, ray)
  [⟨x.userId, x.coin, (x.scaledSupply * li / ray : ℕ)⟩, ⟨x.userId, x.coin, (x.scaledDebt * bi / ray : ℕ)⟩]

/-- The weights, by the amounts that are stored. -/
def storedWeights (db : Db rewardExt) (prices : PriceTable) : Weights :=
  (db.core.personalBalances ++ db.ext.activeStakes ++
    db.ext.lendShares.flatMap (LendShare.held db.ext.indexes)).foldl
    (addWeight db.ext.lend.house prices) ∅

section
variable (clock : RewardCall → Instant) (maxStale : ℕ) (programId : Uuid)

/-- The shares of an emission by some weights, where the prices are fresh. -/
def sharesBy (weigh : PriceTable → Option Weights) (db : Db rewardExt) (coin : Coin)
    (emission : ℕ) : Option (List Payout) :=
  match freshPrices clock maxStale db.ext with
  | .error _ => none
  | .ok prices => (weigh prices).map fun weights =>
    payoutsOf db.core coin emission (totalWeight weights) weights.entries

/-- The store has a positive emission, a funded wallet of the house, fresh prices and a positive
share for the tick. -/
structure Due (db : Db rewardExt) (p : RewardProgram) (w : Uuid) : Prop where
  program : db.ext.programOf programId = some p
  active : p.active = true
  begun : p.startAt ≤ clock .utcNow
  emission : 0 < p.dueEmission (p.elapsedMs (clock .utcNow))
  house : houseWalletOf db p.rewardCoin = some w
  funded : 0 < db.core.balance w
  share : ∃ shares, sharesBy clock maxStale (fun prices => some (storedWeights db prices)) db
    p.rewardCoin (p.payable (clock .utcNow) (db.core.balance w)) = some shares ∧ shares ≠ []

/-- The emission and the inventory are read as they are stored, and these are the shares of the
weights that are read. -/
structure Reads (db : Db rewardExt) (p : RewardProgram) (w : Uuid) (payouts : List Payout) :
    Prop where
  emission : ReadsBack p.emissionPerDay
  inventory : ¬ (10 ^ 16 : ℤ) ∣ db.core.balance w
  shares : sharesBy clock maxStale (userWeights db) db p.rewardCoin
    (p.payable (clock .utcNow) (db.core.balance w)) = some payouts

def Pays (db : Db rewardExt) (p : RewardProgram) (w : Uuid) : Prop :=
  (tick clock maxStale programId db).1 = .ok () ∧ ∃ payouts, payouts ≠ [] ∧
    (tick clock maxStale programId db).2.core.ledger =
      rewardEntries programId p.rewardCoin w payouts ++ db.core.ledger

/-! ## What the tick finds -/

def RewardProgram.cappedEmission (p : RewardProgram) (now : Instant) (balance : ℤ) : ℕ :=
  min (p.emission (p.elapsedMs now)) (readBigInt balance).toNat

structure Found (db : Db rewardExt) (p : RewardProgram) (w : Uuid) (payouts : List Payout) :
    Prop where
  program : db.ext.programOf programId = some p
  active : p.active = true
  begun : p.startAt ≤ clock .utcNow
  emission : 0 < p.emission (p.elapsedMs (clock .utcNow))
  house : houseWalletOf db p.rewardCoin = some w
  funded : 0 < readBigInt (db.core.balance w)
  shares : sharesBy clock maxStale (userWeights db) db p.rewardCoin
    (p.cappedEmission (clock .utcNow) (db.core.balance w)) = some payouts
  share : payouts ≠ []

end

theorem emission_of_readsBack {p : RewardProgram} (h : ReadsBack p.emissionPerDay) (ms : ℤ) :
    p.emission ms = p.dueEmission ms := by
  obtain ⟨n, hn⟩ := Int.eq_ofNat_of_zero_le (readsBack_nonneg h)
  unfold RewardProgram.emission RewardProgram.dueEmission
  rw [hn] at h ⊢
  rw [readU128_of_readsBack 0 h, Int.toNat_natCast]

theorem emission_of_not_readsBack {p : RewardProgram} (h : ¬ ReadsBack p.emissionPerDay) (ms : ℤ) :
    p.emission ms = 0 := by
  unfold RewardProgram.emission
  rw [readU128_of_not_readsBack 0 h, Nat.zero_mul, Nat.zero_div]

theorem readBigInt_of_not_dvd {n : ℤ} (h : ¬ (10 ^ 16 : ℤ) ∣ n) : readBigInt n = n := by
  rw [readBigInt_eq, if_neg h]

theorem cappedEmission_eq {p : RewardProgram} {balance : ℤ} (he : ReadsBack p.emissionPerDay)
    (hb : ¬ (10 ^ 16 : ℤ) ∣ balance) (now : Instant) :
    p.cappedEmission now balance = p.payable now balance := by
  unfold RewardProgram.cappedEmission RewardProgram.payable
  rw [emission_of_readsBack he, readBigInt_of_not_dvd hb]

section
variable {clock : RewardCall → Instant} {maxStale : ℕ} {programId : Uuid} {db : Db rewardExt}
  {p : RewardProgram} {w : Uuid} {payouts : List Payout} (h : Found clock maxStale programId db p w payouts)

include h

theorem Found.weights : ∃ prices weights, freshPrices clock maxStale db.ext = .ok prices ∧
    userWeights db prices = some weights ∧ payouts = payoutsOf db.core p.rewardCoin
      (p.cappedEmission (clock .utcNow) (db.core.balance w)) (totalWeight weights) weights.entries := by
  have hs := h.shares
  unfold sharesBy at hs
  split at hs
  · cases hs
  · rename_i prices hp
    obtain ⟨weights, hu, he⟩ := Option.map_eq_some_iff.1 hs
    exact ⟨prices, weights, hp, hu, he.symm⟩

theorem Found.tickPlan_eq : tickPlan clock maxStale programId db =
    if sumShares payouts = 0 then .advance (clock .utcNow) (p.finished (clock .utcNow))
    else .pay (clock .utcNow) (p.finished (clock .utcNow)) p.rewardCoin w payouts := by
  obtain ⟨prices, weights, hp, hu, rfl⟩ := h.weights
  have hms : ¬ p.elapsedMs (clock .utcNow) ≤ 0 := by
    intro hle
    have he := h.emission
    rw [RewardProgram.emission, Int.toNat_of_nonpos hle, mul_zero, Nat.zero_div] at he
    exact lt_irrefl _ he
  have ht : totalWeight weights ≠ 0 := by
    intro h0
    refine h.share ?_
    rw [payoutsOf, List.filterMap_eq_nil_iff]
    intro x _
    cases hx : payoutTo db.core p.rewardCoin _ (totalWeight weights) x with
    | none => rfl
    | some y =>
      have := (payoutTo_eq_some hx).2.2.1
      rw [h0, Nat.div_zero] at this
      exact absurd this (lt_irrefl _)
  have hw := h.house
  unfold tickPlan programPlan
  rw [h.program]
  dsimp only
  rw [if_neg (by simp [h.active]), if_neg (not_lt.2 h.begun), if_neg hms, if_neg h.emission.ne', hw]
  dsimp only
  rw [if_neg (not_le.2 h.funded)]
  unfold emissionPlan
  rw [hp]
  dsimp only
  rw [hu]
  dsimp only
  rw [if_neg ht]
  rfl

/-- Payouts go to different users, and not to the house. -/
theorem Found.apart : Payouts.Apart payouts ∧ ∀ x ∈ payouts, x.walletId ≠ w := by
  obtain ⟨prices, weights, -, -, rfl⟩ := h.weights
  obtain ⟨house, -, hw⟩ := Option.bind_eq_some_iff.1 h.house
  obtain ⟨row, hrow, -, -, hk⟩ := Core.wallet_of_walletOf hw
  constructor
  · have hkeys : weights.entries.Pairwise fun a b => a.1 ≠ b.1 :=
      List.nodupKeys_iff_pairwise.1 weights.nodupKeys
    refine hkeys.filterMap _ fun a b hab x hx y hy => ?_
    obtain ⟨hxu, hxw, -⟩ := payoutTo_eq_some hx
    obtain ⟨hyu, hyw, -⟩ := payoutTo_eq_some hy
    refine ⟨fun e => hab ?_, by rw [hxu, hyu]; exact hab⟩
    obtain ⟨r, hr, hru, -⟩ := Core.wallet_of_walletOf hxw
    obtain ⟨r', hr', hru', -⟩ := Core.wallet_of_walletOf hyw
    rw [e, hr'] at hr
    obtain rfl := Option.some.inj hr
    exact hru.symm.trans hru'
  · intro x hx e
    obtain ⟨a, -, ha⟩ := List.mem_filterMap.1 hx
    obtain ⟨r, hr, -, -, hkr⟩ := Core.wallet_of_walletOf (payoutTo_eq_some ha).2.1
    rw [e, hrow] at hr
    obtain rfl := Option.some.inj hr
    rw [hk] at hkr
    cases hkr

theorem Found.share_lt : ∀ x ∈ payouts, x.share < 2 ^ 128 := by
  obtain ⟨prices, weights, -, -, rfl⟩ := h.weights
  intro x hx
  obtain ⟨a, -, ha⟩ := List.mem_filterMap.1 hx
  rw [(payoutTo_eq_some ha).2.2.2]
  exact (toU128_getD_le _).2

/-- The shares are covered by the inventory of the house. -/
theorem Found.covered : (payouts.map Payout.share).sum ≤ db.core.balance w := by
  obtain ⟨prices, weights, -, -, rfl⟩ := h.weights
  have hf := h.funded
  have hle := (sum_payouts_le db.core p.rewardCoin
    (p.cappedEmission (clock .utcNow) (db.core.balance w)) weights).trans (min_le_right _ _)
  have hr := readBigInt_le hf
  omega

theorem Found.paidShares_iff {v : Db rewardExt} :
    paidShares programId p.rewardCoin w payouts db = .ok v ↔ Payable programId w payouts db ∧
      v = payouts.foldl (credited programId p.rewardCoin)
        (debited programId p.rewardCoin w payouts db) := by
  refine paidShares_eq_ok (le_trans ?_ h.covered) h.share_lt h.apart.1 h.apart.2
  exact_mod_cast sumShares_le payouts

end

/-! ## Whether it pays -/

section
variable {clock : RewardCall → Instant} {maxStale : ℕ} {programId : Uuid} {db : Db rewardExt}
  {p : RewardProgram} {w : Uuid} {payouts : List Payout}

theorem ne_nil_of_sumShares (h : sumShares payouts ≠ 0) : payouts ≠ [] := by
  rintro rfl
  exact h rfl

/-- What is read as it is stored is found. -/
theorem Due.found (h : Due clock maxStale programId db p w)
    (hr : Reads clock maxStale db p w payouts) (hne : payouts ≠ []) :
    Found clock maxStale programId db p w payouts where
  program := h.program
  active := h.active
  begun := h.begun
  emission := (emission_of_readsBack hr.emission _).symm ▸ h.emission
  house := h.house
  funded := (readBigInt_of_not_dvd hr.inventory).symm ▸ h.funded
  shares := (cappedEmission_eq hr.emission hr.inventory _).symm ▸ hr.shares
  share := hne

/-- What a tick pays it has found. -/
theorem found_of_pay {now : Instant} {finished : Bool} {coin : Coin}
    (hplan : tickPlan clock maxStale programId db = .pay now finished coin w payouts) :
    sumShares payouts ≠ 0 ∧ ∃ p, coin = p.rewardCoin ∧
      Found clock maxStale programId db p w payouts := by
  unfold tickPlan at hplan
  split at hplan
  · cases hplan
  rename_i p hp
  split at hplan
  · cases hplan
  rename_i hactive
  split at hplan
  · cases hplan
  rename_i hbegun
  unfold programPlan at hplan
  split at hplan
  · cases hplan
  split at hplan
  · cases hplan
  rename_i hem
  split at hplan
  · cases hplan
  rename_i w' hw
  split at hplan
  · cases hplan
  rename_i hfund
  unfold emissionPlan at hplan
  split at hplan
  · cases hplan
  rename_i prices hprices
  split at hplan
  · cases hplan
  rename_i weights hweights
  split at hplan
  · cases hplan
  split at hplan
  · cases hplan
  rename_i hsum
  cases hplan
  refine ⟨hsum, p, rfl, hp, by simpa using hactive, not_lt.1 hbegun, Nat.pos_of_ne_zero hem, hw,
    not_le.1 hfund, ?_, ne_nil_of_sumShares hsum⟩
  unfold sharesBy
  rw [hprices]
  dsimp only
  rw [hweights]
  rfl

/-- What is found has been read as it is stored. -/
theorem Found.reads (h : Found clock maxStale programId db p w payouts) :
    Reads clock maxStale db p w payouts := by
  have hemission : ReadsBack p.emissionPerDay := by
    by_contra hread
    exact h.emission.ne' (emission_of_not_readsBack hread _)
  have hinventory : ¬ (10 ^ 16 : ℤ) ∣ db.core.balance w := by
    intro hd
    have hfund := h.funded
    rw [readBigInt_eq, if_pos hd] at hfund
    exact lt_irrefl _ hfund
  refine ⟨hemission, hinventory, ?_⟩
  rw [← cappedEmission_eq hemission hinventory]
  exact h.shares

theorem Found.plan_eq (h : Found clock maxStale programId db p w payouts)
    (hs : sumShares payouts ≠ 0) : tickPlan clock maxStale programId db =
      .pay (clock .utcNow) (p.finished (clock .utcNow)) p.rewardCoin w payouts := by
  rw [h.tickPlan_eq, if_neg hs]

/-- A tick that pays leaves the store with the entries in it, and the clock of the program at
now. -/
theorem Found.tick_eq (h : Found clock maxStale programId db p w payouts)
    (hs : sumShares payouts ≠ 0) (hp : Payable programId w payouts db) :
    tick clock maxStale programId db = (.ok (),
      (paidStore programId p.rewardCoin w payouts db).withExt
        ((paidStore programId p.rewardCoin w payouts db).ext.advanced programId (clock .utcNow)
          (p.finished (clock .utcNow)))) := by
  unfold tick
  rw [h.plan_eq hs]
  unfold TickPlan.leaves
  dsimp only
  rw [h.paidShares_iff.2 ⟨hp, rfl⟩]

theorem pays_iff_payable (h : Due clock maxStale programId db p w) :
    Pays clock maxStale programId db p w ↔ ∃ payouts, Reads clock maxStale db p w payouts ∧
      sumShares payouts ≠ 0 ∧ Payable programId w payouts db := by
  constructor
  · rintro ⟨hok, payouts', -, hledger⟩
    have hgrows : (tick clock maxStale programId db).2.core.ledger ≠ db.core.ledger := by
      intro he
      have hlen := congrArg List.length (he.symm.trans hledger)
      simp only [List.length_append, rewardEntries, List.length_cons, List.length_nil] at hlen
      omega
    unfold tick at hok hgrows
    cases hplan : tickPlan clock maxStale programId db with
    | idle r =>
      rw [hplan] at hgrows
      exact absurd rfl hgrows
    | advance now finished =>
      rw [hplan] at hgrows
      exact absurd rfl hgrows
    | pay now finished coin w' payouts =>
      obtain ⟨hs, p', rfl, hf⟩ := found_of_pay hplan
      obtain rfl := Option.some.inj (h.program.symm.trans hf.program)
      obtain rfl := Option.some.inj (h.house.symm.trans hf.house)
      rw [hplan] at hok
      unfold TickPlan.leaves at hok
      dsimp only at hok
      cases hps : paidShares programId p.rewardCoin w payouts db with
      | error e =>
        rw [hps] at hok
        cases hok
      | ok v => exact ⟨payouts, hf.reads, hs, (hf.paidShares_iff.1 hps).1⟩
  · rintro ⟨payouts, hr, hs, hp⟩
    have hne := ne_nil_of_sumShares hs
    have ht := (h.found hr hne).tick_eq hs hp
    unfold Pays
    rw [ht]
    exact ⟨rfl, payouts, hne, ledger_paid⟩

/-- A program whose last tick has paid pays no more, while the house keeps the wallet. -/
theorem not_pays_again {clock' : RewardCall → Instant} {db' : Db rewardExt} {p' : RewardProgram}
    (hp : Pays clock maxStale programId db p w)
    (hl : (tick clock maxStale programId db).2.core.ledger ⊆ db'.core.ledger)
    (h : Due clock' maxStale programId db' p' w) : ¬ Pays clock' maxStale programId db' p' w := by
  intro hp'
  obtain ⟨-, payouts, -, hledger⟩ := hp
  obtain ⟨_, -, -, hpay⟩ := (pays_iff_payable h).1 hp'
  refine hpay.house.unrewarded
    ⟨(debitOf programId p.rewardCoin w payouts).entry (-(sumShares payouts : ℤ)), hl ?_, rfl, rfl, rfl, rfl⟩
  rw [hledger]
  simp [rewardEntries]

end

def rewardStart : Db rewardExt where
  core := {
    now := 0
    wallets := ((∅ : Table Wallet).insert 1 ⟨1, .btc, .personal, none⟩).insert 2
      ⟨9, .btc, .house, none⟩
    ledger := [⟨1, 100, .adjustment, none, none, none, none⟩, ⟨2, 1000, .adjustment, none, none, none, none⟩]
    jobs := ∅
    outbox := []
    auditLogs := [] }
  ext := {
    programs := (∅ : Table RewardProgram).insert 3 ⟨.btc, 86400000, 0, none, true, 0⟩
    accruals := ∅
    lend := ⟨fun _ => ⟨none, ∅⟩, fun _ => some ⟨10 ^ 8, 8, 0⟩, some 9⟩
    stakes := ∅ }

abbrev atTime (t : Instant) : RewardCall → Instant := fun _ => t

def rewardAfter : Db rewardExt := (tick (atTime 10000) 100000 3 rewardStart).2

theorem due_first :
    Due (atTime 10000) 100000 3 rewardStart ⟨.btc, 86400000, 0, none, true, 0⟩ 2 where
  program := rfl
  active := rfl
  begun := by decide
  emission := by decide +kernel
  house := rfl
  funded := by decide +kernel
  share := ⟨[⟨1, 1, 10⟩], by decide +kernel, by decide⟩

theorem due_second :
    Due (atTime 20000) 100000 3 rewardAfter ⟨.btc, 86400000, 0, none, true, 10000⟩ 2 where
  program := by decide +kernel
  active := rfl
  begun := by decide
  emission := by decide +kernel
  house := by decide +kernel
  funded := by decide +kernel
  share := ⟨[⟨1, 1, 10⟩], by decide +kernel, by decide⟩

theorem reads_first : Reads (atTime 10000) 100000 rewardStart
    ⟨.btc, 86400000, 0, none, true, 0⟩ 2 [⟨1, 1, 10⟩] where
  emission := by decide +kernel
  inventory := by decide +kernel
  shares := by decide +kernel

theorem not_rewarded_of_all {c : Core} {programId walletId : Uuid}
    (h : c.ledger.all (fun e => e.type != .reward) = true) : ¬ c.Rewarded programId walletId := by
  rintro ⟨e, he, -, ht, -⟩
  have := List.all_eq_true.1 h e he
  simp [ht] at this

theorem payable_first : Payable 3 2 [⟨1, 1, 10⟩] rewardStart := by
  refine ⟨⟨rfl, rfl, not_rewarded_of_all (by decide +kernel)⟩, fun x hx => ?_⟩
  obtain rfl := List.mem_singleton.1 hx
  exact ⟨⟨rfl, rfl, not_rewarded_of_all (by decide +kernel)⟩, by decide +kernel⟩

/-- A due tick commits payouts exactly where the emission and the inventory are read as they are
stored, the shares that it then finds do not sum to nothing, no wallet of them, nor that of the
house, has had a reward of the program before or is held, and the accruals fit. -/
theorem due_tick_pays_iff {clock : RewardCall → Instant} {maxStale : ℕ} {programId : Uuid}
    {db : Db rewardExt} {p : RewardProgram} {w : Uuid} (h : Due clock maxStale programId db p w) :
    Pays clock maxStale programId db p w ↔ ∃ payouts, Reads clock maxStale db p w payouts ∧
      sumShares payouts ≠ 0 ∧ Payable programId w payouts db := pays_iff_payable h

theorem due_tick_pays_first : Pays (atTime 10000) 100000 3 rewardStart
    ⟨.btc, 86400000, 0, none, true, 0⟩ 2 :=
  (due_tick_pays_iff due_first).2 ⟨_, reads_first, by decide +kernel, payable_first⟩

/-- The second of two ticks that are due does not pay. -/
theorem second_tick_rejected : ∃ p p' : RewardProgram,
    Pays (atTime 10000) 100000 3 rewardStart p 2 ∧ Due (atTime 20000) 100000 3 rewardAfter p' 2 ∧
    ¬ Pays (atTime 20000) 100000 3 rewardAfter p' 2 :=
  have pays_first :=
    (pays_iff_payable due_first).2 ⟨_, reads_first, by decide +kernel, payable_first⟩
  ⟨_, _, pays_first, due_second, not_pays_again pays_first (List.Subset.refl _) due_second⟩

end SatsPay
