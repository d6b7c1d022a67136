import SatsPay.RewardPayouts

/-!
# What a program emits over time

A tick pays whole units for whole milliseconds and puts the clock of the program to now, or is
rejected and leaves all as it was. No more than one tick of a schedule pays, so what is emitted
is what has come due if and only if all the whole units of the schedule fall due at one.
-/

namespace SatsPay

open Interleave ReadCommitted

def microsPerDay : ℕ := 1000 * msPerDay

structure ScheduledTick where
  clock : RewardCall → Instant
  before : Db rewardExt

section
variable (maxStale : ℕ) (programId : Uuid)

namespace ScheduledTick

variable (x : ScheduledTick)

def now : Instant := x.clock .utcNow

def after : Db rewardExt := (tick x.clock maxStale programId x.before).2

def apportioned : Option ℕ :=
  match x.before.ext.programOf programId, tickPlan x.clock maxStale programId x.before with
  | some p, .pay now _ coin w payouts =>
    match paidShares programId coin w payouts x.before with
    | .ok _ => some (p.cappedEmission now (x.before.core.balance w))
    | .error _ => none
  | _, _ => none

end ScheduledTick

/-- What others may do between two ticks: entries stay, and so do the program and the wallet of
the house. -/
structure Between (db db' : Db rewardExt) : Prop where
  program : db'.ext.programOf programId = db.ext.programOf programId
  entries : db.core.ledger ⊆ db'.core.ledger
  house : ∀ coin w, houseWalletOf db coin = some w → houseWalletOf db' coin = some w

/-- Ticks one after another from `t` to `t'`, and the stores before and after them. -/
inductive Schedule : Instant → Db rewardExt → List ScheduledTick → Instant → Db rewardExt → Prop
  | nil (t : Instant) (db : Db rewardExt) : Schedule t db [] t db
  | cons {t t' : Instant} {db db' : Db rewardExt} {x : ScheduledTick} {xs : List ScheduledTick}
      (hlt : t < x.now) (hb : Between programId db x.before)
      (hs : Schedule x.now (x.after maxStale programId) xs t' db') : Schedule t db (x :: xs) t' db'

def storedWeight (x : ScheduledTick) : Option ℕ :=
  match freshPrices x.clock maxStale x.before.ext with
  | .error _ => none
  | .ok prices => some (totalWeight (storedWeights x.before prices))

/-- In the window of the program, with an inventory that covers what has come due, fresh
prices and weights. -/
structure TickReady (x : ScheduledTick) : Prop where
  window : ∀ p, x.before.ext.programOf programId = some p → p.active = true ∧
    p.startAt ≤ p.lastEmittedAt ∧ ∀ e, p.endAt = some e → x.now ≤ e
  funded : ∀ p, x.before.ext.programOf programId = some p → ∃ w,
    houseWalletOf x.before p.rewardCoin = some w ∧ 0 < x.before.core.balance w ∧
      (p.dueEmission (p.elapsedMs x.now) : ℤ) ≤ x.before.core.balance w
  weights : ∃ n, storedWeight maxStale x = some n ∧ 0 < n

def apportionedBy (xs : List ScheduledTick) : ℕ :=
  (xs.map fun x => (x.apportioned maxStale programId).getD 0).sum

def paidTicks (xs : List ScheduledTick) : ℕ :=
  xs.countP fun x => (x.apportioned maxStale programId).isSome

/-- No more than what has come due from `t₀` to `tₙ`, and short of it by less than a unit for
each tick that paid. -/
structure EmittedExactly (emissionPerDay : ℤ) (t₀ tₙ : Instant) (xs : List ScheduledTick) : Prop where
  atMost : (microsPerDay * apportionedBy maxStale programId xs : ℤ) ≤ emissionPerDay * (tₙ - t₀)
  short : emissionPerDay * (tₙ - t₀) <
    microsPerDay * (apportionedBy maxStale programId xs + paidTicks maxStale programId xs)

/-- The HOUSE debit is the sum of the credits and of what the accruals grow by, and within the
balance. -/
structure MovesShares (x : ScheduledTick) (p : RewardProgram) (w : Uuid) (payouts : List Payout) :
    Prop where
  entries : (x.after maxStale programId).core.ledger =
    rewardEntries programId p.rewardCoin w payouts ++ x.before.core.ledger
  debit : sumShares payouts = (payouts.map Payout.share).sum
  accruals : ∀ y ∈ payouts, (x.after maxStale programId).ext.claimed y.userId programId =
    x.before.ext.claimed y.userId programId + y.share
  others : ∀ u i, (i = programId → ∀ y ∈ payouts, y.userId ≠ u) →
    (x.after maxStale programId).ext.claimed u i = x.before.ext.claimed u i
  covered : (sumShares payouts : ℤ) ≤ x.before.core.balance w

/-- The tick pays: it has a unit, somebody has a share of it, and the entries are taken. -/
structure PaysOut (x : ScheduledTick) (p : RewardProgram) (w : Uuid) (payouts : List Payout) :
    Prop where
  found : Found x.clock maxStale programId x.before p w payouts
  shares : sumShares payouts ≠ 0
  payable : Payable programId w payouts x.before

end

/-! ## What is written -/

theorem programs_foldl_credited {programId : Uuid} {coin : Coin} : ∀ (payouts : List Payout)
    (v : Db rewardExt), (payouts.foldl (credited programId coin) v).ext.programs = v.ext.programs
  | [], _ => rfl
  | _ :: payouts, _ => (programs_foldl_credited payouts _).trans rfl

theorem claimed_foldl_credited {programId : Uuid} {coin : Coin} {u : Uuid} :
    ∀ (payouts : List Payout) (v : Db rewardExt), (∀ y ∈ payouts, y.userId ≠ u) →
      (payouts.foldl (credited programId coin) v).ext.claimed u programId = v.ext.claimed u programId
  | [], _, _ => rfl
  | y :: payouts, v, h => by
    refine (claimed_foldl_credited payouts _ fun z hz => h z (List.mem_cons_of_mem _ hz)).trans ?_
    exact claimed_withAccrual_ne (Ne.symm (h y List.mem_cons_self))

theorem accruals_foldl_credited {programId : Uuid} {coin : Coin} : ∀ {payouts : List Payout}
    {v : Db rewardExt}, Payouts.Apart payouts → ∀ y ∈ payouts,
      (payouts.foldl (credited programId coin) v).ext.claimed y.userId programId =
        v.ext.claimed y.userId programId + y.share
  | [], _, _, y, hy => by cases hy
  | x :: payouts, v, hp, y, hy => by
    obtain ⟨hx, hp⟩ := List.pairwise_cons.1 hp
    rcases List.mem_cons.1 hy with rfl | hy
    · refine (claimed_foldl_credited payouts _ fun z hz => Ne.symm (hx z hz).2).trans ?_
      show (v.ext.withAccrual programId y).claimed y.userId programId = _
      unfold RewardDb.withAccrual RewardDb.claimed
      rw [AList.lookup_insert]
      rfl
    · refine (accruals_foldl_credited hp y hy).trans ?_
      have hne : y.userId ≠ x.userId := Ne.symm (hx y hy).2
      rw [show (credited programId coin v x).ext.claimed y.userId programId =
        v.ext.claimed y.userId programId from claimed_withAccrual_ne hne]

theorem claimed_foldl_other {programId i u : Uuid} {coin : Coin} (hi : i ≠ programId) :
    ∀ (payouts : List Payout) (v : Db rewardExt),
      (payouts.foldl (credited programId coin) v).ext.claimed u i = v.ext.claimed u i
  | [], _ => rfl
  | y :: payouts, v => by
    refine (claimed_foldl_other hi payouts _).trans ?_
    show (v.ext.withAccrual programId y).claimed u i = _
    unfold RewardDb.withAccrual RewardDb.claimed
    rw [AList.lookup_insert_ne (by simp [hi])]

theorem claimed_advanced (db : RewardDb) (programId u i : Uuid) (now : Instant) (finished : Bool) :
    (db.advanced programId now finished).claimed u i = db.claimed u i := by
  unfold RewardDb.advanced
  split <;> rfl

theorem wallets_foldl_credited {programId : Uuid} {coin : Coin} : ∀ (payouts : List Payout)
    (v : Db rewardExt), (payouts.foldl (credited programId coin) v).core.wallets = v.core.wallets
  | [], _ => rfl
  | _ :: payouts, _ => (wallets_foldl_credited payouts _).trans rfl

theorem lend_foldl_credited {programId : Uuid} {coin : Coin} : ∀ (payouts : List Payout)
    (v : Db rewardExt), (payouts.foldl (credited programId coin) v).ext.lend = v.ext.lend
  | [], _ => rfl
  | _ :: payouts, _ => (lend_foldl_credited payouts _).trans rfl

theorem houseWalletOf_congr {db db' : Db rewardExt} (hw : db'.core.wallets = db.core.wallets)
    (hl : db'.ext.lend = db.ext.lend) (coin : Coin) :
    houseWalletOf db' coin = houseWalletOf db coin := by
  unfold houseWalletOf Core.walletOf
  rw [hw, hl]

theorem advanced_lend (db : RewardDb) (programId : Uuid) (now : Instant) (finished : Bool) :
    (db.advanced programId now finished).lend = db.lend := by
  unfold RewardDb.advanced
  split <;> rfl

theorem advanced_programOf {db : RewardDb} {programId : Uuid} {p : RewardProgram}
    (h : db.programOf programId = some p) (now : Instant) (finished : Bool) :
    (db.advanced programId now finished).programOf programId = some (p.advanced now finished) := by
  unfold RewardDb.advanced
  rw [h]
  exact AList.lookup_insert _

/-! ## One tick -/

section
variable {maxStale : ℕ} {programId : Uuid} {x : ScheduledTick} {p : RewardProgram} {w : Uuid}
  {payouts : List Payout}

theorem PaysOut.after_eq (h : PaysOut maxStale programId x p w payouts) :
    x.after maxStale programId =
      (paidStore programId p.rewardCoin w payouts x.before).withExt
        ((paidStore programId p.rewardCoin w payouts x.before).ext.advanced programId x.now
          (p.finished x.now)) := by
  unfold ScheduledTick.after
  rw [h.found.tick_eq h.shares h.payable]
  rfl

theorem PaysOut.apportioned_eq (h : PaysOut maxStale programId x p w payouts) :
    x.apportioned maxStale programId = some (p.cappedEmission x.now (x.before.core.balance w)) := by
  unfold ScheduledTick.apportioned
  rw [h.found.program, h.found.plan_eq h.shares]
  dsimp only
  rw [h.found.paidShares_iff.2 ⟨h.payable, rfl⟩]
  rfl

theorem paysOut_of_apportioned {n : ℕ} (hn : x.apportioned maxStale programId = some n) :
    ∃ p w payouts, PaysOut maxStale programId x p w payouts := by
  unfold ScheduledTick.apportioned at hn
  split at hn
  · rename_i now finished coin w payouts hp hplan
    split at hn
    · rename_i v hpaid
      obtain ⟨hs, p', rfl, hf⟩ := found_of_pay hplan
      exact ⟨p', w, payouts, hf, hs, (hf.paidShares_iff.1 hpaid).1⟩
    · cases hn
  · cases hn

/-- With an inventory that covers it, what is paid is what has come due. -/
theorem PaysOut.amount (h : PaysOut maxStale programId x p w payouts)
    (hr : TickReady maxStale programId x) :
    x.apportioned maxStale programId = some (p.dueEmission (p.elapsedMs x.now)) := by
  obtain ⟨w', hw', -, hfund⟩ := hr.funded p h.found.program
  obtain rfl := Option.some.inj (h.found.house.symm.trans hw')
  have hreads := h.found.reads
  rw [h.apportioned_eq, cappedEmission_eq hreads.emission hreads.inventory,
    RewardProgram.payable, min_eq_left]
  omega

/-- The wallet of the house has an entry of the program after a tick that pays. -/
theorem PaysOut.rewarded (h : PaysOut maxStale programId x p w payouts) :
    (x.after maxStale programId).core.Rewarded programId w := by
  refine ⟨(debitOf programId p.rewardCoin w payouts).entry (-(sumShares payouts : ℤ)), ?_, rfl, rfl,
    rfl, rfl⟩
  have hledger : (x.after maxStale programId).core.ledger =
      rewardEntries programId p.rewardCoin w payouts ++ x.before.core.ledger := by
    rw [h.after_eq]
    exact ledger_paid
  rw [hledger]
  simp [rewardEntries]

/-- What a tick leaves as it is, whether it pays or not. -/
structure Leaves (programId : Uuid) (db db' : Db rewardExt) : Prop where
  entries : db.core.ledger ⊆ db'.core.ledger
  house : ∀ coin, houseWalletOf db' coin = houseWalletOf db coin
  program : ∀ p, db.ext.programOf programId = some p → ∃ p', db'.ext.programOf programId = some p' ∧
    p'.rewardCoin = p.rewardCoin ∧ p'.emissionPerDay = p.emissionPerDay

theorem Leaves.refl (db : Db rewardExt) : Leaves programId db db :=
  ⟨List.Subset.refl _, fun _ => rfl, fun p hp => ⟨p, hp, rfl, rfl⟩⟩

theorem leaves_advanced (db : Db rewardExt) (now : Instant) (finished : Bool) :
    Leaves programId db (db.withExt (db.ext.advanced programId now finished)) :=
  ⟨List.Subset.refl _, houseWalletOf_congr rfl (advanced_lend _ _ _ _),
    fun _ hp => ⟨_, advanced_programOf hp now finished, rfl, rfl⟩⟩

theorem leaves_paid (db : Db rewardExt) (coin : Coin) (w : Uuid) (payouts : List Payout) :
    Leaves programId db (paidStore programId coin w payouts db) where
  entries := by
    rw [ledger_paid]
    exact List.subset_append_right _ _
  house := houseWalletOf_congr (wallets_foldl_credited payouts _) (lend_foldl_credited payouts _)
  program p hp :=
    ⟨p, hp ▸ congrArg (AList.lookup programId) (programs_foldl_credited payouts _), rfl, rfl⟩

theorem Leaves.trans {db db' db'' : Db rewardExt} (h : Leaves programId db db')
    (h' : Leaves programId db' db'') : Leaves programId db db'' where
  entries := List.Subset.trans h.entries h'.entries
  house coin := (h'.house coin).trans (h.house coin)
  program p hp := by
    obtain ⟨p', hp', hc, he⟩ := h.program p hp
    obtain ⟨p'', hp'', hc', he'⟩ := h'.program p' hp'
    exact ⟨p'', hp'', hc'.trans hc, he'.trans he⟩

theorem leaves_after (x : ScheduledTick) :
    Leaves programId x.before (x.after maxStale programId) := by
  unfold ScheduledTick.after tick
  cases hplan : tickPlan x.clock maxStale programId x.before with
  | idle r => exact .refl _
  | advance now finished => exact leaves_advanced _ now finished
  | pay now finished coin w payouts =>
    unfold TickPlan.leaves
    dsimp only
    cases hpaid : paidShares programId coin w payouts x.before with
    | error e => exact .refl _
    | ok v =>
      obtain ⟨-, p, rfl, hf⟩ := found_of_pay hplan
      obtain ⟨-, rfl⟩ := hf.paidShares_iff.1 hpaid
      exact (leaves_paid _ _ _ _).trans (leaves_advanced _ now finished)

/-- A tick that pays moves the shares from the house to the users, unless their sum wraps. -/
theorem PaysOut.movesShares_iff (h : PaysOut maxStale programId x p w payouts) :
    MovesShares maxStale programId x p w payouts ↔ (payouts.map Payout.share).sum < 2 ^ 128 := by
  constructor
  · intro hm
    rw [← hm.debit]
    exact sumShares_lt payouts
  intro hlt
  have hsum : sumShares payouts = (payouts.map Payout.share).sum := Nat.mod_eq_of_lt hlt
  constructor
  · rw [h.after_eq]
    exact ledger_paid
  · exact hsum
  · intro y hy
    rw [h.after_eq]
    refine (claimed_advanced _ _ _ _ _ _).trans ?_
    exact accruals_foldl_credited h.found.apart.1 y hy
  · intro u i hu
    rw [h.after_eq]
    refine (claimed_advanced _ _ _ _ _ _).trans ?_
    by_cases hi : i = programId
    · subst hi
      exact claimed_foldl_credited payouts _ (hu rfl)
    · exact claimed_foldl_other hi payouts _
  · rw [hsum]
    exact h.found.covered

end

/-! ## A schedule -/

section
variable {maxStale : ℕ} {programId : Uuid} {t t' : Instant} {db db' : Db rewardExt}
  {xs : List ScheduledTick}

/-- No tick pays once the wallet of the house has an entry of the program. -/
theorem unpaid_of_rewarded (hs : Schedule maxStale programId t db xs t' db') {p : RewardProgram}
    {w : Uuid} (hp : db.ext.programOf programId = some p)
    (hw : houseWalletOf db p.rewardCoin = some w) (hr : db.core.Rewarded programId w) :
    ∀ x ∈ xs, x.apportioned maxStale programId = none := by
  induction hs generalizing p with
  | nil t db => simp
  | @cons t t' db db' x xs hlt hb hs ih =>
    have hp' : x.before.ext.programOf programId = some p := hb.program.trans hp
    have hw' := hb.house _ _ hw
    have hr' : x.before.core.Rewarded programId w := by
      obtain ⟨e, he, h⟩ := hr
      exact ⟨e, hb.entries he, h⟩
    have hl := @leaves_after maxStale programId x
    obtain ⟨p', hrow, hcoin, -⟩ := hl.program p hp'
    refine List.forall_mem_cons.2 ⟨?_, ih hrow ?_ ?_⟩
    · cases hn : x.apportioned maxStale programId with
      | none => rfl
      | some n =>
        obtain ⟨q, v, payouts, h⟩ := paysOut_of_apportioned hn
        obtain rfl := Option.some.inj (hp'.symm.trans h.found.program)
        obtain rfl := Option.some.inj (hw'.symm.trans h.found.house)
        exact absurd hr' h.payable.house.unrewarded
    · rw [hcoin, hl.house]
      exact hw'
    · obtain ⟨e, he, h⟩ := hr'
      exact ⟨e, hl.entries he, h⟩

/-- At most one tick of a schedule pays. -/
theorem paidTicks_le_one (hs : Schedule maxStale programId t db xs t' db') :
    paidTicks maxStale programId xs ≤ 1 := by
  induction hs with
  | nil t db => simp [paidTicks]
  | @cons t t' db db' x xs hlt hb hs ih =>
    unfold paidTicks at ih ⊢
    rw [List.countP_cons]
    cases hn : x.apportioned maxStale programId with
    | none => simpa using ih
    | some n =>
      obtain ⟨p, w, payouts, h⟩ := paysOut_of_apportioned hn
      have hl := @leaves_after maxStale programId x
      obtain ⟨p', hrow, hcoin, -⟩ := hl.program p h.found.program
      have hnone := unpaid_of_rewarded hs hrow
        (by rw [hcoin, hl.house]; exact h.found.house) h.rewarded
      have hzero : xs.countP (fun y => (y.apportioned maxStale programId).isSome) = 0 :=
        List.countP_eq_zero.2 fun y hy => by simp [hnone y hy]
      rw [hzero]
      simp

/-- Where at most one value of a list is there, it is the sum. -/
theorem sum_of_countP_le_one {α : Type} {f : α → Option ℕ} {a : α} {n : ℕ} : ∀ {l : List α},
    l.countP (fun a => (f a).isSome) ≤ 1 → a ∈ l → f a = some n →
      (l.map fun a => (f a).getD 0).sum = n ∧ l.countP (fun a => (f a).isSome) = 1
  | [], _, ha, _ => by cases ha
  | b :: l, hc, ha, hn => by
    rw [List.countP_cons] at hc ⊢
    rw [List.map_cons, List.sum_cons]
    cases hb : f b with
    | none =>
      rw [hb] at hc
      have hmem : a ∈ l := (List.mem_cons.1 ha).resolve_left fun e => by
        rw [e, hb] at hn
        cases hn
      simpa using sum_of_countP_le_one (by simpa using hc) hmem hn
    | some m =>
      rw [hb] at hc
      have hzero : l.countP (fun a => (f a).isSome) = 0 := by
        have : l.countP (fun a => (f a).isSome) + 1 ≤ 1 := by simpa using hc
        omega
      have hnone : ∀ c ∈ l, f c = none := fun c hcl =>
        Option.not_isSome_iff_eq_none.1 (List.countP_eq_zero.1 hzero c hcl)
      have hsum : (l.map fun a => (f a).getD 0).sum = 0 :=
        List.sum_eq_zero fun k hk => by
          obtain ⟨c, hcl, rfl⟩ := List.mem_map.1 hk
          simp [hnone c hcl]
      have hnm : m = n := by
        rcases List.mem_cons.1 ha with rfl | hmem
        · exact Option.some.inj (hb.symm.trans hn)
        · rw [hnone a hmem] at hn
          cases hn
      simp [hzero, hsum, hnm]

/-- The program emits the same at every tick. -/
theorem emission_of_schedule (hs : Schedule maxStale programId t db xs t' db') {p : RewardProgram}
    (hp : db.ext.programOf programId = some p) : ∀ x ∈ xs, ∀ q,
      x.before.ext.programOf programId = some q → q.emissionPerDay = p.emissionPerDay := by
  induction hs generalizing p with
  | nil t db => simp
  | @cons t t' db db' x xs hlt hb hs ih =>
    have hp' : x.before.ext.programOf programId = some p := hb.program.trans hp
    obtain ⟨p', hrow, -, he⟩ := (@leaves_after maxStale programId x).program p hp'
    refine List.forall_mem_cons.2 ⟨fun q hq => ?_, fun y hy q hq => (ih hrow y hy q hq).trans he⟩
    obtain rfl := Option.some.inj (hp'.symm.trans hq)
    rfl

def OnePaysAll (maxStale : ℕ) (programId : Uuid) (p : RewardProgram) (t₀ tₙ : Instant)
    (xs : List ScheduledTick) : Prop :=
  ∃ x ∈ xs, ∃ q w payouts, PaysOut maxStale programId x q w payouts ∧
    p.emissionPerDay * (tₙ - t₀) / microsPerDay = p.dueEmission (q.elapsedMs x.now)

theorem emittedExactly_iff {p : RewardProgram} (hp : db.ext.programOf programId = some p)
    (hs : Schedule maxStale programId t db xs t' db')
    (hr : ∀ x ∈ xs, TickReady maxStale programId x) :
    EmittedExactly maxStale programId p.emissionPerDay t t' xs ↔
      OnePaysAll maxStale programId p t t' xs := by
  have hday : (0 : ℤ) < microsPerDay := by decide
  have hone := paidTicks_le_one hs
  have hpaid : ∀ x ∈ xs, ∀ q w payouts, PaysOut maxStale programId x q w payouts →
      apportionedBy maxStale programId xs = p.dueEmission (q.elapsedMs x.now) ∧
        paidTicks maxStale programId xs = 1 := by
    intro x hx q w payouts hpay
    refine sum_of_countP_le_one hone hx ((hpay.amount (hr x hx)).trans ?_)
    unfold RewardProgram.dueEmission
    rw [emission_of_schedule hs hp x hx q hpay.found.program]
  constructor
  · intro h
    have hatMost := h.atMost
    have hshort := h.short
    have hpos : 0 < paidTicks maxStale programId xs := by
      by_contra hzero
      rw [Nat.eq_zero_of_not_pos hzero] at hshort
      push_cast at hshort
      linarith
    obtain ⟨x, hx, hsome⟩ := List.countP_pos_iff.1 hpos
    obtain ⟨n, hn⟩ := Option.isSome_iff_exists.1 hsome
    obtain ⟨q, w, payouts, hpay⟩ := paysOut_of_apportioned hn
    obtain ⟨hsum, hcount⟩ := hpaid x hx q w payouts hpay
    rw [hsum] at hatMost hshort
    rw [hcount] at hshort
    push_cast at hshort
    refine ⟨x, hx, q, w, payouts, hpay, ?_⟩
    rw [Int.ediv_eq_iff_of_pos hday]
    exact ⟨by linarith, by linarith⟩
  · rintro ⟨x, hx, q, w, payouts, hpay, hdue⟩
    obtain ⟨hsum, hcount⟩ := hpaid x hx q w payouts hpay
    rw [Int.ediv_eq_iff_of_pos hday] at hdue
    constructor
    · rw [hsum]
      linarith
    · rw [hsum, hcount]
      push_cast
      linarith

/-- Over a schedule of ticks that are ready, what is emitted is what has come due to less than a
unit for each tick that paid if and only if one tick pays all of it; and a tick that pays moves
the shares from the house to the users, unless their sum wraps. -/
theorem emitted_exactly {p : RewardProgram} (hp : db.ext.programOf programId = some p)
    (hs : Schedule maxStale programId p.lastEmittedAt db xs t' db')
    (hr : ∀ x ∈ xs, TickReady maxStale programId x) :
    (EmittedExactly maxStale programId p.emissionPerDay p.lastEmittedAt t' xs ↔
      OnePaysAll maxStale programId p p.lastEmittedAt t' xs) ∧
    ∀ x ∈ xs, ∀ q w payouts, PaysOut maxStale programId x q w payouts →
      (MovesShares maxStale programId x q w payouts ↔ (payouts.map Payout.share).sum < 2 ^ 128) :=
  ⟨emittedExactly_iff hp hs hr, fun _ _ _ _ _ h => h.movesShares_iff⟩

end

/-! ## Two schedules -/

def ticksAt (maxStale : ℕ) (programId : Uuid) : List Instant → Db rewardExt → List ScheduledTick
  | [], _ => []
  | t :: ts, db => ⟨atTime t, db⟩ ::
    ticksAt maxStale programId ts (ScheduledTick.after maxStale programId ⟨atTime t, db⟩)

def storeAfter (maxStale : ℕ) (programId : Uuid) : List Instant → Db rewardExt → Db rewardExt
  | [], db => db
  | t :: ts, db => storeAfter maxStale programId ts
    (ScheduledTick.after maxStale programId ⟨atTime t, db⟩)

theorem Between.refl {programId : Uuid} (db : Db rewardExt) : Between programId db db :=
  ⟨rfl, List.Subset.refl _, fun _ _ h => h⟩

theorem schedule_ticksAt {maxStale : ℕ} {programId : Uuid} : ∀ {ts : List Instant} {t : Instant}
    {db : Db rewardExt}, (t :: ts).IsChain (· < ·) →
      Schedule maxStale programId t db (ticksAt maxStale programId ts db) (ts.getLastD t)
        (storeAfter maxStale programId ts db)
  | [], t, db, _ => .nil t db
  | s :: ts, t, db, h => by
    obtain ⟨hlt, hc⟩ := List.isChain_cons_cons.1 h
    have hs := @schedule_ticksAt maxStale programId ts s
      (ScheduledTick.after maxStale programId ⟨atTime s, db⟩) hc
    rw [List.getLastD_cons]
    exact .cons hlt (.refl db) hs

def slowStart : Db rewardExt :=
  rewardStart.withExt { rewardStart.ext with
    programs := (∅ : Table RewardProgram).insert 3 ⟨.btc, 86400, 0, none, true, 0⟩ }

def slowTicks (ts : List Instant) : List ScheduledTick := ticksAt 10000000 3 ts slowStart

def slowReady (x : ScheduledTick) : Bool :=
  match x.before.ext.programOf 3 with
  | none => false
  | some p => p.active && decide (p.startAt ≤ p.lastEmittedAt) && p.endAt.isNone &&
    houseWalletOf x.before p.rewardCoin == some 2 && decide (0 < x.before.core.balance 2) &&
    decide ((p.dueEmission (p.elapsedMs x.now) : ℤ) ≤ x.before.core.balance 2) &&
    (storedWeight 10000000 x).any (0 < ·)

theorem ready_slow {x : ScheduledTick} (h : slowReady x = true) : TickReady 10000000 3 x := by
  unfold slowReady at h
  split at h
  · cases h
  rename_i p hp
  simp only [Bool.and_eq_true, decide_eq_true_eq, beq_iff_eq, Option.isNone_iff_eq_none,
    Option.any_eq_true] at h
  obtain ⟨⟨⟨⟨⟨⟨hactive, hstart⟩, hend⟩, hhouse⟩, hbalance⟩, hcovers⟩, hweight⟩ := h
  refine ⟨fun q hq => ?_, fun q hq => ?_, hweight⟩
  · obtain rfl := Option.some.inj (hp.symm.trans hq)
    exact ⟨hactive, hstart, fun e he => by rw [hend] at he; cases he⟩
  · obtain rfl := Option.some.inj (hp.symm.trans hq)
    exact ⟨2, hhouse, hbalance, hcovers⟩

/-- Ticks after 0.2, 1.5 and 1.6 seconds: the second pays the unit that has come due. -/
theorem paysOut_slow : ∃ x ∈ slowTicks [200000, 1500000, 1600000],
    PaysOut 10000000 3 x ⟨.btc, 86400, 0, none, true, 200000⟩ 2 [⟨1, 1, 1⟩] ∧ x.now = 1500000 := by
  refine ⟨_, List.mem_cons_of_mem _ List.mem_cons_self, ⟨?_, by decide, ?_, ?_⟩, rfl⟩
  · constructor <;> decide +kernel
  · exact ⟨by decide +kernel, by decide +kernel, not_rewarded_of_all (by decide +kernel)⟩
  · intro y hy
    obtain rfl := List.mem_singleton.1 hy
    exact ⟨⟨by decide +kernel, by decide +kernel, not_rewarded_of_all (by decide +kernel)⟩,
      by decide +kernel⟩

theorem emitted_exactly_slow :
    EmittedExactly 10000000 3 86400 0 1600000 (slowTicks [200000, 1500000, 1600000]) ∧
    ∃ x ∈ slowTicks [200000, 1500000, 1600000],
      MovesShares 10000000 3 x ⟨.btc, 86400, 0, none, true, 200000⟩ 2 [⟨1, 1, 1⟩] := by
  have hs : Schedule 10000000 3 0 slowStart (slowTicks [200000, 1500000, 1600000]) 1600000
      (storeAfter 10000000 3 [200000, 1500000, 1600000] slowStart) := schedule_ticksAt (by decide)
  have hready : ∀ x ∈ slowTicks [200000, 1500000, 1600000], TickReady 10000000 3 x := by
    have hall : (slowTicks [200000, 1500000, 1600000]).all slowReady = true := by decide +kernel
    exact fun x hx => ready_slow (List.all_eq_true.1 hall x hx)
  obtain ⟨x, hx, hpay, hnow⟩ := paysOut_slow
  obtain ⟨hexact, hmoves⟩ := emitted_exactly (p := ⟨.btc, 86400, 0, none, true, 0⟩) rfl hs hready
  refine ⟨hexact.2 ⟨x, hx, _, _, _, hpay, ?_⟩, x, hx, (hmoves x hx _ _ _ hpay).2 (by decide)⟩
  rw [hnow]
  decide +kernel

/-- A unit that has come due over two ticks is paid by neither. -/
theorem emission_forfeited : ∃ (db' : Db rewardExt) (xs : List ScheduledTick),
    Schedule 10000000 3 0 slowStart xs 1000000 db' ∧ (∀ x ∈ xs, TickReady 10000000 3 x) ∧
      ¬ EmittedExactly 10000000 3 86400 0 1000000 xs := by
  refine ⟨_, slowTicks [500000, 1000000], schedule_ticksAt (by decide), ?_, fun h => ?_⟩
  · have hall : (slowTicks [500000, 1000000]).all slowReady = true := by decide +kernel
    exact fun x hx => ready_slow (List.all_eq_true.1 hall x hx)
  · have hs := h.short
    have h₁ : apportionedBy 10000000 3 (slowTicks [500000, 1000000]) = 0 := by decide +kernel
    have h₂ : paidTicks 10000000 3 (slowTicks [500000, 1000000]) = 0 := by decide +kernel
    rw [h₁, h₂] at hs
    exact absurd hs (by decide +kernel)

end SatsPay
