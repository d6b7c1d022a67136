import SatsPay.Rewards
import SatsPay.SoloLedger

/-!
# Ticks of a reward program

A tick that nobody disturbs, as a function of the store and of what it reads of the clocks:
what it finds to do, and what it leaves.
-/

namespace SatsPay

open Interleave ReadCommitted

section
variable (clock : RewardCall → Instant) (maxStale : ℕ) (programId : Uuid)

/-! ## What a tick finds -/

def cachedPrice (db : RewardDb) (coin : Coin) : Except PricingDbError (ℕ × ℕ) :=
  match db.lend.prices coin with
  | none => .error (.noCachedPrice coin)
  | some r => openPrice coin maxStale (clock (.priceClock coin)) r

def cachedPrices (db : RewardDb) : List Coin → PriceTable → Except PricingDbError PriceTable
  | [], prices => .ok prices
  | coin :: coins, prices => do
    let price ← cachedPrice clock maxStale db coin
    cachedPrices db coins (Function.update prices coin price)

def freshPrices (db : RewardDb) : Except PricingDbError PriceTable :=
  cachedPrices clock maxStale db coins fun _ => (0, 0)

def userWeights (db : Db rewardExt) (prices : PriceTable) : Option Weights :=
  (userSums db.core.personalBalances db.ext.activeStakes db.ext.indexes db.ext.lendShares).map
    (List.foldl (addWeight db.ext.lend.house prices) ∅)

/-- The share of a user, if there is a wallet to pay it to. -/
def payoutTo (c : Core) (coin : Coin) (emission total : ℕ) (w : Sigma fun _ : Uuid => ℕ) :
    Option Payout :=
  (c.walletOf w.1 coin .personal).bind fun walletId =>
    if 0 < emission * w.2 / total then
      some ⟨w.1, walletId, (toU128 (emission * w.2 / total)).getD 0⟩ else none

def payoutsOf (c : Core) (coin : Coin) (emission total : ℕ) (ws : List (Sigma fun _ : Uuid => ℕ)) :
    List Payout := ws.filterMap (payoutTo c coin emission total)

inductive TickPlan where
  /-- To leave everything as it is. -/
  | idle (r : Except RewardsError Unit)
  | advance (now : Instant) (finished : Bool)
  | pay (now : Instant) (finished : Bool) (coin : Coin) (houseWalletId : Uuid) (payouts : List Payout)

def emissionPlan (db : Db rewardExt) (coin : Coin) (now : Instant) (finished : Bool)
    (houseWalletId : Uuid) (emission : ℕ) : TickPlan :=
  match freshPrices clock maxStale db.ext with
  | .error e => .idle (.error (.pricing e))
  | .ok prices =>
    match userWeights db prices with
    | none => .idle (.error .panicked)
    | some weights =>
      if totalWeight weights = 0 then .advance now finished
      else if sumShares (payoutsOf db.core coin emission (totalWeight weights) weights.entries) = 0 then
        .advance now finished
      else .pay now finished coin houseWalletId
        (payoutsOf db.core coin emission (totalWeight weights) weights.entries)

def houseWalletOf (db : Db rewardExt) (coin : Coin) : Option Uuid :=
  db.ext.lend.house.bind (db.core.walletOf · coin .house)

def programPlan (db : Db rewardExt) (p : RewardProgram) (now : Instant) : TickPlan :=
  if p.elapsedMs now ≤ 0 then .advance now (p.finished now)
  else if p.emission (p.elapsedMs now) = 0 then .advance now (p.finished now)
  else match houseWalletOf db p.rewardCoin with
    | none => .idle (.ok ())
    | some w =>
      if readBigInt (db.core.balance w) ≤ 0 then .idle (.ok ())
      else emissionPlan clock maxStale db p.rewardCoin now (p.finished now) w
        (min (p.emission (p.elapsedMs now)) (readBigInt (db.core.balance w)).toNat)

def tickPlan (db : Db rewardExt) : TickPlan :=
  match db.ext.programOf programId with
  | none => .idle (.ok ())
  | some p =>
    if !p.active then .idle (.ok ())
    else if clock .utcNow < p.startAt then .idle (.ok ())
    else programPlan clock maxStale db p (clock .utcNow)

/-! ## What a tick leaves -/

def RewardDb.advanced (db : RewardDb) (now : Instant) (finished : Bool) : RewardDb :=
  match db.programOf programId with
  | some p => { db with programs := db.programs.insert programId (p.advanced now finished) }
  | none => db

def RewardDb.withAccrual (db : RewardDb) (x : Payout) : RewardDb :=
  let claimed := db.claimed x.userId programId + x.share
  { db with accruals := db.accruals.insert (x.userId, programId) claimed }

def RewardDb.accrued (db : RewardDb) (x : Payout) : Except RewardsError RewardDb :=
  if |db.claimed x.userId programId + x.share| < 10 ^ 39 then .ok (db.withAccrual programId x)
  else .error (.db .numericOverflow)

def creditOf (coin : Coin) (x : Payout) : LedgerCreditInput :=
  referenced x.walletId x.share .reward programId "RewardProgram" ("Reward " ++ coin.asStr)

def debitOf (coin : Coin) (houseWalletId : Uuid) (payouts : List Payout) : LedgerCreditInput :=
  referenced houseWalletId (-(sumShares payouts : ℚ)) .reward programId "RewardProgram"
    ("Auto reward distribution " ++ coin.asStr)

def paidUser (coin : Coin) (v : Db rewardExt) (x : Payout) : Except RewardsError (Db rewardExt) :=
  match v.core.applied (creditOf programId coin x) with
  | .error e => .error (.ledger e)
  | .ok c => (v.ext.accrued programId x).map fun db => (v.withCore c).withExt db

def paidShares (coin : Coin) (houseWalletId : Uuid) (payouts : List Payout) (v : Db rewardExt) :
    Except RewardsError (Db rewardExt) :=
  match v.core.applied (debitOf programId coin houseWalletId payouts) with
  | .error e => .error (.house (debitHouseError coin e))
  | .ok c => payouts.foldlM (paidUser programId coin) (v.withCore c)

def TickPlan.leaves (db : Db rewardExt) : TickPlan → Except RewardsError Unit × Db rewardExt
  | .idle r => (r, db)
  | .advance now finished => (.ok (), db.withExt (db.ext.advanced programId now finished))
  | .pay now finished coin houseWalletId payouts =>
    match paidShares programId coin houseWalletId payouts db with
    | .error e => (.error e, db)
    | .ok v => (.ok (), v.withExt (v.ext.advanced programId now finished))

def tick (db : Db rewardExt) : Except RewardsError Unit × Db rewardExt :=
  (tickPlan clock maxStale programId db).leaves programId db

end

/-! ## The program is the function -/

section
variable {clock : RewardCall → Instant} {maxStale : ℕ} {programId : Uuid} {db v : Db rewardExt}

abbrev RewardSolo {ε α : Type} (clock : RewardCall → Instant) (db v : Db rewardExt)
    (c : Rewards ε α) (r : Except ε (α × Db rewardExt)) : Prop :=
  Solo (S := satsPay rewardExt) (fun c : RewardCall => clock c) db v c r

abbrev RewardEnd {ε α : Type} (clock : RewardCall → Instant) (db v : Db rewardExt)
    (c : Rewards ε α) (r : Except ε α) (db' : Db rewardExt) : Prop :=
  SoloEnd (S := satsPay rewardExt) (fun c : RewardCall => clock c) db v c r db'

theorem solo_read {ε : Type} [FromErr DbError ε] (st : RewardStmt) {a : st.Ans}
    (he : st.eval v.core v.ext = [.ok (a, [])]) :
    RewardSolo clock db v (rewardQuery st : Rewards ε _) (.ok (a, v)) :=
  solo_ext (X := rewardExt) (v := v) st he

theorem solo_getPrice (coin : Coin) :
    RewardSolo clock db v (Rewards.getPrice coin maxStale)
      ((cachedPrice clock maxStale v.ext coin).map fun a => (a, v)) := by
  refine (solo_read (.price coin) rfl).bind ?_
  unfold cachedPrice
  cases v.ext.lend.prices coin with
  | none => exact .throw _
  | some r =>
    refine (Solo.call (S := satsPay rewardExt) (RewardCall.priceClock coin)).bind ?_
    dsimp only
    cases openPrice coin maxStale (clock (.priceClock coin)) r with
    | error e => exact .throw _
    | ok a => exact .ret _

theorem solo_loadPrices : ∀ (cs : List Coin) (prices : PriceTable),
    RewardSolo clock db v (Rewards.loadPrices maxStale cs prices)
      ((cachedPrices clock maxStale v.ext cs prices).map fun a => (a, v))
  | [], prices => .ret _
  | coin :: cs, prices => by
    have h : RewardSolo clock db v (Rewards.getPrice coin maxStale)
        ((cachedPrice clock maxStale v.ext coin).map fun a => (a, v)) := solo_getPrice coin
    show RewardSolo clock db v (Rewards.getPrice coin maxStale >>= fun price =>
        Rewards.loadPrices maxStale cs (Function.update prices coin price))
      ((cachedPrice clock maxStale v.ext coin >>= fun price =>
        cachedPrices clock maxStale v.ext cs (Function.update prices coin price)).map fun a => (a, v))
    cases hp : cachedPrice clock maxStale v.ext coin with
    | error e =>
      rw [hp] at h
      exact Solo.bind_error h
    | ok a =>
      rw [hp] at h
      exact Solo.bind h (solo_loadPrices cs _)

theorem solo_loadPriceTable :
    RewardSolo clock db v (Rewards.loadPriceTable maxStale)
      (((freshPrices clock maxStale v.ext).map fun a => (a, v)).mapError .pricing) :=
  (solo_loadPrices coins _).mapErr _

theorem solo_computeUserWeights (prices : PriceTable) :
    RewardSolo clock db v (computeUserWeights prices) (match userWeights v prices with
      | none => .error .panicked
      | some weights => .ok (weights, v)) := by
  refine (solo_read .findHouse rfl).bind ((solo_read .personalBalances rfl).bind ?_)
  refine (solo_read .activeStakes rfl).bind ((solo_read .indexes rfl).bind ?_)
  refine (solo_read .lendShares rfl).bind ?_
  unfold userWeights
  cases userSums v.core.personalBalances v.ext.activeStakes v.ext.indexes v.ext.lendShares with
  | none => exact .throw _
  | some sums => exact .ret _

theorem solo_findPayouts (coin : Coin) (emission total : ℕ) :
    ∀ ws : List (Sigma fun _ : Uuid => ℕ), RewardSolo clock db v
      (findPayouts coin emission total ws) (.ok (payoutsOf v.core coin emission total ws, v))
  | [] => .ret _
  | w :: ws => by
    refine Solo.bind (solo_core (.walletOf w.1 coin .personal) rfl)
      ((solo_findPayouts coin emission total ws).bind ?_)
    simp only [payoutsOf, List.filterMap_cons, payoutTo]
    cases v.core.walletOf w.1 coin .personal with
    | none => exact .ret _
    | some walletId =>
      simp only [Option.bind_some]
      split
      · exact .ret _
      · exact .ret _

theorem end_pure : RewardEnd clock db v (pure () : Rewards RewardsError Unit) (.ok ()) db :=
  SoloEnd.of_solo (S := satsPay rewardExt) (r := .ok ((), v)) (.ret ())

theorem end_advanceProgram (now : Instant) (finished : Bool) :
    RewardEnd clock db v (advanceProgram programId now finished) (.ok ())
      (v.withExt (v.ext.advanced programId now finished)) := by
  have h : RewardSolo clock db v (rewardQuery (.advance programId now finished) : Rewards RewardsError Unit)
      (.ok ((), v.withExt (v.ext.advanced programId now finished))) := by
    unfold RewardDb.advanced
    cases hp : v.ext.programOf programId with
    | none =>
      have hq : (RewardStmt.advance programId now finished).eval v.core v.ext = [.ok ((), [])] := by
        simp only [RewardStmt.eval, hp]
      exact solo_ext (X := rewardExt) (v := v) (RewardStmt.advance programId now finished) hq
    | some p =>
      have hq : (RewardStmt.advance programId now finished).eval v.core v.ext =
          [.ok ((), [.putProgram programId (p.advanced now finished)])] := by
        simp only [RewardStmt.eval, hp]
      exact solo_ext (X := rewardExt) (v := v) (RewardStmt.advance programId now finished) hq
  exact SoloEnd.bind h .commit

theorem solo_payUser (coin : Coin) (x : Payout) :
    RewardSolo clock db v (payUser programId coin x)
      ((paidUser programId coin v x).map fun v' => ((), v')) := by
  have credit : RewardSolo clock db v _ _ :=
    (solo_applyLedgerEntry (creditOf programId coin x)).mapErr RewardsError.ledger
  unfold paidUser
  cases ha : v.core.applied (creditOf programId coin x) with
  | error e =>
    rw [ha] at credit
    exact Solo.bind_error credit
  | ok c =>
    rw [ha] at credit
    refine Solo.bind credit ?_
    unfold RewardDb.accrued
    dsimp only
    split
    · rename_i hfit
      have hq : (RewardStmt.addAccrual x.userId programId x.share).eval c v.ext =
          [.ok ((), [.putAccrual x.userId programId (v.ext.claimed x.userId programId + x.share)])] :=
        if_pos hfit
      exact solo_ext (X := rewardExt) (v := v.withCore c)
        (RewardStmt.addAccrual x.userId programId x.share) hq
    · rename_i hfit
      exact solo_ext_error (X := rewardExt) (v := v.withCore c)
        (RewardStmt.addAccrual x.userId programId x.share) (if_neg hfit)

theorem solo_payUsers (coin : Coin) : ∀ (payouts : List Payout) (v : Db rewardExt),
    RewardSolo clock db v (payouts.forM (payUser programId coin))
      ((payouts.foldlM (paidUser programId coin) v).map fun v' => ((), v'))
  | [], v => .ret _
  | x :: payouts, v => by
    have h : RewardSolo clock db v (payUser programId coin x)
        ((paidUser programId coin v x).map fun v' => ((), v')) := solo_payUser coin x
    show RewardSolo clock db v (payUser programId coin x >>= fun _ => payouts.forM (payUser programId coin))
      ((paidUser programId coin v x >>= fun v' => payouts.foldlM (paidUser programId coin) v').map
        fun v' => ((), v'))
    cases hp : paidUser programId coin v x with
    | error e =>
      rw [hp] at h
      exact Solo.bind_error h
    | ok v' =>
      rw [hp] at h
      exact Solo.bind h (solo_payUsers coin payouts v')

theorem solo_payShares {coin : Coin} {w : Uuid} {payouts : List Payout}
    (hw : houseWalletOf v coin = some w) (hne : sumShares payouts ≠ 0) :
    RewardSolo clock db v (payShares programId coin w payouts)
      ((paidShares programId coin w payouts v).map fun v' => ((), v')) := by
  obtain ⟨house, hh, hw⟩ := Option.bind_eq_some_iff.1 hw
  refine Solo.bind ((solo_lockWallets (X := rewardExt) _).mapErr _) ?_
  have find : RewardSolo clock db v rewardHouse (.ok (some house, v)) := by
    refine solo_read .findHouse ?_
    show [Except.ok (v.ext.lend.house, [])] = _
    rw [hh]
  have debit : RewardSolo clock db v _ ((((v.core.applied (debitOf programId coin w payouts)).map
      fun c => ((), v.withCore c)).mapError (debitHouseError coin)).mapError RewardsError.house) :=
    (solo_debitHouse (X := rewardExt) find hw (show (sumShares payouts : ℚ) ≠ 0 by exact_mod_cast hne)
      .reward programId "RewardProgram" ("Auto reward distribution " ++ coin.asStr)).mapErr _
  unfold paidShares
  cases ha : v.core.applied (debitOf programId coin w payouts) with
  | error e =>
    rw [ha] at debit
    exact Solo.bind_error debit
  | ok c =>
    rw [ha] at debit
    exact Solo.bind debit (solo_payUsers coin payouts _)

abbrev Follows (clock : RewardCall → Instant) (programId : Uuid) (db : Db rewardExt)
    (c : Rewards RewardsError Unit) (plan : TickPlan) : Prop :=
  RewardEnd clock db db c (plan.leaves programId db).1 (plan.leaves programId db).2

theorem follows_payEmission {coin : Coin} {w : Uuid} (hw : houseWalletOf db coin = some w)
    (now : Instant) (finished : Bool) (emission : ℕ) :
    Follows clock programId db (payEmission programId maxStale coin now finished w emission)
      (emissionPlan clock maxStale db coin now finished w emission) := by
  have prices : RewardSolo clock db db (Rewards.loadPriceTable maxStale) _ := solo_loadPriceTable
  unfold emissionPlan
  cases hp : freshPrices clock maxStale db.ext with
  | error e =>
    rw [hp] at prices
    exact SoloEnd.bind_error prices
  | ok t =>
    rw [hp] at prices
    have weights : RewardSolo clock db db _ _ := solo_computeUserWeights t
    refine SoloEnd.bind prices ?_
    dsimp only
    cases hu : userWeights db t with
    | none =>
      rw [hu] at weights
      exact SoloEnd.bind_error weights
    | some ws =>
      rw [hu] at weights
      refine SoloEnd.bind weights ?_
      dsimp only
      by_cases ht : totalWeight ws = 0
      · rw [if_pos ht, if_pos ht]
        exact end_advanceProgram now finished
      · rw [if_neg ht, if_neg ht]
        refine SoloEnd.bind (solo_findPayouts coin emission (totalWeight ws) ws.entries) ?_
        by_cases hs : sumShares (payoutsOf db.core coin emission (totalWeight ws) ws.entries) = 0
        · rw [if_pos hs, if_pos hs]
          exact end_advanceProgram now finished
        · rw [if_neg hs, if_neg hs]
          have pay : RewardSolo clock db db (payShares programId coin w _) _ := solo_payShares hw hs
          unfold TickPlan.leaves
          dsimp only
          cases hps : paidShares programId coin w
              (payoutsOf db.core coin emission (totalWeight ws) ws.entries) db with
          | error e =>
            rw [hps] at pay
            exact SoloEnd.bind_error pay
          | ok v =>
            rw [hps] at pay
            exact SoloEnd.bind pay (end_advanceProgram now finished)

theorem follows_emitProgram (p : RewardProgram) (now : Instant) :
    Follows clock programId db (emitProgram programId maxStale p now)
      (programPlan clock maxStale db p now) := by
  unfold emitProgram programPlan
  split
  · exact end_advanceProgram _ _
  split
  · exact end_advanceProgram _ _
  have wallet : RewardSolo clock db db
      (rewardQuery (.houseWallet p.rewardCoin) : Rewards RewardsError (Option Uuid))
      (.ok (houseWalletOf db p.rewardCoin, db)) := solo_read _ rfl
  cases hw : houseWalletOf db p.rewardCoin with
  | none =>
    rw [hw] at wallet
    exact SoloEnd.bind wallet end_pure
  | some w =>
    rw [hw] at wallet
    refine SoloEnd.bind wallet (SoloEnd.bind
      ((solo_core (X := rewardExt) (v := db) (.walletBalance w) rfl).mapErr _) ?_)
    dsimp only
    by_cases hb : readBigInt (db.core.balance w) ≤ 0
    · rw [if_pos hb, if_pos hb]
      exact SoloEnd.commit
    · rw [if_neg hb, if_neg hb]
      exact follows_payEmission hw now _ _

/-- A tick that runs alone does what `tick` says. -/
theorem distributeProgram_alone (clock : RewardCall → Instant) (maxStale : ℕ) (programId : Uuid)
    (db : Db rewardExt) :
    (distributeProgram programId maxStale).play
      (Runner.alone? (S := satsPay rewardExt) fun c : RewardCall => clock c) (.start db) =
      some ((tick clock maxStale programId db).1, .start (tick clock maxStale programId db).2) := by
  refine SoloEnd.transaction (S := satsPay rewardExt) ?_
  refine SoloEnd.bind (solo_read (.lockProgram programId) rfl) ?_
  have row : RewardSolo clock db db (rewardQuery (.program programId) : Rewards RewardsError _)
      (.ok (db.ext.programOf programId, db)) := solo_read _ rfl
  unfold tick tickPlan
  cases hp : db.ext.programOf programId with
  | none =>
    rw [hp] at row
    exact SoloEnd.bind row end_pure
  | some p =>
    rw [hp] at row
    refine SoloEnd.bind row ?_
    dsimp only
    by_cases ha : !p.active
    · rw [if_pos ha, if_pos ha]
      exact end_pure
    rw [if_neg ha, if_neg ha]
    refine SoloEnd.bind (Solo.call (S := satsPay rewardExt) RewardCall.utcNow) ?_
    show RewardEnd clock db db (if clock .utcNow < p.startAt then pure ()
      else emitProgram programId maxStale p (clock .utcNow)) _ _
    by_cases hs : clock .utcNow < p.startAt
    · rw [if_pos hs, if_pos hs]
      exact end_pure
    · rw [if_neg hs, if_neg hs]
      exact follows_emitProgram p _

end

end SatsPay
