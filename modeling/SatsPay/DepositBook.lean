import SatsPay.Deposits
import SatsPay.DexMoves

/-!
# The book of deposits

However the watchers interleave, the ledger has of an outpoint one deposit at most,
in the wallet and of the amount that its row says, if those who see the output
before and after it has its confirmations agree on the two.
-/

namespace SatsPay

open Interleave ReadCommitted RowProtocol

variable {O : Outside}

abbrev DepositHist (O : Outside) := Hist (sig (satsPay (depositsExt O)))
abbrev DepositDb (O : Outside) := Db (depositsExt O)

/-! ## One deposit -/

structure DepositView where
  row : Option Deposit
  outpoints : Outpoint → Option Uuid
  credits : List LedgerEntry
  coinOf : Uuid → Option Coin
  addressOf : Uuid → Option WalletAddress

def isCredit (id : Uuid) (e : LedgerEntry) : Bool :=
  e.type == .deposit && e.referenceType == some "Deposit" && e.referenceId == some id

theorem isCredit_iff {id : Uuid} {e : LedgerEntry} : isCredit id e = true ↔
    e.type = .deposit ∧ e.referenceType = some "Deposit" ∧ e.referenceId = some id := by
  simp [isCredit, and_assoc]

def DepositView.insert (d i : Uuid) (r : Deposit) (v : DepositView) : DepositView :=
  { v with
    row := if i = d then some r else v.row
    outpoints := Function.update v.outpoints r.outpoint (some i) }

def DepositView.update (d i : Uuid) (u : DepositUpdate) (v : DepositView) : DepositView :=
  { v with row := if i = d then v.row.map u.set else v.row }

def DepositView.addCredit (d : Uuid) (e : LedgerEntry) (v : DepositView) : DepositView :=
  { v with credits := if isCredit d e then e :: v.credits else v.credits }

def depositSee (d : Uuid) (db : DepositDb O) : DepositView where
  row := db.ext.deposits.lookup d
  outpoints o := db.ext.outpoints.lookup o
  credits := db.core.ledger.filter (isCredit d)
  coinOf w := (db.core.wallets.lookup w).map Wallet.coin
  addressOf w := db.ext.addresses.lookup w

def depositAct (d : Uuid) : Write (depositsExt O) → DepositView → DepositView
  | .ext (.insert i r), v => v.insert d i r
  | .ext (.update i u), v => v.update d i u
  | .core (.addEntry e), v => v.addCredit d e
  | .core (.putWallet i w), v => { v with coinOf := Function.update v.coinOf i (some w.coin) }
  | _, v => v

theorem depositSee_apply (d : Uuid) (w : Write (depositsExt O)) (db : DepositDb O) :
    depositSee d (w.apply db) = depositAct d w (depositSee d db) := by
  cases w with
  | ext w =>
    cases w with
    | addNetworkFee fee => rfl
    | insert i r =>
      refine congrArg₂ (DepositView.mk · · _ _ _) ?_ (funext fun o => ?_)
      · show (db.ext.deposits.insert i r).lookup d = if i = d then some r else db.ext.deposits.lookup d
        split
        · rename_i e
          rw [e, AList.lookup_insert]
        · rename_i e
          exact AList.lookup_insert_ne (Ne.symm e)
      · show (db.ext.outpoints.insert r.outpoint i).lookup o = _
        by_cases e : o = r.outpoint
        · rw [e, AList.lookup_insert, Function.update_self]
        · rw [AList.lookup_insert_ne e, Function.update_of_ne e]
          rfl
    | update i u =>
      refine DepositView.mk.injEq .. ▸ ⟨DepositWrite.lookup_update d i u db.ext,
        funext fun o => congrArg (AList.lookup o) (DepositWrite.outpoints_update i u db.ext), rfl, rfl,
        funext fun a => ?_⟩
      show ((DepositWrite.update i u).apply db.ext).addresses.lookup a = _
      unfold DepositWrite.apply
      dsimp only
      split <;> rfl
  | core w =>
    cases w with
    | addEntry e =>
      refine congrArg (DepositView.mk _ _ · _ _) ?_
      by_cases h : isCredit d e
      · exact (List.filter_cons_of_pos h).trans (if_pos h).symm
      · exact (List.filter_cons_of_neg h).trans (if_neg h).symm
    | putWallet i u =>
      refine congrArg (DepositView.mk _ _ _ · _) (funext fun j => ?_)
      by_cases h : j = i
      · subst h
        rw [Function.update_self]
        show ((db.core.wallets.insert j u).lookup j).map _ = _
        rw [AList.lookup_insert]
        rfl
      · rw [Function.update_of_ne h]
        show ((db.core.wallets.insert i u).lookup j).map _ = _
        rw [AList.lookup_insert_ne h]
        rfl
    | putJob _ _ | addOutbox _ | addAudit _ => rfl

def depositFocus (d : Uuid) : Focus (depositsExt O) where
  View := DepositView
  see := depositSee d
  act := depositAct d
  see_apply := depositSee_apply d
  see_tick := by
    rintro db _ ⟨t, -, rfl⟩
    rfl

theorem ignoresQueue_depositFocus (d : Uuid) : (depositFocus (O := O) d).IgnoresQueue :=
  ⟨fun _ _ => rfl, fun _ => rfl, fun _ => rfl⟩

/-! ## What is kept of a deposit -/

structure Deposit.Same (r r' : Deposit) : Prop where
  outpoint : r'.outpoint = r.outpoint
  walletId : r'.walletId = r.walletId
  amount : r'.amount = r.amount

theorem Deposit.Same.refl (r : Deposit) : r.Same r := ⟨rfl, rfl, rfl⟩

theorem Deposit.Same.trans {a b c : Deposit} (h : a.Same b) (h' : b.Same c) : a.Same c :=
  ⟨h'.outpoint.trans h.outpoint, h'.walletId.trans h.walletId, h'.amount.trans h.amount⟩

theorem Deposit.same_set (u : DepositUpdate) (r : Deposit) : r.Same (u.set r) := by
  cases u <;> exact ⟨rfl, rfl, rfl⟩

/-- The row could be written from the observation. -/
structure Observation.Of (x : Observation) (r : Deposit) : Prop where
  outpoint : x.outpoint = r.outpoint
  walletId : x.walletId = r.walletId
  amount : numeric39 x.amount = some r.amount

theorem Observation.Of.same {x : Observation} {r r' : Deposit} (h : x.Of r) (hr : r.Same r') :
    x.Of r' := ⟨h.outpoint.trans hr.outpoint.symm, h.walletId.trans hr.walletId.symm,
      h.amount.trans (congrArg some hr.amount.symm)⟩

section
variable (Seen : Observation → Prop) (d : Uuid)

def Recorded (r : Deposit) : Prop := ∃ x, Seen x ∧ x.confirmed = false ∧ x.Of r

/-- The row stands in the index, comes from what was seen, and has one credit at most. -/
structure Filed (v : DepositView) : Prop where
  indexed : ∀ o, v.outpoints o = some d ↔ ∃ r, v.row = some r ∧ r.outpoint = o
  origin : ∀ r, v.row = some r → ∃ x, Seen x ∧ x.Of r
  credits : ∀ e ∈ v.credits, ∃ r, v.row = some r ∧ e.walletId = r.walletId ∧ e.amount = r.amount
  once : v.credits.length ≤ 1

/-- And one that is not credited was seen before it had its confirmations. -/
structure Booked (v : DepositView) : Prop extends Filed Seen d v where
  waiting : ∀ r, v.row = some r → r.status ≠ .credited → Recorded Seen r
  paid : ∀ r, v.row = some r → r.status = .credited → v.credits ≠ []

/-- The deposit stays the same but for its status, and nobody touches the wallets. -/
structure DepositLater (v v' : DepositView) : Prop where
  coinOf : v'.coinOf = v.coinOf
  addressOf : v'.addressOf = v.addressOf
  row : ∀ r, v.row = some r → ∃ r', v'.row = some r' ∧ r.Same r'

end

theorem DepositLater.refl (v : DepositView) : DepositLater v v :=
  ⟨rfl, rfl, fun r hr => ⟨r, hr, .refl r⟩⟩

theorem DepositLater.trans {a b c : DepositView} (h : DepositLater a b) (h' : DepositLater b c) :
    DepositLater a c where
  coinOf := h'.coinOf.trans h.coinOf
  addressOf := h'.addressOf.trans h.addressOf
  row r hr := by
    obtain ⟨r', hr', hs⟩ := h.row r hr
    obtain ⟨r'', hr'', hs'⟩ := h'.row r' hr'
    exact ⟨r'', hr'', hs.trans hs'⟩

/-- Those who see an output before and those who see it after it has its confirmations
agree on its wallet and on its amount, as it is stored. -/
def Agree (Seen : Observation → Prop) : Prop :=
  ∀ x y, Seen x → Seen y → x.outpoint = y.outpoint → x.confirmed = false → y.confirmed = true →
    ∀ n m, numeric39 x.amount = some n → numeric39 y.amount = some m →
      x.walletId = y.walletId ∧ n = m

/-! ## Moves -/

section
variable {Seen : Observation → Prop} {d i : Uuid} {v : DepositView}

theorem later_update (u : DepositUpdate) : DepositLater v (v.update d i u) where
  coinOf := rfl
  addressOf := rfl
  row r hr := by
    by_cases e : i = d
    · exact ⟨u.set r, by simp [DepositView.update, e, hr], Deposit.same_set u r⟩
    · exact ⟨r, by simp [DepositView.update, e, hr], .refl r⟩

theorem update_ne (h : i ≠ d) (u : DepositUpdate) : v.update d i u = v := by
  simp [DepositView.update, h]

theorem update_row {r : Deposit} (hr : v.row = some r) (u : DepositUpdate) :
    (v.update d d u).row = some (u.set r) := by
  simp [DepositView.update, hr]

theorem filed_update (hv : Filed Seen d v) (u : DepositUpdate) : Filed Seen d (v.update d i u) := by
  by_cases e : i = d
  · subst e
    have hrow : ∀ r', (v.update i i u).row = some r' ↔ ∃ r, v.row = some r ∧ u.set r = r' := by
      intro r'
      simp [DepositView.update]
    constructor
    · intro o
      refine (hv.indexed o).trans ⟨?_, ?_⟩
      · rintro ⟨r, hr, rfl⟩
        exact ⟨u.set r, update_row hr u, (Deposit.same_set u r).outpoint⟩
      · rintro ⟨r', hr', rfl⟩
        obtain ⟨r, hr, rfl⟩ := (hrow r').1 hr'
        exact ⟨r, hr, (Deposit.same_set u r).outpoint.symm⟩
    · intro r' hr'
      obtain ⟨r, hr, rfl⟩ := (hrow r').1 hr'
      obtain ⟨x, hx, hof⟩ := hv.origin r hr
      exact ⟨x, hx, hof.same (Deposit.same_set u r)⟩
    · intro e he
      obtain ⟨r, hr, hw, ha⟩ := hv.credits e he
      have hs := Deposit.same_set u r
      exact ⟨u.set r, update_row hr u, hw.trans hs.walletId.symm, ha.trans hs.amount.symm⟩
    · exact hv.once
  · rw [update_ne e]
    exact hv

/-- An outpoint that is new. -/
theorem filed_insert (hv : Filed Seen d v) {r : Deposit} (ho : v.outpoints r.outpoint = none)
    (hd : i = d → v.row = none) (hr : i = d → ∃ x, Seen x ∧ x.Of r) :
    Filed Seen d (v.insert d i r) ∧ DepositLater v (v.insert d i r) := by
  by_cases e : i = d
  · subst e
    have hnone := hd rfl
    have hcredits : v.credits = [] := by
      refine List.eq_nil_iff_forall_not_mem.2 fun e he => ?_
      obtain ⟨r, hr, -⟩ := hv.credits e he
      rw [hnone] at hr
      cases hr
    refine ⟨⟨fun o => ?_, fun r' hr' => ?_, ?_, hv.once⟩, rfl, rfl, fun r' hr' => ?_⟩
    · simp only [DepositView.insert, if_true]
      by_cases eo : o = r.outpoint
      · simp [eo]
      · rw [Function.update_of_ne eo, hv.indexed]
        simp [hnone, Ne.symm eo]
    · cases (show some r = some r' by simpa [DepositView.insert] using hr')
      exact hr rfl
    · simp [DepositView.insert, hcredits]
    · rw [hnone] at hr'
      cases hr'
  · have hrow : (v.insert d i r).row = v.row := if_neg e
    refine ⟨⟨fun o => ?_, fun r' hr' => hv.origin r' (hrow ▸ hr'), ?_, hv.once⟩, rfl, rfl,
      fun r' hr' => ⟨r', hrow.trans hr', .refl r'⟩⟩
    · rw [hrow]
      refine Iff.trans ?_ (hv.indexed o)
      by_cases eo : o = r.outpoint
      · subst eo
        simp [DepositView.insert, ho, e]
      · simp [DepositView.insert, Function.update_of_ne eo]
    · rw [hrow]
      exact hv.credits

theorem booked_insert_ne (hv : Booked Seen d v) {r : Deposit} (ho : v.outpoints r.outpoint = none)
    (hd : i ≠ d) : Booked Seen d (v.insert d i r) := by
  have hrow : (v.insert d i r).row = v.row := if_neg hd
  exact ⟨(filed_insert hv.toFiled ho (absurd · hd) (absurd · hd)).1,
    fun r' hr' => hv.waiting r' (hrow ▸ hr'), fun r' hr' => hv.paid r' (hrow ▸ hr')⟩

/-- The credit of a row that has none. -/
theorem booked_credit (hv : Filed Seen d v) {e : LedgerEntry} (he : isCredit d e) {r : Deposit}
    (hr : v.row = some r) (hw : e.walletId = r.walletId) (ha : e.amount = r.amount)
    (hc : v.credits = []) : Booked Seen d ((v.addCredit d e).update d d .credited) := by
  have hcredits : (v.addCredit d e).credits = [e] := by simp [DepositView.addCredit, he, hc]
  have hadd : Filed Seen d (v.addCredit d e) := by
    refine ⟨hv.indexed, hv.origin, ?_, by simp [hcredits]⟩
    rw [hcredits]
    rintro e' he'
    cases List.mem_singleton.1 he'
    exact ⟨r, hr, hw, ha⟩
  refine ⟨filed_update hadd .credited, fun r' hr' hs => ?_, fun r' _ _ => ?_⟩
  · cases (update_row (v := v.addCredit d e) (d := d) hr .credited).symm.trans hr'
    exact absurd rfl hs
  · show (v.addCredit d e).credits ≠ []
    simp [hcredits]

theorem later_credit (e : LedgerEntry) :
    DepositLater v ((v.addCredit d e).update d i .credited) :=
  ⟨rfl, rfl, (later_update (v := v) (d := d) (i := i) .credited).row⟩

/-- What a watcher has made of its row when it commits, `x` being what it has seen. -/
structure Ready (Seen : Observation → Prop) (d : Uuid) (x : Observation) (i : Uuid)
    (g : DepositView → DepositView) (v : DepositView) : Prop where
  filed : Filed Seen d (g v)
  later : DepositLater v (g v)
  besides : i ≠ d → Booked Seen d (g v)
  credits : (g v).credits = v.credits
  row : i = d → ∃ r, (g v).row = some r ∧ r.status ≠ .credited ∧
    (x.confirmed = false → Recorded Seen r) ∧
    (x.confirmed = true → ∀ n, numeric39 x.amount = some n → x.walletId = r.walletId ∧ n = r.amount)

theorem Ready.booked {x : Observation} {g : DepositView → DepositView} (h : Ready Seen d x i g v)
    (hx : x.confirmed = false) : Booked Seen d (g v) := by
  by_cases e : i = d
  · obtain ⟨r, hr, hs, hrec, -⟩ := h.row e
    refine ⟨h.filed, fun r' hr' _ => ?_, fun r' hr' hs' => ?_⟩ <;> cases hr.symm.trans hr'
    · exact hrec hx
    · exact absurd hs' hs
  · exact h.besides e

theorem newStatus_ne (x : Observation) : x.newStatus ≠ .credited := by
  unfold Observation.newStatus
  split <;> simp

/-- A row that was seen before. -/
theorem ready_update {x : Observation} (hagree : Agree Seen) (hx : Seen x) (hv : Booked Seen d v)
    (hrow : i = d → ∃ r, v.row = some r ∧ r.outpoint = x.outpoint ∧ Recorded Seen r) :
    Ready Seen d x i (DepositView.update d i (.seen x.confirmations x.newStatus)) v where
  filed := filed_update hv.toFiled _
  later := later_update _
  besides e := by
    rw [update_ne e]
    exact hv
  credits := rfl
  row e := by
    subst e
    obtain ⟨r, hr, ho, hrec⟩ := hrow rfl
    have hs := Deposit.same_set (.seen x.confirmations x.newStatus) r
    refine ⟨_, update_row hr _, newStatus_ne x, fun _ => ?_, fun hc n hn => ?_⟩
    · obtain ⟨y, hy, hyc, hof⟩ := hrec
      exact ⟨y, hy, hyc, hof.same hs⟩
    · obtain ⟨y, hy, hyc, hof⟩ := hrec
      obtain ⟨hw, rfl⟩ := hagree y x hy hx (hof.outpoint.trans ho) hyc hc _ _ hof.amount hn
      exact ⟨hw.symm.trans hof.walletId, rfl⟩

/-- A row of its own. -/
theorem ready_insert {x : Observation} (hx : Seen x) (hv : Booked Seen d v) {n : ℤ}
    (hn : numeric39 x.amount = some n) (ho : v.outpoints x.outpoint = none)
    (hd : i = d → v.row = none) : Ready Seen d x i (DepositView.insert d i
      (NewDeposit.row ⟨x.walletId, x.outpoint, x.amount, x.confirmations, x.newStatus⟩ n)) v := by
  have hof : x.Of (NewDeposit.row ⟨x.walletId, x.outpoint, x.amount, x.confirmations, x.newStatus⟩ n) :=
    ⟨rfl, rfl, hn⟩
  obtain ⟨hf, hl⟩ := filed_insert (i := i) hv.toFiled ho hd fun _ => ⟨x, hx, hof⟩
  refine ⟨hf, hl, booked_insert_ne hv ho, rfl, fun e => ?_⟩
  refine ⟨_, if_pos e, newStatus_ne x, fun hc => ⟨x, hx, hc, hof⟩, fun _ m hm => ⟨rfl, ?_⟩⟩
  exact Option.some.inj (hm.symm.trans hn)

end

/-! ## The functions keep it -/

section
variable {cond : DepositDb O → DepositHist O → Event (sig (satsPay (depositsExt O))) → Prop}

def depositPlan (cond : DepositDb O → DepositHist O → Event (sig (satsPay (depositsExt O))) → Prop)
    (Seen : Observation → Prop) (d : Uuid) : Plan (depositFocus (O := O) d) cond :=
  .ofState cond (Booked Seen d) DepositLater DepositLater.refl fun _ _ _ => DepositLater.trans

variable {Seen : Observation → Prop} {d : Uuid} {p : Nat}
variable {f : DepositView → DepositView} {A : Plan.KeyAssertion (depositsExt O)}

theorem not_ledgerEntry {st : DepositStmt} :
    ∀ input, (Stmt.ext st : Stmt (depositsExt O)) ≠ .core (.insertLedgerEntry input) := by simp

/-- What the view says of a row stays true up to its status. -/
theorem keeps_sameRow {φ : Deposit → Prop} (hφ : ∀ r r', φ r → r.Same r' → φ r') (ψ : Prop) :
    (depositPlan cond Seen d).Keeps p fun _ db _ =>
      ψ → ∃ r, (depositSee d db).row = some r ∧ φ r where
  framed :=
    { stable := fun ws ks db h db' h' hg _ hr _ _ hp => by
        obtain ⟨r, hrow, hr₀⟩ := hg hp
        have hl : DepositLater (depositSee d db) (depositSee d db') := hr.2
        obtain ⟨r', hr', hs⟩ := hl.row r hrow
        exact ⟨r', hr', hφ r r' hr₀ hs⟩
      own := fun _ _ _ _ _ _ _ hg => hg }
  mono _ _ _ _ hg := hg

/-- An update of a row that is there, as the transaction sees it. -/
theorem triple_depositUpdate {i : Uuid} (u : DepositUpdate) (hA : (depositPlan cond Seen d).Keeps p A)
    (hrow : ∀ ks db h, Booked Seen d (depositSee d db) → A ks db h → i = d →
      (f (depositSee d db)).row.isSome) :
    (depositPlan cond Seen d).Keeping p (InTx p (Plan.Eff (depositFocus d) f A))
      (depositQuery (.update i u) : Deposits O DepositsError Unit)
      (outcome (fun _ => InTx p (Plan.Eff (depositFocus d) (DepositView.update d i u ∘ f) A))
        fun _ => InTx p fun _ => A) := by
  have run : (depositPlan cond Seen d).Keeping p (InTx p (Plan.Eff (depositFocus d) f A))
      (depositQuery (.update i u) : Deposits O DepositsError Unit)
      (outcome (fun _ c => ∃ _ : Unit, InTx p (Plan.Eff (depositFocus d)
        (DepositView.update d i u ∘ f) A) c) fun _ => InTx p fun _ => A) := by
    refine Plan.triple_effect (P := depositPlan cond Seen d) (.ext (DepositStmt.update i u))
      not_ledgerEntry (ι := Unit) (g := fun _ _ => DepositView.update d i u) (C := fun _ _ => A) hA
      (fun _ _ => hA) ?_
    intro ws ks db h a ws' hi hg he
    obtain ⟨ws₁, h', rfl⟩ := ext_eval_ok he
    change Except.ok (a, ws₁) ∈ DepositStmt.eval (.update i u) (viewOf ws db).core (viewOf ws db).ext at h'
    cases List.mem_singleton.1 h'
    refine ⟨(), ?_, hA.mono _ _ _ _ hg.left⟩
    by_cases e : i = d
    · subst e
      have hs : depositSee i (viewOf ws db) = f (depositSee i db) := hg.see
      have hsome : ((viewOf ws db).ext.deposits.lookup i).isSome := by
        show (depositSee i (viewOf ws db)).row.isSome
        rw [hs]
        exact hrow ks db h hi hg.left rfl
      rw [if_pos hsome]
      rfl
    · have hid : DepositView.update d i u = id := funext fun v => update_ne e u
      rw [hid]
      split
      · exact hid
      · rfl
  refine .conseq run (fun _ _ h => h) fun r _ _ h => ?_
  cases r with
  | ok _ =>
    obtain ⟨-, h⟩ := h
    exact h
  | error _ => exact h

/-- The commit of what has been made of the deposit. -/
theorem triple_commit_booked (hA : ∀ ks db h, Booked Seen d (depositSee d db) → A ks db h →
      Booked Seen d (f (depositSee d db)) ∧ DepositLater (depositSee d db) (f (depositSee d db))) :
    (depositPlan cond Seen d).Keeping p (InTx p (Plan.Eff (depositFocus d) f A))
      (commit : Deposits O DepositsError Unit)
      (outcome (fun _ => Idle p fun _ _ => True) fun _ => Over fun _ _ => True) := by
  refine Plan.triple_commit (P := depositPlan cond Seen d) stable_true framed_true ?_
    fun _ _ _ _ => trivial
  intro ks db h hi ha _
  obtain ⟨h₁, h₂⟩ := hA ks db h hi ha
  exact ⟨⟨h₁, fun _ _ => h₂⟩, fun _ _ => trivial⟩

variable {x : Observation} {i : Uuid} {numericText : ℚ → String}

theorem isCredit_depositCredit (walletId : Uuid) (amount : ℚ) (memo : String) (n : ℤ) :
    isCredit d ((depositCredit walletId amount i memo).entry n) = decide (i = d) := by
  by_cases e : i = d <;> simp [isCredit, depositCredit, LedgerCreditInput.entry, e]

/-- The wallet has no entry of the deposit yet. -/
theorem credits_eq_nil {walletId : Uuid} {amount : ℚ} {memo : String} {n : ℤ}
    {ks : List (Key (depositsExt O))} {db : DepositDb O} {h : DepositHist O}
    (hf : Plan.Fresh ((depositCredit walletId amount d memo).entry n) ks db h)
    (hw : ∀ e ∈ (depositSee d db).credits, e.walletId = walletId) : (depositSee d db).credits = [] := by
  refine List.eq_nil_iff_forall_not_mem.2 fun e he => ?_
  have hwe := hw e he
  obtain ⟨hmem, hcredit⟩ := List.mem_filter.1 he
  obtain ⟨ht, hrt, hri⟩ := isCredit_iff.1 hcredit
  have hrow : e ∈ (db.core.row walletId).2 := List.mem_filter.2 ⟨hmem, by simpa using hwe⟩
  have := List.any_eq_false.1 hf.2 e hrow
  simp [LedgerEntry.clash, depositCredit, LedgerCreditInput.entry, hwe, ht, hrt, hri] at this

/-- From a row that is ready to the end. -/
theorem keeps_creditRecorded (hx : x.confirmed = true) (hA : (depositPlan cond Seen d).Keeps p A)
    (hready : ∀ ks db h, Booked Seen d (depositSee d db) → A ks db h →
      Ready Seen d x i f (depositSee d db)) :
    (depositPlan cond Seen d).Keeping p (InTx p (Plan.Eff (depositFocus d) f A))
      (creditRecorded numericText x i : Deposits O DepositsError _)
      fun _ => Over fun _ _ => True := by
  unfold creditRecorded
  split
  · exact .throw fun _ _ _ => trivial
  · rename_i memo _
    refine Plan.bind_left (Plan.triple_apply_fresh hA) (fun _ => ?_) fun _ _ _ _ => trivial
    refine .of_exists fun n => .of_pure fun hn => ?_
    let e := (depositCredit x.walletId x.amount i memo).entry n
    have hA' : (depositPlan cond Seen d).Keeps p fun ks db h => A ks db h ∧ Plan.Fresh e ks db h :=
      hA.and (Plan.keeps_fresh e)
    have hrow : ∀ ks db h, Booked Seen d (depositSee d db) → (A ks db h ∧ Plan.Fresh e ks db h) →
        i = d → ((DepositView.addCredit d e ∘ f) (depositSee d db)).row.isSome := by
      intro ks db h hv ha hid
      obtain ⟨r, hr, -⟩ := (hready ks db h hv ha.1).row hid
      exact Option.isSome_of_eq_some hr
    refine Plan.bind_left (triple_depositUpdate .credited hA' hrow) (fun _ => ?_) fun _ _ _ _ => trivial
    have outbox : (depositFocus (O := O) d).Aside (.core (.insertOutbox (.depositConfirmed x.walletId i
        x.coin.asStr (numericText x.amount) x.outpoint.txHash))) :=
      Focus.aside_core _ (ignoresQueue_depositFocus d) (by simp) (by simp)
    refine Plan.bind_left (triple_mapErr (Plan.triple_aside _ (by simp) outbox hA') fun _ _ h => h)
      (fun _ => ?_) fun _ _ _ _ => trivial
    refine .bind (triple_commit_booked ?_) (fun _ => .ret fun _ _ _ => trivial) fun _ _ _ h => h
    rintro ks db h hv ⟨ha, hfresh⟩
    have hr := hready ks db h hv ha
    let v := depositSee d db
    show Booked Seen d (((f v).addCredit d e).update d i .credited) ∧
      DepositLater v (((f v).addCredit d e).update d i .credited)
    by_cases hid : i = d
    · subst hid
      obtain ⟨r, hrow, -, -, hpay⟩ := hr.row rfl
      obtain ⟨hw, hn'⟩ := hpay hx n hn
      have hcredits : (f (depositSee i db)).credits = [] := by
        rw [hr.credits]
        refine credits_eq_nil hfresh fun e' he' => ?_
        obtain ⟨r', hr', hw', -⟩ := hr.filed.credits e' (hr.credits.symm ▸ he')
        cases hrow.symm.trans hr'
        exact hw'.trans hw.symm
      have hcredit : isCredit i e := (isCredit_depositCredit _ _ _ _).trans (decide_eq_true rfl)
      exact ⟨booked_credit hr.filed hcredit hrow hw hn' hcredits,
        hr.later.trans (later_credit e)⟩
    · have hcredit : isCredit d e = false := (isCredit_depositCredit _ _ _ _).trans (decide_eq_false hid)
      have hid' : ((f v).addCredit d e).update d i .credited = f v := by
        rw [update_ne hid]
        simp [DepositView.addCredit, hcredit]
      rw [hid']
      exact ⟨hr.besides hid, hr.later⟩

/-- After the row is recorded. -/
theorem keeps_recorded (hA : (depositPlan cond Seen d).Keeps p A)
    (hready : ∀ ks db h, Booked Seen d (depositSee d db) → A ks db h →
      Ready Seen d x i f (depositSee d db)) :
    (depositPlan cond Seen d).Keeping p (InTx p (Plan.Eff (depositFocus d) f A))
      (if x.confirmed then creditRecorded numericText x i else do
        commit
        pure .recorded : Deposits O DepositsError _)
      fun _ => Over fun _ _ => True := by
  split
  · rename_i hx
    exact keeps_creditRecorded hx hA hready
  · rename_i hx
    refine .bind (triple_commit_booked fun ks db h hv ha => ?_) (fun _ => .ret fun _ _ _ => trivial)
      fun _ _ _ h => h
    have hr := hready ks db h hv ha
    exact ⟨hr.booked (by simpa using hx), hr.later⟩

end

end SatsPay
