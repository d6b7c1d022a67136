import SatsPay.DepositBook
import SatsPay.Script

/-!
# Deposits over whole runs
-/

namespace SatsPay

open Interleave ReadCommitted RowProtocol

variable {O : Outside}

section
variable {cond : DepositDb O → DepositHist O → Event (sig (satsPay (depositsExt O))) → Prop}
variable {Seen : Observation → Prop} {d : Uuid} {p : Nat} {x : Observation}
variable {numericText : ℚ → String}

/-- What stays of the row found at an outpoint: if it is this deposit's and waits for its
credit, it was recorded before. -/
def Waiting (Seen : Observation → Prop) (d : Uuid) (o : Outpoint) (existing : Option (Uuid × Deposit)) :
    Plan.KeyAssertion (depositsExt O) := fun _ db _ =>
  (existing.map fun r => r.2.status) ≠ some .credited ∧ existing.map Prod.fst = some d →
    ∃ r, (depositSee d db).row = some r ∧ r.outpoint = o ∧ Recorded Seen r

theorem keeps_waiting (o : Outpoint) (existing : Option (Uuid × Deposit)) :
    (depositPlan cond Seen d).Keeps p (Waiting Seen d o existing) :=
  keeps_sameRow (φ := fun r => r.outpoint = o ∧ Recorded Seen r)
    (fun _ _ h hs => ⟨hs.outpoint.trans h.1,
      have ⟨y, hy, hc, hof⟩ := h.2
      ⟨y, hy, hc, hof.same hs⟩⟩) _

theorem triple_findByOutpoint (o : Outpoint) :
    (depositPlan cond Seen d).Keeping p (InTx p (Plan.Eff (depositFocus d) id fun _ _ _ => True))
      (depositQuery (.findByOutpoint o) : Deposits O DepositsError (Option (Uuid × Deposit)))
      (outcome (fun existing => InTx p (Plan.Eff (depositFocus d) id (Waiting Seen d o existing)))
        fun _ => InTx p fun _ _ _ _ => True) := by
  have aside : (depositFocus (O := O) d).Aside (.ext (DepositStmt.findByOutpoint o)) :=
    Focus.aside_of_reads _ fun db a ws he => by
      obtain ⟨-, rfl⟩ := ext_eval_one rfl he
      rfl
  refine .conseq (Plan.triple_reading (P := depositPlan cond Seen d)
    (.ext (DepositStmt.findByOutpoint o)) not_ledgerEntry aside (Plan.keeps_fact True)
    (keeps_waiting o) ?_) (fun _ _ h => h) fun r _ _ h => ?_
  · rintro ws ks db h a ws' hi hg he ⟨hs, hd⟩
    obtain ⟨ha, -⟩ := ext_eval_one rfl he
    have hview : depositSee d (viewOf ws db) = depositSee d db := hg.see
    cases a with
    | none => cases hd
    | some existing =>
    obtain ⟨j, r⟩ := existing
    cases Option.some.inj hd
    obtain ⟨j', hj, hr⟩ := Option.bind_eq_some_iff.1 ha.symm
    obtain ⟨r', hr', he⟩ := Option.map_eq_some_iff.1 hr
    cases he
    have hindex : (depositSee j db).outpoints o = some j := hview ▸ hj
    have hrow : (depositSee j db).row = some r := hview ▸ hr'
    obtain ⟨r₀, hr₀, ho⟩ := (hi.indexed o).1 hindex
    cases hrow.symm.trans hr₀
    have hwait : r.status ≠ .credited := fun e => hs (congrArg some e)
    exact ⟨r, hrow, ho, hi.waiting r hrow hwait⟩
  · cases r with
    | ok _ => exact Plan.inTx_imp (fun _ _ _ h => h.2) h
    | error _ => exact h

def Unused (d i : Uuid) (o : Outpoint) : Plan.KeyAssertion (depositsExt O) := fun ks db _ =>
  (Key.ext (X := depositsExt O) (DepositKey.outpoint o) ∈ ks ∧ db.ext.outpoints.lookup o = none) ∧
  (Key.ext (X := depositsExt O) (DepositKey.row i) ∈ ks ∧ (i = d → db.ext.deposits.lookup i = none))

theorem keeps_unused (i : Uuid) (o : Outpoint) :
    (depositPlan cond Seen d).Keeps p (Unused d i o) :=
  .and (Plan.keeps_row (.ext (X := depositsExt O) (DepositKey.outpoint o)) (· = none))
    (Plan.keeps_row (.ext (X := depositsExt O) (DepositKey.row i)) fun r => i = d → r = none)

theorem triple_insertDeposit {i : Uuid} (input : NewDeposit)
    (hA : (depositPlan cond Seen d).Keeps p fun _ _ _ => True) :
    (depositPlan cond Seen d).Keeping p (InTx p (Plan.Eff (depositFocus d) id fun _ _ _ => True))
      (depositQuery (.insertDeposit i input) : Deposits O DepositsError Unit)
      (outcome (fun _ c => ∃ n, InTx p (Plan.Eff (depositFocus d)
        (DepositView.insert d i (input.row n)) fun ks db h =>
          numeric39 input.amount = some n ∧ Unused d i input.outpoint ks db h) c)
        fun _ => InTx p fun _ _ _ _ => True) := by
  refine Plan.triple_effect (P := depositPlan cond Seen d) (.ext (DepositStmt.insertDeposit i input))
    not_ledgerEntry (g := fun _ n => DepositView.insert d i (input.row n)) hA
    (fun _ n => (Plan.keeps_fact _).and (keeps_unused i input.outpoint)) ?_
  intro ws ks db h a ws' _ hg he
  obtain ⟨ws₁, h', rfl⟩ := ext_eval_ok he
  obtain ⟨n, hn, hrow, ho, -, rfl⟩ := DepositsDb.insertDeposit_ok (List.mem_singleton.1 h').symm
  have hview : depositSee d (viewOf ws db) = depositSee d db := hg.see
  refine ⟨n, rfl, hn, ⟨List.mem_append_right _ ?_, ?_⟩, List.mem_append_right _ ?_, ?_⟩
  · exact List.mem_map_of_mem (List.mem_cons_of_mem _ (List.mem_singleton_self _))
  · exact (congrArg (fun v => v.outpoints input.outpoint) hview).symm.trans ho
  · exact List.mem_map_of_mem List.mem_cons_self
  · rintro rfl
    exact (congrArg DepositView.row hview).symm.trans hrow

/-- The row as it was found or as it is made, ready for what follows. -/
theorem keeps_recordDeposit (hagree : Agree Seen) (hx : Seen x) {existing : Option (Uuid × Deposit)}
    (hs : (existing.map fun r => r.2.status) ≠ some .credited) :
    (depositPlan cond Seen d).Keeping p
      (InTx p (Plan.Eff (depositFocus d) id (Waiting Seen d x.outpoint existing)))
      (do
        let depositId ← recordDeposit x existing
        if x.confirmed then creditRecorded numericText x depositId
        else do
          commit
          pure .recorded : Deposits O DepositsError CreditDepositOutcome)
      fun _ => Over fun _ _ => True := by
  cases existing with
  | some r =>
    obtain ⟨i, r⟩ := r
    have hA : (depositPlan cond Seen d).Keeps p (Waiting Seen d x.outpoint (some (i, r))) :=
      keeps_waiting x.outpoint (some (i, r))
    have hready : ∀ ks (db : DepositDb O) h, Booked Seen d (depositSee d db) →
        Waiting Seen d x.outpoint (some (i, r)) ks db h → Ready Seen d x i
          (DepositView.update d i (.seen x.confirmations x.newStatus)) (depositSee d db) :=
      fun ks db h hv hw => ready_update hagree hx hv fun e => hw ⟨hs, congrArg some e⟩
    have record : (depositPlan cond Seen d).Keeping p
        (InTx p (Plan.Eff (depositFocus d) id (Waiting Seen d x.outpoint (some (i, r)))))
        (recordDeposit x (some (i, r)) : Deposits O DepositsError Uuid)
        (outcome (fun j c => j = i ∧ InTx p (Plan.Eff (depositFocus d)
          (DepositView.update d i (.seen x.confirmations x.newStatus))
          (Waiting Seen d x.outpoint (some (i, r)))) c) fun _ => InTx p fun _ _ _ _ => True) := by
      refine .bind (triple_depositUpdate _ hA fun ks db h _ hw e => ?_)
        (fun _ => .ret fun _ _ h => ⟨rfl, h⟩) fun _ _ _ ⟨t, ht, _⟩ => ⟨t, ht, trivial⟩
      obtain ⟨r', hr', -⟩ := hw ⟨hs, congrArg some e⟩
      exact Option.isSome_of_eq_some hr'
    refine .bind record (fun j => ?_) fun _ _ _ _ => trivial
    refine .of_pure fun hj => ?_
    subst hj
    exact keeps_recorded hA hready
  | none =>
    have hT : (depositPlan cond Seen d).Keeps p fun _ _ _ => True := Plan.keeps_fact True
    have record : (depositPlan cond Seen d).Keeping p
        (InTx p (Plan.Eff (depositFocus d) id (Waiting Seen d x.outpoint none)))
        (recordDeposit x none : Deposits O DepositsError Uuid)
        (outcome (fun j c => ∃ n, InTx p (Plan.Eff (depositFocus d) (DepositView.insert d j
            (NewDeposit.row ⟨x.walletId, x.outpoint, x.amount, x.confirmations, x.newStatus⟩ n))
          fun ks db h => numeric39 x.amount = some n ∧ Unused d j x.outpoint ks db h) c)
          fun _ => InTx p fun _ _ _ _ => True) := by
      refine .conseq (A := InTx p (Plan.Eff (depositFocus d) id fun _ _ _ => True)) ?_
        (fun _ _ h => Plan.inTx_imp (fun _ _ _ _ => trivial) h) fun _ _ _ h => h
      refine .bind (Plan.triple_call hT .newUuid fun _ => trivial) (fun j => ?_) fun _ _ _ h => h
      exact .bind (triple_insertDeposit _ hT) (fun _ => .ret fun _ _ h => h) fun _ _ _ h => h
    refine .bind record (fun j => .of_exists fun n => ?_) fun _ _ _ _ => trivial
    refine keeps_recorded ((Plan.keeps_fact _).and (keeps_unused j x.outpoint)) ?_
    rintro ks db h hv ⟨hn, ⟨-, ho⟩, -, hrow⟩
    exact ready_insert hx hv hn ho fun e => e ▸ hrow e

theorem calm_creditDeposit (hagree : Agree Seen) (hx : Seen x) :
    (depositPlan cond Seen d).Calm p (fun _ => True)
      (creditDeposit numericText x : Deposits O DepositsError _) := by
  have hK : (depositPlan cond Seen d).Knows p fun _ => True := Plan.knows_true
  refine .transaction hK ?_
  have hT : (depositPlan cond Seen d).Keeps p fun _ _ _ => True := Plan.keeps_fact True
  refine Plan.bind_left (Plan.triple_lockWallet hT _) (fun _ => ?_) fun _ _ _ _ => trivial
  refine .bind (triple_findByOutpoint x.outpoint) (fun existing => ?_) fun _ _ _ _ => trivial
  split
  · exact .ret fun _ _ _ => trivial
  · rename_i hs
    exact keeps_recordDeposit hagree hx hs

end

/-! ## Runs -/

/-- The observations, one after another; what fails is passed over. -/
def creditAll (numericText : ℚ → String) (obs : List Observation) : Deposits O Empty Unit :=
  obs.forM fun x => do
    let _ ← (creditDeposit numericText x).attempt
    pure ()

/-- A watcher: it may be given any of what is seen, in any order and any number of times. -/
inductive DepositClient (numericText : ℚ → String) (Seen : Observation → Prop) :
    Code (satsPay (depositsExt O)) Empty Unit → Prop
  | creditAll (obs : List Observation) (h : ∀ x ∈ obs, Seen x) :
    DepositClient numericText Seen (creditAll numericText obs)

theorem keeps_depositClient {numericText : ℚ → String} {Seen : Observation → Prop}
    (hagree : Agree Seen) {d : Uuid} {p : Nat} {c : Code (satsPay (depositsExt O)) Empty Unit}
    (hc : DepositClient numericText Seen c) :
    (depositPlan (fun _ _ _ => True) Seen d).rows.toProtocol.Triple p (Idle p (Unborn p)) c
      fun _ => Over ((depositPlan (fun _ _ _ => True) Seen d).rows.done p) := by
  obtain ⟨obs, hobs⟩ := hc
  have calm : (depositPlan (fun _ _ _ => True) Seen d).Calm p (fun _ => True)
      (creditAll numericText obs : Deposits O Empty Unit) := by
    unfold creditAll
    induction obs with
    | nil => exact .ret ()
    | cons x obs ih =>
      obtain ⟨hx, hobs⟩ := List.forall_mem_cons.1 hobs
      exact .bind (.bind (.attempt (calm_creditDeposit hagree hx)) fun _ => .ret ()) fun _ => ih hobs
  exact .conseq calm (fun _ _ h => ⟨h.1, trivial⟩) fun _ _ _ _ => trivial

structure NoDeposits (db : DepositDb O) : Prop where
  rows : ∀ i, db.ext.deposits.lookup i = none
  outpoints : ∀ o, db.ext.outpoints.lookup o = none
  entries : ∀ e ∈ db.core.ledger, e.referenceType ≠ some "Deposit"

theorem booked_of_noDeposits {Seen : Observation → Prop} {db : DepositDb O} (h : NoDeposits db)
    (d : Uuid) : Booked Seen d (depositSee d db) := by
  have hrow : (depositSee d db).row = none := h.rows d
  have hcredits : (depositSee d db).credits = [] :=
    List.filter_eq_nil_iff.2 fun e he hc => h.entries e he (isCredit_iff.1 hc).2.1
  refine ⟨⟨fun o => ?_, ?_, ?_, ?_⟩, ?_, ?_⟩ <;> simp only [hrow, hcredits]
  · rw [show (depositSee d db).outpoints o = none from h.outpoints o]
    simp
  · simp
  · simp
  · simp
  · simp
  · simp

def depositEntries (o : Outpoint) (db : DepositDb O) : List LedgerEntry :=
  db.core.ledger.filter fun e => e.type == .deposit && e.referenceType == some "Deposit" &&
    (e.referenceId.bind fun id => db.ext.deposits.lookup id).any fun r => r.outpoint == o

/-- The ledger has of an outpoint one deposit at most, as its row says. -/
structure DepositsSettled (db : DepositDb O) : Prop where
  once : ∀ o, (depositEntries o db).length ≤ 1
  recorded : ∀ e ∈ db.core.ledger, ∀ id, isCredit id e → ∃ r, db.ext.deposits.lookup id = some r ∧
    e.walletId = r.walletId ∧ e.amount = r.amount

theorem settled_of_booked {Seen : Observation → Prop} {db : DepositDb O}
    (h : ∀ d, Booked Seen d (depositSee d db)) : DepositsSettled db where
  recorded e he d hc := (h d).credits e (List.mem_filter.2 ⟨he, hc⟩)
  once o := by
    -- an entry of the outpoint is one of the deposit that the index has for it
    have hmem : ∀ e ∈ depositEntries o db, ∃ d, db.ext.outpoints.lookup o = some d ∧ isCredit d e := by
      intro e he
      obtain ⟨-, hp⟩ := List.mem_filter.1 he
      simp only [Bool.and_eq_true, beq_iff_eq, Option.any_eq_true] at hp
      obtain ⟨⟨ht, hrt⟩, r, hr, ho⟩ := hp
      obtain ⟨d, hd, hr⟩ := Option.bind_eq_some_iff.1 hr
      exact ⟨d, ((h d).indexed o).2 ⟨r, hr, ho⟩, isCredit_iff.2 ⟨ht, hrt, hd⟩⟩
    cases hi : db.ext.outpoints.lookup o with
    | none =>
      have hnil : depositEntries o db = [] := List.eq_nil_iff_forall_not_mem.2 fun e he => by
        obtain ⟨d, hd, -⟩ := hmem e he
        rw [hi] at hd
        cases hd
      simp [hnil]
    | some d =>
      have hsub : depositEntries o db = (depositEntries o db).filter (isCredit d) := by
        refine (List.filter_eq_self.2 fun e he => ?_).symm
        obtain ⟨d', hd', hc⟩ := hmem e he
        rw [hi] at hd'
        cases hd'
        exact hc
      rw [hsub, depositEntries, List.filter_filter, ← List.filter_filter, List.filter_comm]
      exact (List.length_filter_le _ _).trans (h d).once

theorem booked_of_run {numericText : ℚ → String} {Seen : Observation → Prop} (hagree : Agree Seen)
    {db : DepositDb O} (hdb : NoDeposits db) {w : World (machine (satsPay (depositsExt O)))}
    (hs : Run (DepositClient numericText Seen) (anyStep _) db w) (d : Uuid) :
    Booked Seen d (depositSee d w.conf.s.db) :=
  (depositPlan (fun _ _ _ => True) Seen d).rows.inv_of_steps
    (fun _ hc _ => keeps_depositClient hagree hc) (booked_of_noDeposits hdb d) hs

/-- If those who see an output before and after it has its confirmations agree on its
wallet and amount, it is credited once, in that wallet and that amount. -/
theorem deposits_settled {numericText : ℚ → String} {Seen : Observation → Prop}
    (hagree : Agree Seen) {db : DepositDb O} (hdb : NoDeposits db)
    {w : World (machine (satsPay (depositsExt O)))}
    (hs : Run (DepositClient numericText Seen) (anyStep _) db w) : DepositsSettled w.conf.s.db :=
  settled_of_booked (booked_of_run hagree hdb hs)

/-! An output seen twice: of 5 in wallet 1 with no confirmation, then with two. Or, the
second time, of 7 in wallet 2. -/

def noOutside : Outside := ⟨Empty, Empty.elim⟩

def twoBtcWallets : DepositDb noOutside where
  core := {
    now := 0
    wallets := ((∅ : Table Wallet).insert 1 ⟨7, .btc, .personal, none⟩).insert 2
      ⟨8, .btc, .personal, none⟩
    ledger := []
    jobs := ∅
    outbox := []
    auditLogs := [] }
  ext := ⟨∅, ∅, ∅, []⟩

def seenEarly : Observation := ⟨1, .btc, ⟨"aa", 0⟩, 5, 0⟩
def seenLate : Observation := ⟨1, .btc, ⟨"aa", 0⟩, 5, 2⟩
def seenElsewhere : Observation := ⟨2, .btc, ⟨"aa", 0⟩, 7, 2⟩

def depositRunner (obs : List Observation) : Runner (satsPay (depositsExt noOutside)) where
  bound := 1
  progs := [creditAll (fun _ => "5") obs]
  tick := Db.wait
  allow _ _ := true

def depositNine : (c : DepositCall noOutside) → c.Reply
  | .newUuid => (9 : Nat)
  | .outside c => nomatch c

def depositScript : List (Act (satsPay (depositsExt noOutside))) :=
  let reply : Act (satsPay (depositsExt noOutside)) := .op 0 (.answer depositNine)
  .start 0 0 :: proceed 0 3 ++ [reply] ++ proceed 0 14 ++ [Act.finish 0]

theorem run_of_depositScript {obs : List Observation} {Seen : Observation → Prop}
    (hobs : ∀ x ∈ obs, Seen x) {w : World (machine (satsPay (depositsExt noOutside)))}
    (hw : (depositRunner obs).run depositScript (.init _ (.start twoBtcWallets)) = some w) :
    Run (DepositClient (fun _ => "5") Seen) (anyStep _) twoBtcWallets w := by
  refine Runner.steps_of_run (R := depositRunner obs) (fun c hc => ?_) Db.tick_wait
    (fun _ _ _ => trivial) (fun _ _ => rfl) hw
  cases List.mem_singleton.1 hc
  exact .creditAll obs hobs

theorem noDeposits_twoBtcWallets : NoDeposits twoBtcWallets :=
  ⟨fun _ => rfl, fun _ => rfl, fun _ he => by cases he⟩

theorem agree_same : Agree fun x => x ∈ [seenEarly, seenLate] := by
  intro x y hx hy _ _ _ n m hn hm
  have key : ∀ z ∈ [seenEarly, seenLate], z.walletId = 1 ∧ z.amount = 5 := by
    simp [seenEarly, seenLate]
  obtain ⟨hxw, hxa⟩ := key x hx
  obtain ⟨hyw, hya⟩ := key y hy
  rw [hxa, ← hya, hm] at hn
  exact ⟨hxw.trans hyw.symm, (Option.some.inj hn).symm⟩

theorem deposits_settled_two_observations : ∃ w : World (machine (satsPay (depositsExt noOutside))),
    Run (DepositClient (fun _ => "5") fun x => x ∈ [seenEarly, seenLate]) (anyStep _) twoBtcWallets w ∧
    w.conf.s.db.core.balance 1 = 5 ∧ DepositsSettled w.conf.s.db := by
  have hrun : ((depositRunner [seenEarly, seenLate]).run depositScript
      (.init _ (.start twoBtcWallets))).map (fun w => w.conf.s.db.core.balance 1) = some 5 := by
    decide +kernel
  obtain ⟨w, hw, hb⟩ := Option.map_eq_some_iff.1 hrun
  have hs : Run (DepositClient (fun _ => "5") fun x => x ∈ [seenEarly, seenLate]) (anyStep _)
      twoBtcWallets w := run_of_depositScript (fun _ h => h) hw
  exact ⟨w, hs, hb, deposits_settled agree_same noDeposits_twoBtcWallets hs⟩

/-- The row is of wallet 1 and of 5, the entry of wallet 2 and of 7. -/
theorem deposit_credited_elsewhere :
    ∃ w : World (machine (satsPay (depositsExt noOutside))),
      Run (DepositClient (fun _ => "5") fun _ => True) (anyStep _) twoBtcWallets w ∧
      ¬ DepositsSettled w.conf.s.db := by
  have hrun : ((depositRunner [seenEarly, seenElsewhere]).run depositScript
      (.init _ (.start twoBtcWallets))).map (fun w =>
        (w.conf.s.db.core.ledger.map fun e => (isCredit 9 e, e.walletId, e.amount),
          w.conf.s.db.ext.deposits.lookup 9)) =
      some ([(true, 2, 7)], some ⟨1, ⟨"aa", 0⟩, 5, 2, .credited⟩) := by
    decide +kernel
  obtain ⟨w, hw, hb⟩ := Option.map_eq_some_iff.1 hrun
  obtain ⟨hl, hr⟩ := Prod.mk.inj hb
  refine ⟨w, run_of_depositScript (fun _ _ => trivial) hw, fun h => ?_⟩
  obtain ⟨e, he, hq⟩ := List.map_eq_singleton_iff.1 hl
  simp only [Prod.mk.injEq] at hq
  obtain ⟨r, hr', hw', -⟩ := h.recorded e (by rw [he]; exact List.mem_singleton_self e) 9 hq.1
  cases hr.symm.trans hr'
  rw [hq.2.1] at hw'
  cases hw'

end SatsPay
