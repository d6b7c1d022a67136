import SatsPay.WithdrawalPipeline
import SatsPay.Script

/-!
# Runs of the withdrawal pipeline

What holds of one withdrawal in every state of every run: its entries agree with its
status, it is sent at most once and only when allowed, and, while no worker drops the
last job of it, it is not left behind.
-/

namespace SatsPay

open Interleave ReadCommitted RowProtocol

section
variable {E : WithdrawalsEnv} {id : Uuid} {db : WdDb}
variable {w w' : World (machine (satsPay withdrawalsExt))}

def Unrequested (id : Uuid) (db : WdDb) : Prop := rowOf id db = none ∧ entriesOf id db.core = []

theorem bookOf_unrequested {track : Prop} (h : Unrequested id db) : bookOf track id db [] := by
  unfold bookOf
  rw [h.1, h.2]
  have hsend : Sending id none [] := ⟨rfl, Nat.le_refl 0, by simp, by simp⟩
  have hands : Hands id db.core.jobs [] := ⟨by simp, by simp⟩
  exact ⟨rfl, hsend, hands, by simp⟩

theorem keepsJobs_of_any (hs : Run (WithdrawalProcess E) (anyStep _) db w) :
    Run (WithdrawalProcess E) (fun c e => KeepsJobs False id c.s.db c.hist e) db w :=
  hs.imp fun _ _ _ h => h.elim

theorem book_of_run (h : Unrequested id db) (hs : Run (WithdrawalProcess E) (anyStep _) db w) :
    bookOf False id w.conf.s.db w.conf.hist :=
  (withdrawalProtocol False id).inv_of_steps
    (fun _ hc _ => keeps_withdrawalProcess E (fun h => h) hc) (bookOf_unrequested h)
    (keepsJobs_of_any hs)

/-- Along a run the row only moves on. -/
theorem advance_of_run (h : Unrequested id db) (hs : Run (WithdrawalProcess E) (anyStep _) db w)
    (hs' : Steps (machine (satsPay withdrawalsExt)) (WithdrawalProcess E) (anyStep _) w w') :
    Advance (rowOf id w.conf.s.db) (rowOf id w'.conf.s.db) :=
  (withdrawalProtocol False id).rel_of_steps
    (fun _ hc _ => keeps_withdrawalProcess E (fun h => h) hc) (bookOf_unrequested h)
    (T := fun db _ db' _ => Advance (rowOf id db) (rowOf id db')) (fun _ _ _ _ _ hr => hr.row)
    (fun _ _ => advance_refl _) (fun _ _ _ _ _ _ h h' => h.trans h') (keepsJobs_of_any hs)
    (hs'.imp fun _ _ _ h => h.elim)

/-! ## Accounting -/

/-- In every state the entries of a withdrawal agree with its status, and once it has
been sent it is never reversed. -/
theorem withdrawal_accounted (h : Unrequested id db)
    (hs : Run (WithdrawalProcess E) (anyStep _) db w) :
    Accounted (rowOf id w.conf.s.db) (entriesOf id w.conf.s.db.core) ∧
    ∀ w', Steps (machine (satsPay withdrawalsExt)) (WithdrawalProcess E) (anyStep _) w w' →
      (∃ r, rowOf id w.conf.s.db = some r ∧ r.status.Sent) →
      reversals (entriesOf id w'.conf.s.db.core) = 0 := by
  refine ⟨(book_of_run h hs).accounted, fun w' hs' hsent => ?_⟩
  obtain ⟨r, hr, hst⟩ := hsent
  obtain ⟨r', hr', -, hl⟩ := advance_of_run h hs hs' r hr
  have ha := (book_of_run h (hs.trans hs')).accounted
  rw [hr'] at ha
  change r'.Accounted _ at ha
  have hn : ¬ (r'.status = .failed ∨ r'.status = .canceled) := by
    rcases hst.later hl with hs | hs <;> simp [hs]
  unfold Withdrawal.Accounted at ha
  rw [if_neg hn] at ha
  exact ha.2

end

/-! One run: a user requests 200000 with a fee of 1000, and a worker sends it. -/

def plainEnv : WithdrawalsEnv where
  validateAddress _ _ := true
  approvalThreshold _ := none
  sealAddress _ address := address
  openAddress _ address := address
  storeIp ip := ip
  ipFingerprint ip := ip
  decimalText _ := "200000"
  dbText _ := "database error"
  malformedText _ := "payload"

def fundedDb : WdDb where
  core := {
    now := 0
    wallets := (∅ : Table Wallet).insert 1 ⟨7, .btc, .personal, none⟩
    ledger := [⟨1, 1000000, .deposit, none, none, none, none⟩]
    jobs := ∅
    outbox := []
    auditLogs := [] }
  ext := { withdrawals := ∅, networkFees := [] }

def withdrawalRunner (allow : Conf (machine (satsPay withdrawalsExt)) → WdEvent → Bool) :
    Runner (satsPay withdrawalsExt) :=
  ⟨2, [(requestWithdrawalHandler plainEnv 7 .btc "address" 200000 "ip" none).spawn,
    (drainBroadcastQueue plainEnv "worker" 1).spawn], Db.wait, allow⟩

def outside : (c : WithdrawalsCall) → c.Reply
  | .newUuid => 5
  | .broadcastWithdrawal _ _ _ _ => .ok ⟨"tx", 0⟩

def goes (p n : ℕ) : List (Act (satsPay withdrawalsExt)) := List.replicate n (.op p (.go 0))

/-- Process 0 requests withdrawal 5, process 1 takes its job and has it sent. -/
def untilSent : List (Act (satsPay withdrawalsExt)) :=
  let reply p : Act (satsPay withdrawalsExt) := .op p (.answer outside)
  .start 0 0 :: goes 0 2 ++ [reply 0] ++ goes 0 12 ++ [Act.finish 0] ++
    .start 1 1 :: goes 1 3 ++ [reply 1] ++ goes 1 4

def untilConfirmed : List (Act (satsPay withdrawalsExt)) := untilSent ++ goes 1 7 ++ [Act.finish 1]

theorem unrequested_fundedDb : Unrequested 5 fundedDb := by
  constructor
  · rfl
  · decide

theorem pipelineProcess_withdrawalRunner (allow) :
    ∀ c ∈ (withdrawalRunner allow).progs, PipelineProcess plainEnv c := by
  intro c hc
  rcases List.mem_cons.1 hc with rfl | hc
  · exact .request _ _ _ _ _ _
  · cases List.mem_singleton.1 hc
    exact .drain _ _

theorem confirmed_run : ∃ w : World (machine (satsPay withdrawalsExt)),
    Run (WithdrawalProcess plainEnv) (anyStep _) fundedDb w ∧
    ∃ r, rowOf 5 w.conf.s.db = some r ∧ r.status = .confirmed := by
  have hrun : ((withdrawalRunner fun _ _ => true).run untilConfirmed
      (.init _ (.start fundedDb))).map
      (fun w => (rowOf 5 w.conf.s.db).map Withdrawal.status) = some (some .confirmed) := by
    decide +kernel
  obtain ⟨w, hw, hst⟩ := Option.map_eq_some_iff.1 hrun
  obtain ⟨r, hr, hs⟩ := Option.map_eq_some_iff.1 hst
  refine ⟨w, Runner.steps_of_run (R := withdrawalRunner fun _ _ => true) (fun c hc => ?_)
    Db.tick_wait (fun _ _ _ => trivial) (fun _ _ => rfl) hw, r, hr, hs⟩
  exact .pipeline (pipelineProcess_withdrawalRunner _ c hc)

theorem withdrawal_accounted_confirmed : ∃ w : World (machine (satsPay withdrawalsExt)),
    (∃ r, rowOf 5 w.conf.s.db = some r ∧ r.status = .confirmed) ∧
    Accounted (rowOf 5 w.conf.s.db) (entriesOf 5 w.conf.s.db.core) ∧
    reversals (entriesOf 5 w.conf.s.db.core) = 0 := by
  obtain ⟨w, hs, r, hr, hst⟩ := confirmed_run
  have h := withdrawal_accounted unrequested_fundedDb hs
  exact ⟨w, ⟨r, hr, hst⟩, h.1, h.2 w .refl ⟨r, hr, .inr hst⟩⟩

/-! ## Sending -/

section
variable {E : WithdrawalsEnv} {id : Uuid} {db : WdDb}
variable {w w' : World (machine (satsPay withdrawalsExt))}

/-- The chain client is called at most once for a withdrawal, never for one that was
rejected, and for one that requires approval not before an approval has committed. -/
theorem withdrawal_sent_once (h : Unrequested id db)
    (hs : Run (WithdrawalProcess E) (anyStep _) db w) :
    broadcasts id w.conf.hist ≤ 1 ∧
    (∀ r, rowOf id w.conf.s.db = some r → r.requiresApproval → OnlyApproved id w.conf.hist) ∧
    ∀ w', Steps (machine (satsPay withdrawalsExt)) (WithdrawalProcess E) (anyStep _) w w' →
      (∃ r, rowOf id w.conf.s.db = some r ∧ r.status = .canceled) →
      broadcasts id w'.conf.hist = 0 := by
  have hb := book_of_run h hs
  refine ⟨?_, hb.sending.only, fun w' hs' hrej => ?_⟩
  · have h₁ := hb.sending.broadcasts
    have h₂ := hb.sending.claims
    split at h₂ <;> omega
  · obtain ⟨r, hr, hst⟩ := hrej
    obtain ⟨r', hr', -, hl⟩ := advance_of_run h hs hs' r hr
    rw [hst] at hl
    have hst' : r'.status = .canceled := hl.of_final (.inr (.inr rfl))
    have hb' := book_of_run h (hs.trans hs')
    have h₀ : claims id w'.conf.hist = 0 :=
      claims_zero hb'.sending fun r₁ hr₁ => by
        rw [hr'] at hr₁
        cases hr₁
        rw [hst']
        rfl
    have := hb'.sending.broadcasts
    omega

theorem withdrawal_sent_once_confirmed : ∃ w : World (machine (satsPay withdrawalsExt)),
    (∃ r, rowOf 5 w.conf.s.db = some r ∧ r.status = .confirmed) ∧
    broadcasts 5 w.conf.hist ≤ 1 := by
  obtain ⟨w, hs, hr⟩ := confirmed_run
  exact ⟨w, hr, (withdrawal_sent_once unrequested_fundedDb hs).1⟩

/-! ## Left behind -/

/-- The eligible withdrawals that come before it in the list, or may. -/
def olderEligible (id : Uuid) (r : Withdrawal) (db : WdDb) : List (Uuid × Withdrawal) :=
  (WithdrawalsDb.eligible db.ext).filter fun x => x.1 != id && decide (x.2.createdAt ≤ r.createdAt)

/-- `list_eligible_for_requeue` answers, and has it in its answer, once the older
ones leave it room. -/
def Requeued (id : Uuid) (r : Withdrawal) : Prop :=
  ∀ db : WdDb, rowOf id db = some r → (olderEligible id r db).length < 100 →
    (∃ a ws, .ok (a, ws) ∈ (satsPay withdrawalsExt).eval (.ext (.listEligible 100)) db) ∧
    ∀ (a : List Uuid) ws,
      .ok (a, ws) ∈ (satsPay withdrawalsExt).eval (.ext (.listEligible 100)) db → id ∈ a

/-- A withdrawal that is still to be sent or confirmed is in a worker's hands, has a
job, or will be requeued. -/
def LookedAfter (id : Uuid) (w : World (machine (satsPay withdrawalsExt))) : Prop :=
  ∀ r, rowOf id w.conf.s.db = some r →
    r.status = .queued ∨ r.status = .approved ∨ r.status = .broadcasted →
    (∃ p c, w.proc p = .running c ∧ Holding id p w.conf.hist) ∨
      HasJob id w.conf.s.db.core.jobs ∨ Requeued id r

/-- Whoever has a job in hand is running. -/
theorem running_of_holding {cond : Conf (machine (satsPay withdrawalsExt)) → WdEvent → Prop}
    {main : Withdrawals Empty Unit → Prop} (hs : Run main cond db w) {p : Nat}
    (hp : Holding id p w.conf.hist) : ∃ c, w.proc p = .running c := by
  obtain ⟨H, hH, -⟩ := hp
  have hf := fits_of_steps hs p
  cases hslot : w.proc p with
  | running c => exact ⟨c, rfl⟩
  | fresh =>
    rw [hslot] at hf
    have hu : Unborn (S := satsPay withdrawalsExt) p db w.conf.hist := hf
    rw [handOf_unborn hu] at hH
    cases hH
  | done =>
    rw [hslot] at hf
    obtain ⟨newer, e, older, heq, he, hn⟩ := hf
    have hnone : handOf id p (e :: older) = none := by
      rcases he with rfl | rfl <;> simp [handStep]
    rw [heq, handOf_ext ⟨newer, rfl, hn⟩, hnone] at hH
    cases hH

/-- A row before it in the list is an older one. -/
theorem mem_take_of_sorted {l : List (Uuid × Withdrawal)} {r : Withdrawal}
    (hl : l.Pairwise fun x y => x.2.createdAt ≤ y.2.createdAt) (hn : (l.map Prod.fst).Nodup)
    (hm : (id, r) ∈ l)
    (ho : (l.filter fun x => x.1 != id && decide (x.2.createdAt ≤ r.createdAt)).length < 100) :
    id ∈ (l.take 100).map Prod.fst := by
  obtain ⟨before, after, rfl⟩ := List.append_of_mem hm
  have hbefore : before.filter (fun x => x.1 != id && decide (x.2.createdAt ≤ r.createdAt)) =
      before := by
    refine List.filter_eq_self.2 fun x hx => ?_
    have hle := (List.pairwise_append.1 hl).2.2 x hx (id, r) List.mem_cons_self
    have hne : x.1 ≠ id := by
      rw [List.map_append, List.map_cons] at hn
      exact (List.nodup_append.1 hn).2.2 x.1 (List.mem_map_of_mem hx) id List.mem_cons_self
    simp [hne, hle]
  rw [List.filter_append, hbefore, List.length_append] at ho
  have hlt : before.length < 100 := by omega
  refine List.mem_map.2 ⟨(id, r), ?_, rfl⟩
  rw [List.take_append, List.take_of_length_le hlt.le]
  refine List.mem_append_right _ ?_
  obtain ⟨n, hn⟩ : ∃ n, 100 - before.length = n + 1 := ⟨99 - before.length, by omega⟩
  rw [hn, List.take_succ_cons]
  exact List.mem_cons_self

theorem byCreatedAt_ne_nil (l : List (Uuid × Withdrawal)) : byCreatedAt l ≠ [] := by
  let le : Uuid × Withdrawal → Uuid × Withdrawal → Bool := fun x y =>
    decide (x.2.createdAt ≤ y.2.createdAt)
  have htrans : ∀ x y z, le x y = true → le y z = true → le x z = true := fun x y z h h' =>
    decide_eq_true (le_trans (of_decide_eq_true h) (of_decide_eq_true h'))
  have htotal : ∀ x y, (le x y || le y x) = true := fun x y => by
    simp only [le, Bool.or_eq_true, decide_eq_true_eq]
    exact le_total x.2.createdAt y.2.createdAt
  have hsorted : (l.mergeSort le).Pairwise fun x y => le x y = true :=
    List.pairwise_mergeSort htrans htotal l
  refine List.ne_nil_of_mem (a := l.mergeSort le) (List.mem_filter.2 ⟨?_, ?_⟩)
  · exact List.mem_permutations.2 (List.mergeSort_perm l le)
  · refine decide_eq_true (hsorted.imp fun h => ?_)
    exact of_decide_eq_true h

/-- QUEUED and APPROVED are what the list asks for. -/
theorem requeued_of_eligible {r : Withdrawal} (hr : r.status = .queued ∨ r.status = .approved) :
    Requeued id r := by
  intro db hrow ho
  have hmem : (id, r) ∈ WithdrawalsDb.eligible db.ext := by
    refine List.mem_filter.2 ⟨List.mem_map.2 ⟨⟨id, r⟩, AList.mem_lookup_iff.1 hrow, rfl⟩, ?_⟩
    simpa using hr
  have hnodup : ((WithdrawalsDb.eligible db.ext).map Prod.fst).Nodup := by
    have hkeys : ((WithdrawalsDb.withdrawals db.ext).entries.map fun x => (x.1, x.2)).map
        Prod.fst = (WithdrawalsDb.withdrawals db.ext).keys := by
      rw [List.map_map]
      rfl
    have hn := (WithdrawalsDb.withdrawals db.ext).keys_nodup
    rw [← hkeys] at hn
    exact hn.sublist (List.Sublist.map _ List.filter_sublist)
  constructor
  · obtain ⟨l, hl⟩ := List.exists_mem_of_ne_nil _ (byCreatedAt_ne_nil (WithdrawalsDb.eligible db.ext))
    have : Except.ok ((l.take (min 100 500)).map Prod.fst, []) ∈
        WithdrawalsStmt.eval (.listEligible 100) db.core db.ext := List.mem_map.2 ⟨l, hl, rfl⟩
    exact ⟨_, _, List.mem_map.2 ⟨_, this, rfl⟩⟩
  · intro a ws he
    obtain ⟨ws', he', -⟩ := ext_eval_ok he
    obtain ⟨l, hl, heq⟩ := List.mem_map.1 he'
    cases heq
    obtain ⟨hperm, hsort⟩ := List.mem_filter.1 hl
    have hp := List.mem_permutations.1 hperm
    refine mem_take_of_sorted (of_decide_eq_true hsort) ((hp.map _).nodup_iff.2 hnodup)
      (hp.mem_iff.2 hmem) ?_
    rwa [(hp.filter _).length_eq]

/-- While no step drops the last job of a withdrawal that has been sent, no withdrawal
is left behind. -/
theorem lookedAfter_of_run (h : Unrequested id db)
    (hs : Run (PipelineProcess E) (fun c e => ¬ DropsLastJob id c.s.db c.hist e) db w) :
    LookedAfter id w := by
  have hb : bookOf True id w.conf.s.db w.conf.hist :=
    (withdrawalProtocol True id).inv_of_steps (fun _ hc _ => keeps_pipelineProcess E hc)
      (bookOf_unrequested h) (hs.imp fun _ _ hc _ => hc)
  intro r hr hst
  rcases hst with hst | hst | hst
  · exact .inr (.inr (requeued_of_eligible (.inl hst)))
  · exact .inr (.inr (requeued_of_eligible (.inr hst)))
  · rcases hb.handled trivial r hr hst with hj | ⟨p, hp⟩
    · exact .inr (.inl hj)
    · obtain ⟨c, hc⟩ := running_of_holding hs hp
      exact .inl ⟨p, c, hc, hp⟩

end

def dropsNothing (c : Conf (machine (satsPay withdrawalsExt))) (e : WdEvent) : Bool :=
  (dropsJob c.s.db e).isNone

theorem not_dropsLastJob {id : Uuid} {c : Conf (machine (satsPay withdrawalsExt))} {e : WdEvent}
    (h : dropsNothing c e = true) : ¬ DropsLastJob id c.s.db c.hist e := by
  rintro ⟨p, hp, -⟩
  rw [dropsNothing, hp] at h
  cases h

/-- The worker has committed BROADCASTED and not yet confirmed. -/
theorem lookedAfter_sent : ∃ w : World (machine (satsPay withdrawalsExt)),
    (∃ r, rowOf 5 w.conf.s.db = some r ∧ r.status = .broadcasted) ∧ LookedAfter 5 w := by
  have hrun : ((withdrawalRunner dropsNothing).run untilSent (.init _ (.start fundedDb))).map
      (fun w => (rowOf 5 w.conf.s.db).map Withdrawal.status) = some (some .broadcasted) := by
    decide +kernel
  obtain ⟨w, hw, hst⟩ := Option.map_eq_some_iff.1 hrun
  obtain ⟨r, hr, hs⟩ := Option.map_eq_some_iff.1 hst
  exact ⟨w, ⟨r, hr, hs⟩, lookedAfter_of_run unrequested_fundedDb
    (Runner.steps_of_run (R := withdrawalRunner dropsNothing)
      (pipelineProcess_withdrawalRunner dropsNothing) Db.tick_wait (fun _ _ => not_dropsLastJob)
      (fun _ _ => rfl) hw)⟩

/-- BROADCASTED, in nobody's hands, no job waiting, nothing to requeue. -/
def leftBehind (w : World (machine (satsPay withdrawalsExt))) : Bool :=
  (rowOf 5 w.conf.s.db).any (fun r => r.status == .broadcasted) &&
    w.conf.hist.all (fun e => e.pid.all fun p => decide (p < 2)) &&
    (handOf 5 0 w.conf.hist).isNone && (handOf 5 1 w.conf.hist).isNone &&
    w.conf.s.db.core.jobs.entries.all (fun j => j.2.status != .pending) &&
    (WithdrawalsDb.eligible w.conf.s.db.ext).isEmpty

theorem not_lookedAfter_of_leftBehind {w : World (machine (satsPay withdrawalsExt))}
    (h : leftBehind w = true) : ¬ LookedAfter 5 w := by
  simp only [leftBehind, Bool.and_eq_true, List.all_eq_true, Option.any_eq_true,
    Option.isNone_iff_eq_none, beq_iff_eq, bne_iff_ne, List.isEmpty_iff] at h
  obtain ⟨⟨⟨⟨⟨⟨r, hr, hst⟩, hpid⟩, h₀⟩, h₁⟩, hjobs⟩, hel⟩ := h
  intro hl
  rcases hl r hr (.inr (.inr hst)) with ⟨p, c, -, H, hH, -⟩ | ⟨job, j, hj, -, hs, -⟩ | hq
  · have hp : p = 0 ∨ p = 1 ∨ 2 ≤ p := by omega
    rcases hp with rfl | rfl | hp
    · rw [h₀] at hH
      cases hH
    · rw [h₁] at hH
      cases hH
    · -- no event is of another process
      have hu : Unborn (S := satsPay withdrawalsExt) p w.conf.s.db w.conf.hist := by
        intro e he hep
        have := hpid e he
        rw [hep] at this
        have hlt : p < 2 := by simpa using this
        omega
      rw [handOf_unborn hu] at hH
      cases hH
  · exact hjobs ⟨job, j⟩ (AList.mem_lookup_iff.1 hj) hs
  · have hold : (olderEligible 5 r w.conf.s.db).length < 100 := by
      simp [olderEligible, hel]
    have hans : Except.ok (([] : List Uuid), []) ∈
        (satsPay withdrawalsExt).eval (.ext (.listEligible 100)) w.conf.s.db := by
      have : Except.ok (([] : List Uuid), []) ∈
          WithdrawalsStmt.eval (.listEligible 100) w.conf.s.db.core w.conf.s.db.ext := by
        show _ ∈ (byCreatedAt (WithdrawalsDb.eligible w.conf.s.db.ext)).map _
        rw [hel]
        exact List.mem_map.2 ⟨[], by simp [byCreatedAt], rfl⟩
      exact List.mem_map.2 ⟨_, this, rfl⟩
    exact absurd ((hq _ hr hold).2 _ _ hans) List.not_mem_nil

/-- The worker dies between the commit of BROADCASTED and the confirmation: the job
stays RUNNING, and the list asks for QUEUED and APPROVED only. -/
theorem leftBehind_crash : ¬ ∀ (E : WithdrawalsEnv) (id : Uuid) (db : WdDb)
    (w : World (machine (satsPay withdrawalsExt))), Unrequested id db →
    Run (PipelineProcess E) (anyStep _) db w → LookedAfter id w := by
  intro hall
  have hrun : ((withdrawalRunner fun _ _ => true).run (untilSent ++ [.crash 1])
      (.init _ (.start fundedDb))).map leftBehind = some true := by decide +kernel
  obtain ⟨w, hw, hb⟩ := Option.map_eq_some_iff.1 hrun
  refine not_lookedAfter_of_leftBehind hb (hall plainEnv 5 fundedDb w unrequested_fundedDb ?_)
  exact Runner.steps_of_run (R := withdrawalRunner fun _ _ => true)
    (pipelineProcess_withdrawalRunner _) Db.tick_wait (fun _ _ _ => trivial) (fun _ _ => rfl) hw

end SatsPay
