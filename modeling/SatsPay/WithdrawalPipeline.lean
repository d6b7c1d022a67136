import SatsPay.WithdrawalMoves

/-!
# The processes of the withdrawal pipeline

The job queue, the broadcast of a claimed withdrawal and the handlers keep to the
protocol of one withdrawal.
-/

namespace SatsPay

open Interleave ReadCommitted RowProtocol

section
variable {track : Prop} {id : Uuid} {p : Nat} {K : Option Hand} {ε : Type} [FromErr DbError ε]

/-! ## Statements that only read -/

theorem triple_poolRead (st : Stmt withdrawalsExt) {A : WdAssertion} {T : st.Ans → Prop}
    (hw : ∀ db a ws, .ok (a, ws) ∈ (satsPay withdrawalsExt).eval st db → ws = [])
    (hq : ∀ r, Quiet id (.did p (.pool st) r)) (hA : (withdrawalProtocol track id).Framed p A)
    (hT : ∀ db h a, A db h → .ok (a, []) ∈ (satsPay withdrawalsExt).eval st db → T a) :
    Keeping track id p (Idle p A) (poolQuery st : Withdrawals ε _)
      (outcome (fun a c => T a ∧ Idle p A c) fun _ => Idle p A) := by
  refine .conseq (triple_poolQuery (S := satsPay withdrawalsExt)
    (B := fun a db h => T a ∧ A db h) (E := fun _ => A) st (fun a => ?_) (fun _ => hA.stable) ?_ ?_)
    (fun _ _ h => h) fun r _ _ h => match r with
      | .ok _ => ⟨h.2.1, h.1, h.2.2⟩
      | .error _ => h
  · intro db h db' h' ha hr he hi
    exact ⟨ha.1, hA.stable _ _ _ _ ha.2 hr he hi⟩
  · intro db h a ws hi ha he _
    obtain rfl := hw db a ws he
    exact ⟨⟨fun w hm => absurd hm List.not_mem_nil, Book.quiet hi (hq _), fun q hne =>
      others_quiet (hq _).broadcast (by simpa using Ne.symm hne)⟩, hT db h a ha he,
      hA.own db _ _ (hq _) rfl ha⟩
  · intro db h e hi ha _ _
    exact ⟨⟨Book.quiet hi (hq _), fun q hne => others_quiet (hq _).broadcast
      (by simpa using Ne.symm hne)⟩, hA.own db _ _ (hq _) rfl ha⟩

/-! ## The queue -/

theorem lookup_insert_other {jobs : Table Job} {job i : Uuid} {j : Job} (hi : i ≠ job) :
    (jobs.insert job j).lookup i = jobs.lookup i := AList.lookup_insert_ne hi

/-- A job keeps its place when another row is written. -/
theorem HasJob.insert {jobs : Table Job} {job : Uuid} {j : Job}
    (hj : ∃ i k, i ≠ job ∧ jobs.lookup i = some k ∧ k.jobType = withdrawalBroadcastJob ∧
      k.status = .pending ∧ k.payload = .withdrawalId id) : HasJob id (jobs.insert job j) := by
  obtain ⟨i, k, hi, hl, hk⟩ := hj
  exact ⟨i, k, (lookup_insert_other hi).trans hl, hk⟩

/-- A quiet step that adds to the jobs. -/
theorem Book.addJob {row : Option Withdrawal} {es : List LedgerEntry} {jobs : Table Job}
    {h : WdHist} {e : WdEvent} {job : Uuid} {j : Job} (hb : Book track id row es jobs h)
    (hq : Quiet id e) (hjob : jobs.lookup job = none) :
    Book track id row es (jobs.insert job j) (e :: h) := by
  have hne : ∀ i k, jobs.lookup i = some k → i ≠ job := by
    rintro i k hl rfl
    rw [hjob] at hl
    cases hl
  have hquiet := hb.quiet hq
  refine ⟨hquiet.accounted, hquiet.sending, ⟨?_, hquiet.hands.apart⟩, ?_⟩
  · intro q H hH
    obtain ⟨k, hl, hr⟩ := hquiet.hands.running q H hH
    exact ⟨k, (lookup_insert_other (hne _ _ hl)).trans hl, hr⟩
  · intro ht r hr hs
    rcases hquiet.handled ht r hr hs with ⟨i, k, hl, hk⟩ | hq
    · exact .inl (HasJob.insert ⟨i, k, hne _ _ hl, hl, hk⟩)
    · exact .inr hq

theorem calm_enqueue (jobType : String) (payload : Payload) :
    Calm track id p K (corePool (.enqueue jobType payload) : Withdrawals ε _) := by
  have framed : (withdrawalProtocol track id).Framed p (HandIs id p K) := framed_handIs
  have hq (r) : Quiet id (.did p (.pool (.core (.enqueue jobType payload))) r) :=
    ⟨rfl, rfl, fun _ _ => rfl⟩
  refine .conseq (triple_poolQuery (S := satsPay withdrawalsExt) (B := fun _ => HandIs id p K)
    (E := fun _ => HandIs id p K) (.core (.enqueue jobType payload)) (fun _ => framed.stable)
    (fun _ => framed.stable) ?_ ?_) (fun _ _ h => h) fun r _ _ h => match r with
      | .ok _ => h
      | .error _ => h
  · intro db h a ws hi ha he _
    obtain ⟨rfl, rfl⟩ := core_eval_one rfl he
    have hfresh := lookup_newJobId db.core
    refine ⟨⟨?_, Book.addJob hi (hq _) hfresh, fun q hne => ?_⟩, ha.cons fun _ _ => rfl⟩
    · simp [Write.touches, CoreWrite.touches]
    · have ho : Others id q db h db (.did p (.pool (.core (.enqueue jobType payload)))
          (.ok db.core.newJobId) :: h) := others_quiet rfl (by simpa using Ne.symm hne)
      refine ⟨ho.hist, ho.wallets, ho.row, ho.calls, ho.mine, ho.hand, fun H hH => ?_⟩
      obtain ⟨k, hl, -⟩ := hi.hands.running q H hH
      refine lookup_insert_other ?_
      rintro heq
      rw [heq, hfresh] at hl
      cases hl
  · intro db h e hi ha _ _
    exact ⟨⟨Book.quiet hi (hq _), fun q hne => others_quiet rfl (by simpa using Ne.symm hne)⟩,
      ha.cons fun _ _ => rfl⟩

omit [FromErr DbError ε] in
theorem calm_enqueueBroadcast (i : Uuid) :
    Calm track id p K (enqueueBroadcast i : Withdrawals ε Unit) :=
  Calm.bind (.attempt (calm_enqueue withdrawalBroadcastJob (.withdrawalId i))) fun _ => .ret ()

theorem calm_setReorgHold (walletId : Uuid) :
    Calm track id p K (corePool (.setReorgHold walletId) : Withdrawals ε _) := by
  have framed : (withdrawalProtocol track id).Framed p (HandIs id p K) := framed_handIs
  have hq (r) : Quiet id (.did p (.pool (.core (.setReorgHold walletId))) r) :=
    ⟨rfl, rfl, fun _ _ => rfl⟩
  refine .conseq (triple_poolQuery (S := satsPay withdrawalsExt) (B := fun _ => HandIs id p K)
    (E := fun _ => HandIs id p K) (.core (.setReorgHold walletId)) (fun _ => framed.stable)
    (fun _ => framed.stable) ?_ ?_) (fun _ _ h => h) fun r _ _ h => match r with
      | .ok _ => h
      | .error _ => h
  · intro db h a ws hi ha he _
    have hcov := covered_of_other (by simp) he
    obtain ⟨-, rfl⟩ := core_eval_one rfl he
    have ho (q) (hne : q ≠ p) : Others id q db h db
        (.did p (.pool (.core (.setReorgHold walletId))) (.ok a) :: h) :=
      others_quiet rfl (by simpa using Ne.symm hne)
    cases hw : db.core.wallets.lookup walletId with
    | none =>
      exact ⟨⟨by simp, Book.quiet hi (hq _), ho⟩, ha.cons fun _ _ => rfl⟩
    | some w =>
      rw [hw] at hcov
      refine ⟨⟨hcov, Book.quiet hi (hq _), fun q hne => ?_⟩, ha.cons fun _ _ => rfl⟩
      have ho := ho q hne
      refine ⟨ho.hist, fun w' => ?_, ho.row, ho.calls, ho.mine, ho.hand, ho.jobs⟩
      by_cases e : w' = walletId
      · subst e
        have : ((db.core.wallets.insert w' { w with reorgHoldAt := some db.core.now }).lookup
            w').isSome = true := by simp
        rw [hw]
        exact this
      · exact congrArg Option.isSome (AList.lookup_insert_ne e)
  · intro db h e hi ha _ _
    exact ⟨⟨Book.quiet hi (hq _), fun q hne => others_quiet rfl (by simpa using Ne.symm hne)⟩,
      ha.cons fun _ _ => rfl⟩

end

/-! ## Broadcast -/

section
variable {track : Prop} {id : Uuid} {p : Nat} {K : Option Hand} {r : Withdrawal}

theorem claims_zero {row : Option Withdrawal} {h : WdHist} (hs : Sending id row h)
    (hr : ∀ r, row = some r → r.status.Claimed = false) : claims id h = 0 := by
  rw [hs.claims]
  cases row with
  | none => rfl
  | some r => simp [hr r rfl]

theorem claims_one {h : WdHist} (hs : Sending id (some r) h) (hr : r.status.Claimed) :
    claims id h = 1 := by
  rw [hs.claims]
  simp [hr]

/-- The row a claim has found, claimed. -/
theorem Book.claim {es : List LedgerEntry} {jobs : Table Job} {h : WdHist} {e : WdEvent}
    (hb : Book track id (some r) es jobs h) (hg : WithdrawalUpdate.claim.guard r.status)
    (hc : isClaim id e = true) (hcall : isBroadcast id e = false)
    (hhand : ∀ q H, handStep id q e H = H) :
    Book track id (some (WithdrawalUpdate.claim.set r)) es jobs (e :: h) := by
  have hs : r.status = .queued ∨ r.status = .approved := by
    simpa [WithdrawalUpdate.guard] using hg
  have hn : r.status.Claimed = false := by rcases hs with hs | hs <;> rw [hs] <;> rfl
  have ht := Withdrawal.sameTerms_set .claim r
  have h₀ : claims id h = 0 := claims_zero hb.sending fun _ h => by cases h; exact hn
  have hb₀ := hb.sending.broadcasts
  refine ⟨?_, ⟨?_, ?_, ?_, ?_⟩, hb.hands.of_same hhand, ?_⟩
  · refine accounted_kept ht ?_ (by simp [WithdrawalUpdate.set]) hb.accounted
    rcases hs with hs | hs <;> simp [hs]
  · rw [claims_cons, h₀, hc]
    rfl
  · rw [claims_cons, broadcasts_cons, hcall, hc]
    simp only [Bool.false_eq_true, if_false, if_true]
    omega
  · rintro _ ⟨⟩ hra - -
    refine (hb.sending.approved r rfl (ht.requiresApproval ▸ hra) ?_ ?_).cons e <;>
      rcases hs with hs | hs <;> simp [hs]
  · rintro _ ⟨⟩ hra
    exact (hb.sending.only r rfl (ht.requiresApproval ▸ hra)).cons fun he => by
      rw [hcall] at he; cases he
  · rintro - _ ⟨⟩ hst
    cases hst

/-- What a claim leaves: a withdrawal that is this process's alone, or nothing new. -/
def ClaimAnswer (id : Uuid) (p : Nat) (K : Option Hand) : Option Withdrawal → WdAssertion
  | some r => fun db h => HandIs id p K db h ∧ Unsent id p r db h
  | none => HandIs id p K

theorem triple_claim : Keeping track id p (Idle p (HandIs id p K))
    (wdPool (.update id .claim) : Withdrawals WithdrawalsError _)
    (outcome (fun a => Idle p (ClaimAnswer id p K a)) fun _ => Idle p (HandIs id p K)) := by
  have framed : (withdrawalProtocol track id).Framed p (HandIs id p K) := framed_handIs
  refine triple_poolQuery (S := satsPay withdrawalsExt) (.ext (.update id .claim)) (fun a => ?_)
    (fun _ => framed.stable) ?_ ?_
  · cases a with
    | none => exact framed.stable
    | some r => exact (framed.and framed_unsent).stable
  · intro db h a ws hi ha he _
    have hcov := covered_of_other (by simp) he
    rcases update_ok he with ⟨r, hr, hg, rfl, rfl⟩ | ⟨-, rfl, rfl⟩
    · have hrow : rowOf id (viewOf [.ext (.put id (WithdrawalUpdate.claim.set r))] db) =
          some (WithdrawalUpdate.claim.set r) := AList.lookup_insert _
      have hclaim : isClaim id (.did p (.pool (.ext (.update id .claim)))
          (.ok (some (WithdrawalUpdate.claim.set r)))) = true := beq_self_eq_true id
      have hbook : Book track id (some r) (entriesOf id db.core) db.core.jobs h := by
        rw [← hr]; exact hi
      have hs : r.status = .queued ∨ r.status = .approved := by
        simpa [WithdrawalUpdate.guard] using hg
      have hn : r.status.Claimed = false := by rcases hs with hs | hs <;> rw [hs] <;> rfl
      have h₀ : claims id h = 0 := claims_zero hbook.sending fun _ h => by cases h; exact hn
      refine ⟨⟨hcov, ?_, fun q hne => ?_⟩, ?_, ⟨⟨_, List.mem_cons_self, hclaim, rfl⟩, hrow, rfl⟩, ?_⟩
      · show Book _ _ _ _ _ _
        rw [hrow]
        exact hbook.claim hg hclaim rfl fun _ _ => rfl
      · have ho : Others id q db h db (.did p (.pool (.ext (.update id .claim)))
            (.ok (some (WithdrawalUpdate.claim.set r))) :: h) :=
          others_quiet rfl (by simpa using Ne.symm hne)
        refine ⟨ho.hist, ho.wallets, ?_, ho.calls, fun hc => ?_, ho.hand, ho.jobs⟩
        · show Advance _ (rowOf id (viewOf _ db))
          rw [hrow, hr]
          refine advance_set ?_
          rcases hs with hs | hs <;> rw [hs]
          · exact .claimQueued
          · exact .claimApproved
        · have := claims_pos_of_claimedBy hc
          omega
      · exact ha.cons fun _ _ => rfl
      · have := hbook.sending.broadcasts
        rw [broadcasts_cons, show isBroadcast id _ = false from rfl]
        simp only [Bool.false_eq_true, if_false]
        omega
    · have hq : Quiet id (.did p (.pool (.ext (.update id .claim))) (.ok none)) :=
        ⟨rfl, rfl, fun _ _ => rfl⟩
      refine ⟨⟨by simp, Book.quiet hi hq, fun q hne => others_quiet rfl
        (by simpa using Ne.symm hne)⟩, ?_⟩
      show HandIs id p K db _
      exact ha.cons fun _ _ => rfl
  · intro db h e hi ha _ _
    have hq : Quiet id (.did p (.pool (.ext (.update id .claim))) (.error e)) :=
      ⟨rfl, rfl, fun _ _ => rfl⟩
    exact ⟨⟨Book.quiet hi hq, fun q hne => others_quiet rfl (by simpa using Ne.symm hne)⟩,
      ha.cons fun _ _ => rfl⟩

/-- The one call of the chain client. -/
theorem triple_broadcastWithdrawal (coin : Coin) (toAddress : String) (amount : ℕ) :
    Keeping track id p (Idle p fun db h => HandIs id p K db h ∧ Unsent id p r db h)
      (broadcastWithdrawal id coin toAddress amount : Withdrawals WithdrawalsError _)
      (outcome (fun _ => Idle p (ToSettle id p K r)) fun _ _ => False) := by
  refine triple_invoke (S := satsPay withdrawalsExt)
    (WithdrawalsCall.broadcastWithdrawal id coin toAddress amount) (fun _ => framed_toSettle.stable) ?_
  rintro db h res hi ⟨hK, hm, hb⟩ -
  have hbook : Book track id (some r) (entriesOf id db.core) db.core.jobs h := by
    rw [← hm.2.1]; exact hi
  have h₁ : claims id h = 1 := claims_one hbook.sending (by rw [hm.2.2]; rfl)
  have hcall : isBroadcast id (.did p (.call (.broadcastWithdrawal id coin toAddress amount)) res) =
      true := beq_self_eq_true id
  refine ⟨⟨?_, fun q hne => ?_⟩, hK.cons fun _ _ => rfl, hm.1.cons _, hm.2.1, hm.2.2⟩
  · show Book _ _ _ _ _ _
    rw [hm.2.1]
    refine ⟨hbook.accounted, ⟨?_, ?_, ?_, ?_⟩, hbook.hands.of_same fun _ _ => rfl, ?_⟩
    · rw [claims_cons]
      exact hbook.sending.claims
    · rw [claims_cons, broadcasts_cons, hcall, hb, h₁]
      simp
    · rintro _ ⟨⟩ hra h₂ h₃
      exact (hbook.sending.approved r rfl hra h₂ h₃).cons _
    · rintro _ ⟨⟩ hra
      exact (hbook.sending.only r rfl hra).cons fun _ =>
        hbook.sending.approved r rfl hra (by simp [hm.2.2]) (by simp [hm.2.2])
    · rintro - _ ⟨⟩ hst
      rw [hm.2.2] at hst
      cases hst
  · refine ⟨List.suffix_cons _ _, fun _ => rfl, advance_refl _, fun hc => ?_, fun _ _ hr _ => hr,
      ?_, fun _ _ => rfl⟩
    · exact absurd (claimedBy_unique h₁.le hc hm.1) hne
    · rw [handOf_cons, handStep_of_ne (by simpa using Ne.symm hne)]

/-- A worker is done with the withdrawal: it is settled, or the worker has it and
leaves it BROADCASTING. -/
def Quit (id : Uuid) (p : Nat) : WdAssertion := fun db h =>
  (RowHas id (fun r => r.status = .confirmed) db h ∨ RowHas id (fun r => r.status = .failed) db h) ∨
    ∃ r, Mine id p r db h

theorem not_broadcasted_of_quit {db : WdDb} {h : WdHist} (hq : Quit id p db h) {r : Withdrawal}
    (hr : rowOf id db = some r) : r.status ≠ .broadcasted := by
  intro hs
  rcases hq with (⟨r', hr', hs'⟩ | ⟨r', hr', hs'⟩) | ⟨r', -, hr', hs'⟩ <;>
    · rw [hr] at hr'
      cases hr'
      rw [hs] at hs'
      cases hs'

def Hand.letGoOf (H : Hand) : Hand := { H with letGo := true }

def Processed (id : Uuid) (p : Nat) (K : Option Hand) : Except WithdrawalsError Unit → WdAssertion
  | .ok _ => fun db h =>
    (HandIs id p K db h ∧ Quit id p db h) ∨ HandIs id p (K.map Hand.letGoOf) db h
  | .error _ => HandIs id p K

theorem triple_finalize_sent :
    Keeping track id p (Idle p fun db h => HandIs id p K db h ∧
        RowHas id (fun r => r.status.Sent) db h)
      (finalizeBroadcasted id) fun res => Idle p (Processed id p K res) := by
  have finalize : Keeping track id p (Idle p (ToFinalize True id p K)) (finalizeBroadcasted id)
      fun res => Idle p (Finalized True id p K res) := triple_finalizeBroadcasted
  refine .conseq finalize (fun c _ h => ⟨h.1, h.2.1, fun _ => h.2.2⟩) fun res c _ h => ⟨h.1, ?_⟩
  cases res with
  | ok _ => exact .inl ⟨h.2.1, .inl (.inl (h.2.2 trivial))⟩
  | error _ => exact h.2

/-- What a status read leaves: it has been sent, or the worker lets go. -/
def StatusAnswer (id : Uuid) (p : Nat) (K : Option Hand) (a : Option WithdrawalStatus) :
    WdAssertion :=
  if sentStatus a then fun db h => HandIs id p K db h ∧ RowHas id (fun r => r.status.Sent) db h
  else HandIs id p (K.map Hand.letGoOf)

theorem handStep_status_self (a : Option WithdrawalStatus) (H : Option Hand) :
    handStep id p (.did p (.pool (.ext (.withdrawalStatus id))) (.ok a)) H =
      if sentStatus a then H else H.map Hand.letGoOf := by
  unfold handStep
  cases hs : sentStatus a
  · simp [hs]
    rfl
  · simp [hs]

/-- A worker that finds the withdrawal BROADCASTED keeps hold of it. -/
theorem Book.readStatus {row : Option Withdrawal} {es : List LedgerEntry} {jobs : Table Job}
    {h : WdHist} (hb : Book track id row es jobs h) :
    Book track id row es jobs
      (.did p (.pool (.ext (.withdrawalStatus id))) (.ok (row.map Withdrawal.status)) :: h) := by
  refine ⟨hb.accounted, hb.sending.quiet rfl rfl, hb.hands.step rfl (fun _ _ _ _ => rfl) ?_, ?_⟩
  · intro H hH
    -- the job in hand is the one that was
    obtain ⟨H', hH', hjob, hpay⟩ : ∃ H', handOf id p h = some H' ∧ H.job = H'.job ∧
        H.payload = H'.payload := by
      rw [handOf_cons, handStep_status_self] at hH
      split at hH
      · exact ⟨H, hH, rfl, rfl⟩
      · obtain ⟨H', hH', rfl⟩ := Option.map_eq_some_iff.1 hH
        exact ⟨H', hH', rfl, rfl⟩
    refine ⟨?_, fun q H₁ hq hH₁ heq => hq ?_⟩
    · obtain ⟨j, hl, hr, hpl, hty⟩ := hb.hands.running p H' hH'
      exact ⟨j, by rw [hjob]; exact hl, hr, by rw [hpay]; exact hpl, hty⟩
    · exact hb.hands.apart q p H₁ H' hH₁ hH' (heq.trans hjob)
  · rintro ht r rfl hs
    refine (hb.handled ht r rfl hs).of_same fun q H => ?_
    by_cases hq : p = q
    · subst hq
      have : sentStatus ((some r).map Withdrawal.status) = true := by simp [sentStatus, hs]
      rw [handStep_status_self, if_pos this]
    · exact handStep_of_ne (by simpa using hq) H

theorem statusAnswer_of_read {db : WdDb} {h : WdHist} (hK : HandIs id p K db h) :
    StatusAnswer id p K ((rowOf id db).map Withdrawal.status) db
      (.did p (.pool (.ext (.withdrawalStatus id))) (.ok ((rowOf id db).map Withdrawal.status)) ::
        h) := by
  unfold StatusAnswer
  split
  · rename_i hs
    obtain ⟨r, hr, hst⟩ := Option.map_eq_some_iff.1 (beq_iff_eq.1 hs)
    refine ⟨?_, r, hr, .inl hst⟩
    rw [HandIs, handOf_cons, handStep_status_self, if_pos hs]
    exact hK
  · rename_i hs
    rw [HandIs, handOf_cons, handStep_status_self, if_neg hs, hK]

theorem triple_withdrawalStatus : Keeping track id p (Idle p (HandIs id p K))
    (wdPool (.withdrawalStatus id) : Withdrawals WithdrawalsError _)
    (outcome (fun a => Idle p (StatusAnswer id p K a)) fun _ => Idle p (HandIs id p K)) := by
  have framed : (withdrawalProtocol track id).Framed p (HandIs id p K) := framed_handIs
  refine triple_poolQuery (S := satsPay withdrawalsExt) (.ext (.withdrawalStatus id)) (fun a => ?_)
    (fun _ => framed.stable) ?_ ?_
  · unfold StatusAnswer
    split
    · exact (framed.and framed_sent).stable
    · exact framed_handIs.stable
  · intro db h a ws hi ha he _
    obtain ⟨rfl, rfl⟩ := ext_eval_one rfl he
    exact ⟨⟨fun w hm => absurd hm List.not_mem_nil, Book.readStatus hi, fun q hne =>
      others_quiet rfl (by simpa using Ne.symm hne)⟩, statusAnswer_of_read ha⟩
  · intro db h e hi ha _ _
    have hq : Quiet id (.did p (.pool (.ext (.withdrawalStatus id))) (.error e)) :=
      ⟨rfl, rfl, fun _ _ => rfl⟩
    exact ⟨⟨Book.quiet hi hq, fun q hne => others_quiet rfl (by simpa using Ne.symm hne)⟩,
      ha.cons fun _ _ => rfl⟩

theorem triple_finalizeStuck :
    Keeping track id p (Idle p (HandIs id p K)) (finalizeStuck id)
      fun res => Idle p (Processed id p K res) := by
  refine Protocol.Triple.bind triple_withdrawalStatus (fun a => ?_) fun _ _ _ h => h
  dsimp only
  split
  · rename_i ha
    subst ha
    exact triple_finalize_sent
  · rename_i ha
    have hs : ¬ sentStatus a = true := by simpa [sentStatus] using ha
    refine .ret fun c _ h => ⟨h.1, .inr ?_⟩
    have hans : StatusAnswer id p K a c.s.db c.hist := h.2
    unfold StatusAnswer at hans
    rwa [if_neg hs] at hans

variable (E : WithdrawalsEnv)

theorem triple_settleBroadcast {row : WithdrawalToSend} (hrow : row.Reads r)
    (hK : track → ∃ H, K = some H ∧ H.payload = .withdrawalId id ∧ H.letGo = false)
    (result : Except BroadcastError BroadcastResult) :
    Keeping track id p (Idle p (ToSettle id p K r)) (settleBroadcast E id row result)
      fun res => Idle p (Processed id p K res) := by
  cases result with
  | error e =>
    unfold settleBroadcast
    dsimp only
    split
    · refine Protocol.Triple.bind (triple_failTx hrow) (fun _ => ?_) fun _ _ _ h => h
      have final : (withdrawalProtocol track id).Framed p (RowHas id fun r => r.status = .failed) :=
        framed_final (.inr (.inl rfl))
      refine triple_besides (triple_pool_aside trivial (fun _ => ⟨rfl, rfl, fun _ _ => rfl⟩)
        (framed_handIs.and final) fun db db' h hrow ha => ⟨ha.1, ?_⟩) ?_
      · rw [RowHas, hrow]
        exact ha.2
      · exact .ret fun _ _ h => ⟨h.1, .inl ⟨h.2.1, .inl (.inr h.2.2)⟩⟩
    · exact Protocol.Triple.ret fun _ _ h => ⟨h.1, .inl ⟨h.2.1, .inr ⟨r, h.2.2⟩⟩⟩
  | ok result =>
    refine Protocol.Triple.bind (triple_broadcastedTx hK) (fun _ => ?_) fun _ _ _ h => h
    refine triple_besides (Q := fun res => Idle p (Processed id p K res)) ?_ triple_finalize_sent
    unfold recordNetworkFee
    split
    · exact .ret fun _ _ h => h
    · refine triple_pool_aside trivial
        (fun _ => ⟨rfl, rfl, fun _ _ => rfl⟩) (framed_handIs.and framed_sent)
        fun db db' h hrow ha => ⟨ha.1, ?_⟩
      rw [RowHas, hrow]
      exact ha.2

theorem triple_withdrawalToSend :
    Keeping track id p (Idle p fun db h => HandIs id p K db h ∧ Unsent id p r db h)
      (wdPool (.withdrawalToSend id) : Withdrawals WithdrawalsError _)
      (outcome (fun a c => (∀ row, a = some row → row.Reads r) ∧
        Idle p (fun db h => HandIs id p K db h ∧ Unsent id p r db h) c)
        fun _ => Idle p fun db h => HandIs id p K db h ∧ Unsent id p r db h) := by
  have hw : ∀ (db : WdDb) (a : Option WithdrawalToSend) ws,
      .ok (a, ws) ∈ (satsPay withdrawalsExt).eval (.ext (.withdrawalToSend id)) db → ws = [] := by
    intro db a ws he
    obtain ⟨-, rfl⟩ := ext_eval_one (X := withdrawalsExt) rfl he
    rfl
  refine triple_poolRead (.ext (.withdrawalToSend id)) (T := fun a => ∀ row, a = some row →
    row.Reads r) hw (fun _ => ⟨rfl, rfl, fun _ _ => rfl⟩) (framed_handIs.and framed_unsent) ?_
  rintro db h a ⟨-, ⟨-, hr, -⟩, -⟩ he row ha
  obtain ⟨heq, -⟩ := ext_eval_one (X := withdrawalsExt) rfl he
  have hread := heq.symm.trans ha
  change (rowOf id db).bind _ = some row at hread
  rw [hr, Option.bind_some] at hread
  obtain ⟨w, -, rfl⟩ := Option.map_eq_some_iff.1 hread
  exact ⟨rfl, rfl, rfl⟩

theorem triple_sendClaimed
    (hK : track → ∃ H, K = some H ∧ H.payload = .withdrawalId id ∧ H.letGo = false) :
    Keeping track id p (Idle p fun db h => HandIs id p K db h ∧ Unsent id p r db h)
      (sendClaimed E id) fun res => Idle p (Processed id p K res) := by
  refine Protocol.Triple.bind triple_withdrawalToSend (fun row => ?_) fun _ _ _ h => ⟨h.1, h.2.1⟩
  refine .of_pure fun hrow => ?_
  cases row with
  | none => exact .ret fun _ _ h => ⟨h.1, .inl ⟨h.2.1, .inr ⟨r, h.2.2.1⟩⟩⟩
  | some row =>
    exact .bind (triple_broadcastWithdrawal _ _ _) (fun result =>
      triple_settleBroadcast E (hrow row rfl) hK result) fun _ _ _ h => h.elim

theorem triple_processBroadcast
    (hK : track → ∃ H, K = some H ∧ H.payload = .withdrawalId id ∧ H.letGo = false) :
    Keeping track id p (Idle p (HandIs id p K)) (processBroadcast E id)
      fun res => Idle p (Processed id p K res) := by
  refine Protocol.Triple.bind triple_claim (fun claimed => ?_) fun _ _ _ h => h
  cases claimed with
  | none => exact triple_finalizeStuck
  | some r => exact triple_sendClaimed E hK

end

/-! ## Handlers -/

section
variable {track : Prop} {id : Uuid} {p : Nat} {K : Option Hand} (E : WithdrawalsEnv)

theorem calmTx_createOwn (toAddress : String) {input : NewWithdrawal} (hfee : 0 ≤ input.feeAmount)
    (hs : input.status = .pending ∨ input.status = .queued ∧ input.requiresApproval = false) :
    CalmTx track id p K (createWithdrawal E toAddress id input) := by
  refine Protocol.Triple.bind (Q := outcome (fun inserted c => match inserted with
      | .ok _ => ∃ r, input.Stored r ∧ InTx p (Eff id (some r) [] fun ks db h =>
          LockedAt id none ks db h ∧ HandIs id p K db h) c
      | .error _ => Over (HandIs id p K) c) fun _ _ => False)
    (.attempt (.conseq (triple_insertWithdrawal input) (fun _ _ h => h) fun r c _ h => ?_))
    (fun inserted => ?_) fun e _ _ h => h.elim
  · cases r with
    | ok _ => exact h
    | error _ => exact over_of_inTx h
  · cases inserted with
    | ok _ =>
      refine .of_exists fun r => .of_pure fun hr => ?_
      exact .bind (triple_debitWithdrawal E hr hfee hs) (fun _ => .ret fun _ _ h => h)
        fun _ _ _ h => h
    | error e =>
      cases e with
      | uniqueViolation => exact Protocol.Triple.ret fun _ _ h => h
      | _ => exact Protocol.Triple.throw fun _ _ h => h

/-- A statement of a transaction whose answer does not matter. -/
theorem CalmTx.invoke (cl : WithdrawalsCall)
    (hq : ∀ r, Quiet id (.did p (.call cl) r)) {ε α : Type}
    {f : cl.Reply → Withdrawals ε α} (hf : ∀ a, CalmTx track id p K (f a)) :
    CalmTx track id p K (ReadCommitted.invoke (S := satsPay withdrawalsExt) cl >>= f) := by
  have framed : (withdrawalProtocol track id).FramedTx p (Eff id none [] fun _ => HandIs id p K) :=
    framed_eff (keeps_of_framed framed_handIs)
  refine Protocol.Triple.bind (triple_invokeTx (S := satsPay withdrawalsExt) cl
    (fun _ => framed.stable) ?_) hf fun _ _ _ h => h.elim
  intro ws ks db h r hi hg _
  exact ⟨⟨Book.quiet hi (hq r), fun q hne => others_quiet (hq r).broadcast
    (by simpa using Ne.symm hne)⟩, framed.own _ _ _ _ _ (hq r) rfl hg⟩

def requestNew (userId : Uuid) (coin : Coin) (toAddress : String) (amount : ℚ)
    (requestedIp : String) (scopedKey : Option String) : Withdrawals WithdrawalsError Requested := do
  let walletId ← coreQuery (.walletOf userId coin .personal)
  match walletId with
  | none => .throw .notFound
  | some walletId => do
    let threshold := resolveApprovalThreshold coin (E.approvalThreshold coin)
    let requiresApproval := decide ((threshold : ℚ) ≤ amount)
    let id ← newUuid
    createWithdrawal E toAddress id
      { walletId := walletId, toAddress := E.sealAddress id toAddress, amount := amount,
        feeAmount := (coinConfig coin).withdrawalFee,
        status := if requiresApproval then .pending else .queued,
        requiresApproval := requiresApproval, requestedIp := E.storeIp requestedIp,
        idempotencyKey := scopedKey }

theorem calmTx_requestTx (userId : Uuid) (coin : Coin) (toAddress : String) (amount : ℚ)
    (requestedIp : String) (scopedKey : Option String) :
    CalmTx track id p K (requestTx E userId coin toAddress amount requestedIp scopedKey) := by
  have body : CalmTx track id p K
      (requestNew E userId coin toAddress amount requestedIp scopedKey) := by
    refine .query (.core (.walletOf userId coin .personal)) trivial fun walletId => ?_
    cases walletId with
    | none => exact .throw _
    | some walletId =>
      refine .invoke .newUuid (fun _ => ⟨rfl, rfl, fun _ _ => rfl⟩) fun i => ?_
      by_cases hi : i = id
      · subst hi
        refine calmTx_createOwn E _ (by positivity) ?_
        by_cases ha : ((resolveApprovalThreshold coin (E.approvalThreshold coin) : ℕ) : ℚ) ≤ amount
        · exact .inl (by simp [ha])
        · exact .inr (by simp [ha])
      · exact calmTx_createWithdrawal E hi _ _
  unfold requestTx
  cases scopedKey with
  | none => exact body
  | some key =>
    refine .query (.ext (.findByIdempotencyKey key)) trivial fun existing => ?_
    cases existing with
    | none => exact body
    | some found => exact .commit _

theorem calm_findByKey (scopedKey : Option String) :
    Calm track id p K (findByKey (fun key => wdPool (.findByIdempotencyKey key)) scopedKey :
      Withdrawals WithdrawalsError _) := by
  cases scopedKey with
  | none => exact .ret none
  | some key =>
    exact calm_pool (.ext (.findByIdempotencyKey key)) trivial fun _ => ⟨rfl, rfl, fun _ _ => rfl⟩

theorem calm_requestWithdrawal (userId : Uuid) (coin : Coin) (toAddress : String) (amount : ℚ)
    (requestedIp : String) (idempotencyKey : Option String) :
    Calm track id p K
      (requestWithdrawal E userId coin toAddress amount requestedIp idempotencyKey) := by
  unfold requestWithdrawal
  split
  · exact .throw _
  split
  · exact .throw _
  refine Calm.bind (calm_findByKey _) fun existing => ?_
  cases existing with
  | some found => exact .ret _
  | none =>
    refine Calm.bind (CalmTx.transaction (calmTx_requestTx E _ _ _ _ _ _)) fun requested => ?_
    cases requested with
    | found i r => exact .ret _
    | created row => exact .ret _
    | raced =>
      refine Calm.bind (calm_findByKey _) fun winner => ?_
      cases winner with
      | some found => exact .ret _
      | none => exact .throw _

theorem calm_requestWithdrawalHandler (userId : Uuid) (coin : Coin) (toAddress : String) (amount : ℚ)
    (ip : String) (idempotencyKey : Option String) :
    Calm track id p K
      (requestWithdrawalHandler E userId coin toAddress amount ip idempotencyKey) := by
  refine Calm.bind (calm_requestWithdrawal E _ _ _ _ _ _).attempt fun result => ?_
  cases result with
  | error e => exact .ret _
  | ok made =>
    dsimp only
    split
    · exact (calm_enqueueBroadcast _).bind fun _ => .ret _
    · exact .ret _

theorem calm_approveWithdrawalHandler (i adminId : Uuid) (ip : String) :
    Calm track id p K (approveWithdrawalHandler E i adminId ip) := by
  have approve : Calm track id p K (approveWithdrawal i adminId (some (E.ipFingerprint ip))) := by
    by_cases hi : i = id
    · subst hi
      exact CalmTx.transaction (calmTx_approveTx adminId _)
    · exact calm_approveWithdrawal hi adminId _
  refine Calm.bind approve.attempt fun result => ?_
  cases result with
  | error e => exact .ret _
  | ok _ => exact (calm_enqueueBroadcast i).bind fun _ => .ret _

theorem calm_rejectWithdrawalHandler (i adminId : Uuid) (ip : String) :
    Calm track id p K (rejectWithdrawalHandler E i adminId ip) := by
  have reject : Calm track id p K (rejectWithdrawal E i adminId (some ip)) := by
    by_cases hi : i = id
    · subst hi
      exact CalmTx.transaction (calmTx_rejectTx E adminId _)
    · exact calm_rejectWithdrawal E hi adminId _
  refine Calm.bind reject.attempt fun result => ?_
  cases result with
  | error e => exact .ret _
  | ok _ => exact .ret _

theorem calm_requeueAll (ids : List Uuid) : Calm track id p K (requeueAll ids) := by
  induction ids with
  | nil => exact .ret ()
  | cons i ids ih => exact (calm_enqueueBroadcast i).bind fun _ => ih

theorem calm_requeueEligible : Calm track id p K requeueEligible := by
  have list : Calm track id p K (wdPool (.listEligible 100) : Withdrawals DbError (List Uuid)) :=
    calm_pool (.ext (.listEligible 100)) trivial fun _ => ⟨rfl, rfl, fun _ _ => rfl⟩
  refine Calm.bind list.attempt fun ids => ?_
  cases ids with
  | error e => exact .ret ()
  | ok ids => exact calm_requeueAll ids

end

/-! ## Workers -/

section
variable {track : Prop} {id : Uuid} {p : Nat}

/-- A job in hand is not waiting. -/
theorem InHand.ne_of_pending {jobs : Table Job} {H : Hand} {job : Uuid} {j : Job}
    (hH : InHand jobs H) (hj : jobs.lookup job = some j) (hs : j.status = .pending) :
    H.job ≠ job := by
  rintro rfl
  obtain ⟨k, hk, hr, -⟩ := hH
  rw [hj] at hk
  cases hk
  rw [hs] at hr
  cases hr

/-- A worker takes a waiting job. -/
theorem Book.takeJob {row : Option Withdrawal} {es : List LedgerEntry} {jobs : Table Job}
    {h : WdHist} {e : WdEvent} {job : Uuid} {j : Job} {lockedBy : String}
    (hb : Book track id row es jobs h) (hc : isClaim id e = false) (hcall : isBroadcast id e = false)
    (he : e.pid = some p) (hp : handOf id p h = none) (hj : jobs.lookup job = some j)
    (hty : j.jobType = withdrawalBroadcastJob) (hs : j.status = .pending)
    (hhand : handStep id p e none = some ⟨job, j.payload, false⟩) :
    Book track id row es (jobs.insert job (j.claim lockedBy)) (e :: h) := by
  have hnow : handOf id p (e :: h) = some ⟨job, j.payload, false⟩ := by
    rw [handOf_cons, hp, hhand]
  have hold : ∀ q H, handOf id q h = some H → H.job ≠ job :=
    fun q H hH => (hb.hands.running q H hH).ne_of_pending hj hs
  refine ⟨hb.accounted, hb.sending.quiet hc hcall, hb.hands.step he ?_ ?_, ?_⟩
  · intro q H _ hH
    exact lookup_insert_other (hold q H hH)
  · intro H hH
    rw [hnow] at hH
    cases hH
    exact ⟨⟨_, AList.lookup_insert _, rfl, rfl, hty⟩, fun q H' _ hH' => hold q H' hH'⟩
  · intro ht r hr hst
    rcases hb.handled ht r hr hst with ⟨i, k, hl, hkt, hks, hkp⟩ | ⟨q, H, hH, hq⟩
    · by_cases hi : i = job
      · -- the job of the withdrawal is in hand now
        subst hi
        rw [hj] at hl
        cases hl
        exact .inr ⟨p, _, hnow, hkp, rfl⟩
      · exact .inl (HasJob.insert ⟨i, k, hi, hl, hkt, hks, hkp⟩)
    · have hqp : q ≠ p := by
        rintro rfl
        rw [hp] at hH
        cases hH
      exact .inr ⟨q, Holding.of_ne he hqp ⟨H, hH, hq⟩⟩

def takenJob : Option (Uuid × Job) → Option Hand
  | some (job, j) => some ⟨job, j.payload, false⟩
  | none => none

theorem triple_claimNext (lockedBy : String) :
    Keeping track id p (Idle p (HandIs id p none))
      (corePool (.claimNext withdrawalBroadcastJob lockedBy) : Withdrawals DbError _)
      (outcome (fun a => Idle p (HandIs id p (takenJob a))) fun _ => Idle p (HandIs id p none)) := by
  refine triple_poolQuery (S := satsPay withdrawalsExt)
    (.core (.claimNext withdrawalBroadcastJob lockedBy)) (fun _ => framed_handIs.stable)
    (fun _ => framed_handIs.stable) ?_ ?_
  · intro db h a ws hi ha he _
    rcases claimNext_ok he with ⟨rfl, rfl⟩ | ⟨job, j, hj, hty, hs, rfl, rfl⟩
    · have hq : Quiet id (.did p (.pool (.core (.claimNext withdrawalBroadcastJob lockedBy)))
          (.ok none)) := ⟨rfl, rfl, fun _ _ => rfl⟩
      exact ⟨⟨by simp, Book.quiet hi hq, fun q hne => others_quiet rfl
        (by simpa using Ne.symm hne)⟩, ha.cons fun _ _ => rfl⟩
    · have hhand : handStep id p (.did p (.pool (.core (.claimNext withdrawalBroadcastJob lockedBy)))
          (.ok (some (job, j.claim lockedBy)))) none = some ⟨job, j.payload, false⟩ := by
        simp [handStep, Job.claim]
      refine ⟨⟨by simp [Write.touches, CoreWrite.touches],
        Book.takeJob hi rfl rfl rfl ha hj hty hs hhand, fun q hne => ?_⟩, ?_⟩
      · have ho : Others id q db h db
            (.did p (.pool (.core (.claimNext withdrawalBroadcastJob lockedBy)))
              (.ok (some (job, j.claim lockedBy))) :: h) :=
          others_quiet rfl (by simpa using Ne.symm hne)
        refine ⟨ho.hist, ho.wallets, ho.row, ho.calls, ho.mine, ho.hand, fun H hH => ?_⟩
        exact lookup_insert_other ((hi.hands.running q H hH).ne_of_pending hj hs)
      · have hnone : handOf id p h = none := ha
        rw [HandIs, handOf_cons, hnone, hhand]
        rfl
  · intro db h e hi ha _ _
    have hq : Quiet id (.did p (.pool (.core (.claimNext withdrawalBroadcastJob lockedBy)))
        (.error e)) := ⟨rfl, rfl, fun _ _ => rfl⟩
    exact ⟨⟨Book.quiet hi hq, fun q hne => others_quiet rfl (by simpa using Ne.symm hne)⟩,
      ha.cons fun _ _ => rfl⟩

/-- A worker closes the job it has in hand. -/
theorem Book.putBack {row : Option Withdrawal} {es : List LedgerEntry} {jobs jobs' : Table Job}
    {h : WdHist} {e : WdEvent} {H : Hand} (hb : Book track id row es jobs h)
    (hc : isClaim id e = false) (hcall : isBroadcast id e = false) (he : e.pid = some p)
    (hH : handOf id p h = some H) (hhand : handStep id p e (some H) = none)
    (hkeep : ∀ i, i ≠ H.job → jobs'.lookup i = jobs.lookup i)
    (hlast : track → (∃ r, row = some r ∧ r.status = .broadcasted) → Holding id p h →
      HasJob id jobs' ∨ ∃ q, q ≠ p ∧ Holding id q h) : Book track id row es jobs' (e :: h) := by
  refine ⟨hb.accounted, hb.sending.quiet hc hcall, hb.hands.step he ?_ ?_, ?_⟩
  · intro q H' hq hH'
    refine hkeep _ fun hjob => hq ?_
    exact hb.hands.apart q p H' H hH' hH hjob
  · intro H' hH'
    rw [handOf_cons, hH, hhand] at hH'
    cases hH'
  · intro ht r hr hs
    have other : HasJob id jobs' ∨ ∃ q, q ≠ p ∧ Holding id q h := by
      rcases hb.handled ht r hr hs with ⟨i, k, hl, hkt, hks, hkp⟩ | ⟨q, hq⟩
      · have hi : i ≠ H.job := Ne.symm ((hb.hands.running p H hH).ne_of_pending hl hks)
        exact .inl ⟨i, k, (hkeep i hi).trans hl, hkt, hks, hkp⟩
      · by_cases hqp : q = p
        · subst hqp
          exact hlast ht ⟨r, hr, hs⟩ hq
        · exact .inr ⟨q, hqp, hq⟩
    rcases other with hj | ⟨q, hqp, hq⟩
    · exact .inl hj
    · exact .inr ⟨q, hq.of_ne he hqp⟩

/-- The writes of a statement on one job. -/
theorem others_putJob {q : Nat} {db : WdDb} {h : WdHist} {e : WdEvent} {H : Hand} {j : Job}
    (hands : Hands id db.core.jobs h) (hH : handOf id p h = some H) (hne : q ≠ p)
    (he : e.pid = some p) (hcall : isBroadcast id e = false) :
    Others id q db h (viewOf [.core (.putJob H.job j)] db) (e :: h) := by
  have ho : Others id q db h db (e :: h) := others_quiet hcall (by simp [he, Ne.symm hne])
  refine ⟨ho.hist, ho.wallets, ho.row, ho.calls, ho.mine, ho.hand, fun H' hH' => ?_⟩
  refine lookup_insert_other fun hjob => hne ?_
  exact hands.apart q p H' H hH' hH hjob

def ToComplete (id : Uuid) (p : Nat) (job : Uuid) (payload : Payload) : WdAssertion := fun db h =>
  ∃ g, HandIs id p (some ⟨job, payload, g⟩) db h ∧
    (payload = .withdrawalId id → g = true ∨ Quit id p db h)

theorem not_holding_of_toComplete {job : Uuid} {payload : Payload} {db : WdDb} {h : WdHist}
    (ht : ToComplete id p job payload db h) {r : Withdrawal} (hr : rowOf id db = some r)
    (hs : r.status = .broadcasted) : ¬ Holding id p h := by
  rintro ⟨H, hH, hp, hg⟩
  obtain ⟨g, hK, hq⟩ := ht
  have heq : some H = some ⟨job, payload, g⟩ := hH.symm.trans hK
  cases heq
  rcases hq hp with hg' | hq
  · exact absurd (hg'.symm.trans hg) (by simp)
  · exact not_broadcasted_of_quit hq hr hs

theorem triple_completeJob (job : Uuid) (payload : Payload) :
    Keeping track id p (Idle p (ToComplete id p job payload))
      (corePool (.completeJob job) : Withdrawals DbError Unit)
      fun _ => Idle p (HandIs id p none) := by
  refine .conseq (triple_poolQuery (S := satsPay withdrawalsExt) (B := fun _ => HandIs id p none)
    (E := fun _ => HandIs id p none) (.core (.completeJob job)) (fun _ => framed_handIs.stable)
    (fun _ => framed_handIs.stable) ?_ ?_) (fun _ _ h => h) fun r _ _ h => match r with
      | .ok _ => h
      | .error _ => h
  · intro db h a ws hi ha he _
    have ⟨g, hK, _⟩ := ha
    obtain ⟨j, hj, -⟩ := hi.hands.running p _ hK
    obtain ⟨-, rfl⟩ := core_eval_one rfl he
    have hhand (H) : handStep id p (.did p (.pool (.core (.completeJob job))) (.ok a)) H = none := by
      simp [handStep]
    change db.core.jobs.lookup job = some j at hj
    rw [hj]
    refine ⟨⟨by simp [Write.touches, CoreWrite.touches], ?_, fun q hne =>
      others_putJob hi.hands hK hne rfl rfl⟩, ?_⟩
    · refine Book.putBack hi rfl rfl rfl hK (hhand _) (fun i hne => lookup_insert_other hne) ?_
      rintro - ⟨r, hr, hs⟩ hp
      exact absurd hp (not_holding_of_toComplete ha hr hs)
    · rw [HandIs, handOf_cons, hhand]
  · intro db h e hi ha _ _
    have ⟨g, hK, _⟩ := ha
    have hhand (H) : handStep id p (.did p (.pool (.core (.completeJob job))) (.error e)) H =
        none := by simp [handStep]
    refine ⟨⟨?_, fun q hne => others_quiet rfl (by simpa using Ne.symm hne)⟩, ?_⟩
    · refine Book.putBack hi rfl rfl rfl hK (hhand _) (fun _ _ => rfl) ?_
      rintro - ⟨r, hr, hs⟩ hp
      exact absurd hp (not_holding_of_toComplete ha hr hs)
    · rw [HandIs, handOf_cons, hhand]

theorem triple_failJob (H : Hand) (error : String) :
    Keeping track id p (Idle p (HandIs id p (some H)))
      (corePool (.failJob H.job error) : Withdrawals DbError Unit)
      fun _ => Idle p (HandIs id p none) := by
  refine .conseq (triple_poolQuery (S := satsPay withdrawalsExt) (B := fun _ => HandIs id p none)
    (E := fun _ => HandIs id p none) (.core (.failJob H.job error)) (fun _ => framed_handIs.stable)
    (fun _ => framed_handIs.stable) ?_ ?_) (fun _ _ h => h) fun r _ _ h => match r with
      | .ok _ => h
      | .error _ => h
  · intro db h a ws hi hK he hcond
    obtain ⟨j, hj, hrun, hpay, hty⟩ := hi.hands.running p _ hK
    obtain ⟨-, rfl⟩ := core_eval_one rfl he
    have hhand (H') : handStep id p (.did p (.pool (.core (.failJob H.job error))) (.ok a)) H' =
        none := by simp [handStep]
    rw [hj]
    refine ⟨⟨by simp [Write.touches, CoreWrite.touches], ?_, fun q hne =>
      others_putJob hi.hands hK hne rfl rfl⟩, ?_⟩
    · refine Book.putBack hi rfl rfl rfl hK (hhand _) (fun i hne => lookup_insert_other hne) ?_
      intro ht hr hp
      by_cases hmax : j.attempts ≥ j.maxAttempts
      · -- parked: the condition leaves another
        have hd : dropsJob db (.did p (.pool (.core (.failJob H.job error))) (.ok a)) = some p := by
          simp [dropsJob, hj, hmax]
        rcases other_of_keepsJobs hcond hd ht hr hp with ⟨i, k, hl, hkt, hks, hkp⟩ | hq
        · refine .inl (HasJob.insert ⟨i, k, ?_, hl, hkt, hks, hkp⟩)
          exact Ne.symm ((hi.hands.running p H hK).ne_of_pending hl hks)
        · exact .inr hq
      · obtain ⟨H', hH', hpay', -⟩ := hp
        have heq : some H' = some H := hH'.symm.trans hK
        cases heq
        refine .inl ⟨H.job, _, AList.lookup_insert _, hty, ?_, hpay.trans hpay'⟩
        simp [Job.fail, hmax]
    · rw [HandIs, handOf_cons, hhand]
  · intro db h e hi hK _ hcond
    have hhand (H') : handStep id p (.did p (.pool (.core (.failJob H.job error))) (.error e)) H' =
        none := by simp [handStep]
    refine ⟨⟨?_, fun q hne => others_quiet rfl (by simpa using Ne.symm hne)⟩, ?_⟩
    · exact Book.putBack hi rfl rfl rfl hK (hhand _) (fun _ _ => rfl) fun ht hr hp =>
        other_of_keepsJobs hcond rfl ht hr hp
    · rw [HandIs, handOf_cons, hhand]

variable (E : WithdrawalsEnv)

def Ran (id : Uuid) (p : Nat) (job : Uuid) (payload : Payload) : Except String Unit → WdAssertion
  | .ok _ => ToComplete id p job payload
  | .error _ => HandIs id p (some ⟨job, payload, false⟩)

theorem triple_runBroadcastJob (job : Uuid) (payload : Payload) :
    Keeping track id p (Idle p (HandIs id p (some ⟨job, payload, false⟩)))
      (runBroadcastJob E payload) fun res => Idle p (Ran id p job payload res) := by
  cases payload with
  | withdrawalId i =>
    by_cases hi : i = id
    · subst hi
      refine .mapErr (.conseq (triple_processBroadcast E fun _ => ⟨_, rfl, rfl, rfl⟩)
        (fun _ _ h => h) fun res c _ h => ?_)
      cases res with
      | error e => exact h
      | ok _ =>
        rcases h.2 with ⟨hK, hq⟩ | hK
        · exact ⟨h.1, false, hK, fun _ => .inr hq⟩
        · exact ⟨h.1, true, hK, fun _ => .inl rfl⟩
    · refine .mapErr (.conseq (calm_processBroadcast E hi) (fun _ _ h => h) fun res c _ h => ?_)
      cases res with
      | error e => exact h
      | ok _ =>
        refine ⟨h.1, false, h.2, fun hp => absurd ?_ hi⟩
        injection hp
  | swapId i => exact .throw fun _ _ h => h
  | other text => exact .throw fun _ _ h => h

theorem triple_closeJob (job : Uuid) (payload : Payload) (outcome : Except String Unit) :
    Keeping track id p (Idle p (Ran id p job payload outcome)) (closeJob job outcome)
      fun _ => Idle p (HandIs id p none) := by
  refine Protocol.Triple.bind (Q := fun _ => Idle p (HandIs id p none)) (.attempt ?_)
    (fun _ => .ret fun _ _ h => h) fun _ _ _ h => h
  cases outcome with
  | ok _ => exact triple_completeJob job payload
  | error e => exact triple_failJob ⟨job, payload, false⟩ e

theorem calm_drainBroadcastQueue (lockedBy : String) (fuel : ℕ) :
    Calm track id p none (drainBroadcastQueue E lockedBy fuel) := by
  induction fuel with
  | zero => exact .ret ()
  | succ fuel ih =>
    refine Protocol.Triple.bind (Q := RowProtocol.outcome (fun a c => match a with
        | .ok a => Idle p (HandIs id p (takenJob a)) c
        | .error _ => Idle p (HandIs id p none) c) fun _ _ => False)
      (.attempt (.conseq (triple_claimNext lockedBy) (fun _ _ h => h) fun r c _ h => ?_))
      (fun claimed => ?_) fun _ _ _ h => h.elim
    · cases r with
      | ok a => exact h
      | error e => exact h
    · cases claimed with
      | error e => exact .ret fun _ _ h => h
      | ok a =>
        cases a with
        | none => exact .ret fun _ _ h => h
        | some taken =>
          obtain ⟨job, j⟩ := taken
          refine .bind (Q := RowProtocol.outcome (fun outcome =>
            Idle p (Ran id p job j.payload outcome)) fun _ _ => False)
            (.attempt (triple_runBroadcastJob E job j.payload)) (fun outcome => ?_)
            fun _ _ _ h => h.elim
          exact .bind (triple_closeJob job j.payload outcome) (fun _ => ih) fun _ _ _ h => h

/-! ## Every process -/

theorem handOf_unborn {db : WdDb} {h : WdHist} (hu : Unborn (S := satsPay withdrawalsExt) p db h) :
    handOf id p h = none :=
  handOf_ext (h := []) ⟨h, (List.append_nil h).symm, hu⟩

theorem keeps_of_calm {ε α : Type} {x : Withdrawals ε α} (hx : Calm track id p none x) :
    Keeping track id p (Idle p (Unborn p)) x.spawn
      fun _ => Over ((withdrawalProtocol track id).done p) :=
  .conseq (.spawn hx) (fun _ _ h => ⟨h.1, handOf_unborn h.2⟩) fun _ _ _ h => h.2

/-- Every process of the pipeline keeps to the protocol of one withdrawal. -/
theorem keeps_pipelineProcess {c : Withdrawals Empty Unit} (hc : PipelineProcess E c) :
    Keeping track id p (Idle p (Unborn p)) c fun _ => Over ((withdrawalProtocol track id).done p) := by
  cases hc with
  | request userId coin toAddress amount ip key =>
    exact keeps_of_calm (calm_requestWithdrawalHandler E _ _ _ _ _ _)
  | approve i adminId ip => exact keeps_of_calm (calm_approveWithdrawalHandler E _ _ _)
  | reject i adminId ip => exact keeps_of_calm (calm_rejectWithdrawalHandler E _ _ _)
  | drain lockedBy fuel => exact keeps_of_calm (calm_drainBroadcastQueue E _ _)
  | requeue => exact keeps_of_calm (calm_requeueEligible)
  | log l =>
    exact keeps_of_calm (calm_pool (.core (.insertAudit l)) trivial fun _ => ⟨rfl, rfl, fun _ _ => rfl⟩)
  | hold walletId => exact keeps_of_calm (calm_setReorgHold walletId)

/-- And so do the worker's functions on their own, where no job is followed. -/
theorem keeps_withdrawalProcess (ht : ¬ track) {c : Withdrawals Empty Unit}
    (hc : WithdrawalProcess E c) :
    Keeping track id p (Idle p (Unborn p)) c fun _ => Over ((withdrawalProtocol track id).done p) := by
  cases hc with
  | pipeline hc => exact keeps_pipelineProcess E hc
  | broadcast i =>
    refine keeps_of_calm ?_
    by_cases hi : i = id
    · subst hi
      refine .conseq (triple_processBroadcast E fun h => absurd h ht) (fun _ _ h => h)
        fun res c _ h => ⟨h.1, ?_⟩
      cases res with
      | error e => exact h.2
      | ok _ =>
        rcases h.2 with ⟨hK, -⟩ | hK
        · exact hK
        · exact hK
    · exact calm_processBroadcast E hi
  | finalize i =>
    refine keeps_of_calm ?_
    by_cases hi : i = id
    · subst hi
      have finalize : Keeping track i p (Idle p (ToFinalize False i p none))
          (finalizeBroadcasted i) fun res => Idle p (Finalized False i p none res) :=
        triple_finalizeBroadcasted
      refine .conseq finalize (fun _ _ h => ⟨h.1, h.2, nofun⟩) fun res c _ h => ⟨h.1, ?_⟩
      cases res with
      | error e => exact h.2
      | ok _ => exact h.2.1
    · exact calm_finalizeBroadcasted hi

end

end SatsPay
