import SatsPay.WithdrawalSteps

/-!
# The transactions of the withdrawal pipeline

What each transaction does to the book of one withdrawal: nothing, when it is about
another one, and else one move.
-/

namespace SatsPay

open Interleave ReadCommitted RowProtocol

abbrev Keeping (track : Prop) (id : Uuid) (p : Nat) {ε α : Type}
    (A : Conf (machine (satsPay withdrawalsExt)) → Prop) (x : Withdrawals ε α)
    (Q : Except ε α → Conf (machine (satsPay withdrawalsExt)) → Prop) : Prop :=
  (withdrawalProtocol track id).toProtocol.Triple p A x Q

/-! ## About another withdrawal -/

def Calm (track : Prop) (id : Uuid) (p : Nat) (K : Option Hand) {ε α : Type}
    (x : Withdrawals ε α) : Prop :=
  Keeping track id p (Idle p (HandIs id p K)) x fun _ => Idle p (HandIs id p K)

def CalmTx (track : Prop) (id : Uuid) (p : Nat) (K : Option Hand) {ε α : Type}
    (x : Withdrawals ε α) : Prop :=
  Keeping track id p (InTx p (Eff id none [] fun _ => HandIs id p K)) x
    fun _ => Over (HandIs id p K)

section
variable {track : Prop} {id : Uuid} {p : Nat} {K : Option Hand} {ε ε' α β : Type}

theorem Calm.ret (a : α) : Calm track id p K (.ret a : Withdrawals ε α) :=
  Protocol.Triple.ret fun _ _ h => h
theorem Calm.throw (e : ε) : Calm track id p K (.throw e : Withdrawals ε α) :=
  Protocol.Triple.throw fun _ _ h => h

theorem Calm.bind {x : Withdrawals ε α} {f : α → Withdrawals ε β} (hx : Calm track id p K x)
    (hf : ∀ a, Calm track id p K (f a)) : Calm track id p K (x >>= f) :=
  Protocol.Triple.bind hx hf fun _ _ _ h => h

theorem Calm.attempt {x : Withdrawals ε α} (hx : Calm track id p K x) :
    Calm track id p K (x.attempt : Withdrawals ε' _) := Protocol.Triple.attempt hx

theorem Calm.mapErr {x : Withdrawals ε α} (hx : Calm track id p K x) (g : ε → ε') :
    Calm track id p K (x.mapErr g) := Protocol.Triple.mapErr hx

theorem CalmTx.ret (a : α) : CalmTx track id p K (.ret a : Withdrawals ε α) :=
  Protocol.Triple.ret fun _ _ ⟨_, _, _, h⟩ => h

theorem CalmTx.throw (e : ε) : CalmTx track id p K (.throw e : Withdrawals ε α) :=
  Protocol.Triple.throw fun _ _ ⟨_, _, _, h⟩ => h

theorem CalmTx.apply {input : LedgerCreditInput} (hin : input.referenceId ≠ some id)
    (g : LedgerError → ε) {f : Unit → Withdrawals ε α} (hf : CalmTx track id p K (f ())) :
    CalmTx track id p K ((applyLedgerEntry input).mapErr g >>= f) :=
  Protocol.Triple.bind (triple_apply_aside hin (keeps_of_framed framed_handIs)) (fun _ => hf)
    fun _ _ _ h => over_of_inTx h

variable [FromErr DbError ε]

theorem CalmTx.query (st : Stmt withdrawalsExt) (hst : AsideStmt id st)
    {f : st.Ans → Withdrawals ε α} (hf : ∀ a, CalmTx track id p K (f a)) :
    CalmTx track id p K (ReadCommitted.query st >>= f) :=
  Protocol.Triple.bind (triple_aside hst (keeps_of_framed framed_handIs)) hf fun _ _ _ h => over_of_inTx h

theorem CalmTx.commit (a : α) :
    CalmTx track id p K (ReadCommitted.commit >>= fun _ => pure a : Withdrawals ε α) :=
  Protocol.Triple.bind (triple_commit_aside framed_handIs (fun _ _ _ h => h) fun _ _ _ _ h => h)
    (fun _ => .ret fun _ _ h => h.2) fun _ _ _ h => h

theorem CalmTx.commit_end : CalmTx track id p K (ReadCommitted.commit : Withdrawals ε Unit) :=
  Protocol.Triple.conseq (triple_commit_aside framed_handIs (fun _ _ _ h => h) fun _ _ _ _ h => h)
    (fun _ _ h => h) fun r _ _ h => match r with
      | .ok _ => h.2
      | .error _ => h

theorem CalmTx.transaction {body : Withdrawals ε α} (hb : CalmTx track id p K body) :
    Calm track id p K (transaction body) :=
  triple_scope framed_handIs (fun _ => framed_handIs) (fun _ _ _ h => h) hb

omit [FromErr DbError ε] in
theorem CalmTx.stage (event : DomainEvent) {f : Unit → Withdrawals WithdrawalsError α}
    (hf : CalmTx track id p K (f ())) : CalmTx track id p K (stage event >>= f) :=
  Protocol.Triple.bind (triple_stage (keeps_of_framed framed_handIs)) (fun _ => hf)
    fun _ _ _ h => over_of_inTx h

/-- A statement on its own, that is not about the withdrawal. -/
theorem triple_pool_aside {st : Stmt withdrawalsExt} {A : WdAssertion} (hst : AsideStmt id st)
    (hq : ∀ r, Quiet id (.did p (.pool st) r)) (hA : (withdrawalProtocol track id).Framed p A)
    (hcong : ∀ db db' h, rowOf id db' = rowOf id db → A db h → A db' h) :
    Keeping track id p (Idle p A) (poolQuery st : Withdrawals ε _) fun _ => Idle p A := by
  have run : Keeping track id p (Idle p A) (poolQuery st : Withdrawals ε _)
      (outcome (fun _ => Idle p A) fun _ => Idle p A) := by
    refine triple_poolQuery (S := satsPay withdrawalsExt) st (fun _ => hA.stable)
      (fun _ => hA.stable) ?_ ?_
    · intro db h a ws hi ha he _
      have heff := effect_of_aside hst he
      have hrow : rowOf id (viewOf ws db) = rowOf id db := by rw [heff.row, Option.none_or]
      refine ⟨⟨fun w hw k hk => covered_of_other (not_insert_of_aside hst) he w hw k hk, ?_,
        fun q hne => ?_⟩, hA.own _ _ _ (hq _) rfl (hcong _ _ _ hrow ha)⟩
      · have hb := Book.quiet hi (hq (.ok a))
        show Book _ _ _ _ _ _
        rwa [hrow, heff.entries, List.nil_append, heff.jobs]
      · have ho : Others id q db h db (.did p (.pool st) (.ok a) :: h) :=
          others_quiet (hq (.ok a)).broadcast (by simpa using Ne.symm hne)
        refine ⟨ho.hist, heff.wallets db, ?_, ho.calls, fun hc r hr hs => hrow.trans hr, ho.hand, ?_⟩
        · show Advance _ (rowOf id (viewOf ws db))
          rw [hrow]; exact advance_refl _
        · intro H _; rw [heff.jobs]
    · intro db h e hi ha _ _
      exact ⟨⟨Book.quiet hi (hq _), fun q hne => others_quiet (hq _).broadcast
        (by simpa using Ne.symm hne)⟩, hA.own db _ _ (hq _) rfl ha⟩
  exact .conseq run (fun _ _ h => h) fun r _ _ h => match r with
    | .ok _ => h
    | .error _ => h

theorem calm_pool (st : Stmt withdrawalsExt) (hst : AsideStmt id st)
    (hq : ∀ r, Quiet id (.did p (.pool st) r)) :
    Calm track id p K (poolQuery st : Withdrawals ε _) :=
  triple_pool_aside hst hq framed_handIs fun _ _ _ _ h => h

omit [FromErr DbError ε] in
/-- A program whose outcome is dropped. -/
theorem triple_besides {A : Conf (machine (satsPay withdrawalsExt)) → Prop} {x : Withdrawals ε' β}
    {f : Withdrawals ε α} {Q : Except ε α → Conf (machine (satsPay withdrawalsExt)) → Prop}
    (hx : Keeping track id p A x fun _ => A) (hf : Keeping track id p A f Q) :
    Keeping track id p A (x.attempt >>= fun _ => f) Q :=
  .bind (Q := outcome (fun _ => A) fun _ _ => False) (.attempt hx) (fun _ => hf)
    fun _ _ _ h => h.elim

end

/-! ### The programs -/

section
variable {track : Prop} {id i : Uuid} {p : Nat} {K : Option Hand} (E : WithdrawalsEnv)

theorem calm_finalizeBroadcasted (hi : i ≠ id) : Calm track id p K (finalizeBroadcasted i) := by
  refine CalmTx.transaction (.query (.ext (.update i .confirmed)) hi fun row => ?_)
  cases row with
  | none => exact .ret ()
  | some r => exact .stage _ .commit_end

theorem calm_settleBroadcast (hi : i ≠ id) (row : WithdrawalToSend)
    (result : Except BroadcastError BroadcastResult) :
    Calm track id p K (settleBroadcast E i row result) := by
  cases result with
  | error e =>
    unfold settleBroadcast
    dsimp only
    split
    · have fail : Calm track id p K (transaction (failTx E i row e.message)) :=
        CalmTx.transaction (.query (.ext (.update i .failed)) hi fun _ =>
          .apply (by simpa [withdrawalReversal] using hi) _ (.stage _ .commit_end))
      have audit (log : AuditLog) : Calm track id p K
          (corePool (.insertAudit log) : Withdrawals DbError Unit) :=
        calm_pool (.core (.insertAudit log)) trivial fun _ => ⟨rfl, rfl, fun _ _ => rfl⟩
      exact fail.bind fun _ => (audit _).attempt.bind fun _ => .ret ()
    · exact .ret ()
  | ok result =>
    have sent : Calm track id p K (transaction (broadcastedTx E i row result.txHash)) :=
      CalmTx.transaction (.query (.ext (.update i (.broadcasted result.txHash))) hi fun _ =>
        .stage _ .commit_end)
    have fee (f : NetworkFee) : Calm track id p K (recordNetworkFee f) := by
      unfold recordNetworkFee
      split
      · exact .ret false
      · exact calm_pool (.ext (.recordNetworkFee f)) trivial fun _ => ⟨rfl, rfl, fun _ _ => rfl⟩
    exact sent.bind fun _ => (fee _).attempt.bind fun _ => calm_finalizeBroadcasted hi

/-- A call of the chain client for another withdrawal. -/
theorem calm_broadcastWithdrawal {ε : Type} (hi : i ≠ id) (coin : Coin) (toAddress : String)
    (amount : ℕ) :
    Calm track id p K (broadcastWithdrawal i coin toAddress amount : Withdrawals ε _) := by
  have framed : (withdrawalProtocol track id).Framed p (HandIs id p K) := framed_handIs
  refine Protocol.Triple.conseq (triple_invoke (S := satsPay withdrawalsExt)
    (WithdrawalsCall.broadcastWithdrawal i coin toAddress amount) (fun _ => framed.stable) ?_)
    (fun _ _ h => h) fun r _ _ h => match r with
      | .ok _ => h
      | .error _ => h.elim
  intro db h r hinv ha _
  have hq : Quiet id (.did p (.call (.broadcastWithdrawal i coin toAddress amount)) r) :=
    ⟨rfl, beq_false_of_ne hi, fun _ _ => rfl⟩
  exact ⟨⟨Book.quiet hinv hq, fun q hne => others_quiet hq.broadcast (by simpa using Ne.symm hne)⟩,
    framed.own db _ _ hq rfl ha⟩

theorem calm_processBroadcast (hi : i ≠ id) : Calm track id p K (processBroadcast E i) := by
  have claim : Calm track id p K (wdPool (.update i .claim) : Withdrawals WithdrawalsError _) := by
    refine calm_pool (.ext (.update i .claim)) hi fun r => ⟨?_, rfl, fun _ _ => rfl⟩
    match r with
    | .ok none => rfl
    | .ok (some _) => exact beq_false_of_ne hi
    | .error _ => rfl
  refine claim.bind fun claimed => ?_
  cases claimed with
  | none =>
    have status : Calm track id p K
        (wdPool (.withdrawalStatus i) : Withdrawals WithdrawalsError _) := by
      refine calm_pool (.ext (.withdrawalStatus i)) trivial fun r => ⟨rfl, rfl, fun q H => ?_⟩
      match r with
      | .ok s => simp [handStep, hi]
      | .error _ => rfl
    refine status.bind fun s => ?_
    split
    · exact calm_finalizeBroadcasted hi
    · exact .ret ()
  | some _ =>
    refine Calm.bind (calm_pool (.ext (.withdrawalToSend i)) trivial fun _ =>
      ⟨rfl, rfl, fun _ _ => rfl⟩) fun row => ?_
    cases row with
    | none => exact .ret ()
    | some row => exact (calm_broadcastWithdrawal hi _ _ _).bind fun _ => calm_settleBroadcast E hi _ _

theorem calm_approveWithdrawal (hi : i ≠ id) (adminId : Uuid) (ip : Option String) :
    Calm track id p K (approveWithdrawal i adminId ip) := by
  refine CalmTx.transaction (.query (.ext (.update i (.approve adminId))) hi fun row => ?_)
  cases row with
  | none => exact .throw _
  | some r => exact .query (.core (.insertAudit _)) trivial fun _ => .commit_end

theorem calm_rejectWithdrawal (hi : i ≠ id) (adminId : Uuid) (ip : Option String) :
    Calm track id p K (rejectWithdrawal E i adminId ip) := by
  refine CalmTx.transaction (.query (.ext (.withdrawalAmounts i)) trivial fun amounts => ?_)
  cases amounts with
  | none => exact .throw _
  | some amounts =>
    refine .query (.ext (.update i .cancel)) hi fun row => ?_
    cases row with
    | none => exact .throw _
    | some r =>
      exact .apply (by simpa [withdrawalReversal] using hi) _
        (.query (.core (.insertAudit _)) trivial fun _ => .commit_end)

theorem calmTx_createWithdrawal (hi : i ≠ id) (toAddress : String) (input : NewWithdrawal) :
    CalmTx track id p K (createWithdrawal E toAddress i input) := by
  have hst : AsideStmt id (.ext (.insertWithdrawal i input)) := hi
  have insert : Keeping track id p (InTx p (Eff id none [] fun _ => HandIs id p K))
      (wdQuery (.insertWithdrawal i input) : Withdrawals DbError Unit)
      (outcome (fun _ => InTx p (Eff id none [] fun _ => HandIs id p K))
        fun _ => InTx p (Left fun _ => HandIs id p K)) :=
    triple_aside hst (keeps_of_framed framed_handIs)
  refine Protocol.Triple.bind (Q := outcome (fun inserted c => match inserted with
      | .ok _ => InTx p (Eff id none [] fun _ => HandIs id p K) c
      | .error _ => Over (HandIs id p K) c) fun _ _ => False)
    (.attempt (.conseq insert (fun _ _ h => h) fun r c _ h => ?_)) (fun inserted => ?_)
    fun e _ _ h => h.elim
  · cases r with
    | ok _ => exact h
    | error _ => exact over_of_inTx h
  · have debit : CalmTx track id p K (debitWithdrawal E i input) := by
      refine .apply (by simpa [withdrawalDebit] using hi) _ ?_
      split
      · exact .apply (by simpa [withdrawalFeeDebit] using hi) _ .commit_end
      · exact .commit_end
    cases inserted with
    | ok _ => exact Protocol.Triple.bind debit (fun _ => .ret fun _ _ h => h) fun _ _ _ h => h
    | error e =>
      cases e with
      | uniqueViolation => exact Protocol.Triple.ret fun _ _ h => h
      | _ => exact Protocol.Triple.throw fun _ _ h => h

end

/-! ## Moves -/

section
variable {id : Uuid} {p : Nat} {r r' : Withdrawal} {h : WdHist}

/-- A move that is no claim. -/
theorem Sending.move (hs : Sending id (some r) h) (hc : r'.status.Claimed = r.status.Claimed)
    (ht : r.SameTerms r')
    (ha : r'.requiresApproval → r'.status ≠ .pending → r'.status ≠ .canceled →
      (r.status ≠ .pending ∧ r.status ≠ .canceled) ∨ Approved id (.did p .commit (.ok ()) :: h)) :
    Sending id (some r') (.did p .commit (.ok ()) :: h) where
  claims := by
    have := (hs.quiet (e := .did p .commit (.ok ())) rfl rfl).claims
    rw [this]
    simp [hc]
  broadcasts := (hs.quiet (e := .did p .commit (.ok ())) rfl rfl).broadcasts
  approved := by
    rintro _ ⟨⟩ hr h₁ h₂
    rcases ha hr h₁ h₂ with ⟨h₃, h₄⟩ | h
    · exact (hs.approved r rfl (ht.requiresApproval ▸ hr) h₃ h₄).cons _
    · exact h
  only := by
    rintro _ ⟨⟩ hr
    exact (hs.only r rfl (ht.requiresApproval ▸ hr)).cons fun he => by cases he

theorem accounted_kept {es : List LedgerEntry} (ht : r.SameTerms r')
    (hr : r.status ≠ .failed ∧ r.status ≠ .canceled)
    (hr' : r'.status ≠ .failed ∧ r'.status ≠ .canceled) (ha : Accounted (some r) es) :
    Accounted (some r') es := by
  have h₁ : ¬ (r.status = .failed ∨ r.status = .canceled) := by simpa using hr
  have h₂ : ¬ (r'.status = .failed ∨ r'.status = .canceled) := by simpa using hr'
  change r.Accounted es at ha
  show r'.Accounted es
  unfold Withdrawal.Accounted at *
  rw [if_neg h₁] at ha
  rw [if_neg h₂, ht.amount, ht.feeAmount]
  exact ha

/-- A reversal gives back what was held. -/
theorem accounted_reversed {es : List LedgerEntry} {e : LedgerEntry}
    (hr : r.status ≠ .failed ∧ r.status ≠ .canceled)
    (hr' : r'.status = .failed ∨ r'.status = .canceled)
    (he : e.amount = r.amount + r.feeAmount) (hte : e.type = .withdrawalReversal)
    (ha : Accounted (some r) es) : Accounted (some r') (e :: es) := by
  have h₁ : ¬ (r.status = .failed ∨ r.status = .canceled) := by simpa using hr
  change r.Accounted es at ha
  show r'.Accounted (e :: es)
  unfold Withdrawal.Accounted at *
  rw [if_neg h₁] at ha
  rw [if_pos hr', total_cons, reversals_cons, if_pos hte, he, ha.1, ha.2]
  omega

end

/-! ### Confirmation -/

section
variable {track late : Prop} {id : Uuid} {p : Nat} {K : Option Hand}

def ToFinalize (late : Prop) (id : Uuid) (p : Nat) (K : Option Hand) : WdAssertion :=
  fun db h => HandIs id p K db h ∧ (late → RowHas id (fun r => r.status.Sent) db h)

def Finalized (late : Prop) (id : Uuid) (p : Nat) (K : Option Hand) :
    Except WithdrawalsError Unit → WdAssertion
  | .ok _ => fun db h =>
    HandIs id p K db h ∧ (late → RowHas id (fun r => r.status = .confirmed) db h)
  | .error _ => HandIs id p K

theorem framed_sent :
    (withdrawalProtocol track id).Framed p (RowHas id fun r => r.status.Sent) :=
  framed_rowHas fun _ _ _ hl hs => hs.later hl

theorem framed_final {s : WithdrawalStatus} (hs : s = .confirmed ∨ s = .failed ∨ s = .canceled) :
    (withdrawalProtocol track id).Framed p (RowHas id fun r => r.status = s) :=
  framed_rowHas fun r r' _ hl hr => by
    rw [hr] at hl
    exact hl.of_final hs

theorem framed_imp {φ : Prop} {B : WdAssertion} (hB : (withdrawalProtocol track id).Framed p B) :
    (withdrawalProtocol track id).Framed p fun db h => φ → B db h :=
  ⟨fun _ _ _ _ ha hr he hi hφ => hB.stable _ _ _ _ (ha hφ) hr he hi,
    fun _ _ _ hq he ha hφ => hB.own _ _ _ hq he (ha hφ)⟩

theorem framed_toFinalize : (withdrawalProtocol track id).Framed p (ToFinalize late id p K) :=
  framed_handIs.and (framed_imp framed_sent)

theorem framed_finalized (r : Except WithdrawalsError Unit) :
    (withdrawalProtocol track id).Framed p (Finalized late id p K r) := by
  cases r with
  | ok _ => exact framed_handIs.and (framed_imp (framed_final (.inl rfl)))
  | error _ => exact framed_handIs

theorem move_confirm {r : Withdrawal} (hg : WithdrawalUpdate.confirmed.guard r.status) {h : WdHist} :
    WithdrawalMove track id p (some r) (WithdrawalUpdate.confirmed.set r) [] h := by
  have hs : r.status = .broadcasted := by simpa [WithdrawalUpdate.guard] using hg
  have hn : r.status.Next (WithdrawalUpdate.confirmed.set r).status := by
    rw [hs]; exact .confirm
  have ht := Withdrawal.sameTerms_set .confirmed r
  refine ⟨advance_set hn, ?_, ?_, ?_, ?_⟩
  · rintro _ ⟨⟩ hb
    rw [hs] at hb
    cases hb
  · intro es₀ ha
    exact accounted_kept ht (by simp [hs]) (by simp [WithdrawalUpdate.set]) ha
  · intro hsend
    exact hsend.move (by rw [hs]; rfl) ht fun _ _ _ => .inl (by simp [hs])
  · intro _ hb
    cases hb

theorem triple_finalizeTx :
    Keeping track id p (InTx p (Eff id none [] fun _ => ToFinalize late id p K)) (finalizeTx id)
      fun r => Over (Finalized late id p K r) := by
  have hA : Keeps track id p fun _ => ToFinalize late id p K := keeps_of_framed framed_toFinalize
  have hN : Keeps track id p fun _ => Finalized late id p K (.ok ()) :=
    keeps_of_framed (framed_finalized _)
  refine Protocol.Triple.bind (triple_update hA hN ?_) (fun row => ?_)
    fun _ _ _ h => (over_of_inTx h).1
  · rintro ks db h - ⟨hK, hl⟩ hn
    refine ⟨hK, fun ht => ?_⟩
    obtain ⟨r, hr, hs⟩ := hl ht
    rcases hs with hs | hs
    · have := hn r hr
      rw [hs] at this
      cases this
    · exact ⟨r, hr, hs⟩
  · cases row with
    | none => exact Protocol.Triple.ret fun _ _ ⟨_, _, _, h⟩ => h
    | some r' =>
      refine .of_exists fun r => .of_pure fun hr' => .of_pure fun hg => ?_
      subst hr'
      have hL := (keeps_lockedAt (some r)).and hA
      have staged : Keeping track id p (InTx p (Eff id (some (WithdrawalUpdate.confirmed.set r)) []
            fun ks db h => LockedAt id (some r) ks db h ∧ ToFinalize late id p K db h))
          (stage (.withdrawalConfirmed (WithdrawalUpdate.confirmed.set r).walletId id 1))
          (outcome (fun _ => InTx p (Eff id (some (WithdrawalUpdate.confirmed.set r)) []
            fun ks db h => LockedAt id (some r) ks db h ∧ ToFinalize late id p K db h))
            fun _ => InTx p (Left fun ks db h =>
              LockedAt id (some r) ks db h ∧ ToFinalize late id p K db h)) :=
        triple_stage hL
      refine .bind staged (fun _ => ?_) fun _ _ _ ⟨_, _, _, h⟩ => h.1
      refine .conseq (triple_commit_move (B := Finalized late id p K (.ok ())) (E := HandIs id p K)
        (framed_finalized _).stable framed_handIs (fun _ _ _ h => h.2.1) ?_ ?_)
        (fun _ _ h => h) fun res c _ h => ?_
      · rintro ks db h - ⟨⟨-, hrow⟩, -⟩
        rw [hrow]
        exact move_confirm hg
      · rintro ks db db' h ⟨-, hK, -⟩ hrow
        exact ⟨hK.cons fun _ _ => rfl, fun _ => ⟨_, hrow, rfl⟩⟩
      · cases res with
        | ok _ => exact h.2
        | error _ => exact h

theorem triple_finalizeBroadcasted :
    Keeping track id p (Idle p (ToFinalize late id p K)) (finalizeBroadcasted id)
      fun r => Idle p (Finalized late id p K r) :=
  triple_scope framed_toFinalize framed_finalized (fun _ _ _ h => h.1) triple_finalizeTx

end

/-! ### The answer of the chain client -/

section
variable {track : Prop} {id : Uuid} {p : Nat} {K : Option Hand} {r : Withdrawal}

def ToSettle (id : Uuid) (p : Nat) (K : Option Hand) (r : Withdrawal) : WdAssertion :=
  fun db h => HandIs id p K db h ∧ Mine id p r db h

def Settled (φ : Withdrawal → Prop) (id : Uuid) (p : Nat) (K : Option Hand) :
    Except WithdrawalsError Unit → WdAssertion
  | .ok _ => fun db h => HandIs id p K db h ∧ RowHas id φ db h
  | .error _ => HandIs id p K

theorem framed_toSettle : (withdrawalProtocol track id).Framed p (ToSettle id p K r) :=
  framed_handIs.and framed_mine

theorem framed_settled {φ : Withdrawal → Prop}
    (hφ : (withdrawalProtocol track id).Framed p (RowHas id φ)) (res : Except WithdrawalsError Unit) :
    (withdrawalProtocol track id).Framed p (Settled φ id p K res) := by
  cases res with
  | ok _ => exact framed_handIs.and hφ
  | error _ => exact framed_handIs

/-- The two updates without a guard find the row of who has claimed it. -/
theorem triple_update_mine {u : WithdrawalUpdate} (hu : ∀ s, u.guard s = true) :
    Keeping track id p (InTx p (Eff id none [] fun _ => ToSettle id p K r))
      (wdQuery (.update id u) : Withdrawals WithdrawalsError _)
      (outcome (fun _ => InTx p (Eff id (some (u.set r)) [] fun _ => ToSettle id p K r))
        fun _ => InTx p (Left fun _ => ToSettle id p K r)) := by
  have hA : Keeps track id p fun _ => ToSettle id p K r := keeps_of_framed framed_toSettle
  have hN : Keeps track id p fun _ _ _ => False :=
    keeps_of_framed ⟨fun _ _ _ _ h _ _ _ => h, fun _ _ _ _ _ h => h⟩
  refine .conseq (triple_update hA hN ?_) (fun _ _ h => h) fun a c _ h => ?_
  · rintro ks db h - ⟨-, -, hr, -⟩ hn
    have := hn r hr
    rw [hu] at this
    cases this
  · cases a with
    | error _ => exact h
    | ok a =>
      cases a with
      | none =>
        obtain ⟨t, ht, heff, hf⟩ := h
        exact hf.elim
      | some r' =>
        obtain ⟨r₁, rfl, hg, t, ht, heff, ⟨hl, hr⟩, hK, hm⟩ := h
        obtain rfl : r₁ = r := Option.some.inj (hr.symm.trans hm.2.1)
        exact ⟨t, ht, heff, hK, hm⟩

theorem move_broadcasted {txHash : String} {db : WdDb} {h : WdHist} (hm : Mine id p r db h)
    (hp : track → Holding id p h) :
    WithdrawalMove track id p (some r) ((WithdrawalUpdate.broadcasted txHash).set r) [] h := by
  have hs := hm.2.2
  have hn : r.status.Next ((WithdrawalUpdate.broadcasted txHash).set r).status := by
    rw [hs]; exact .broadcast
  have ht := Withdrawal.sameTerms_set (.broadcasted txHash) r
  refine ⟨advance_set hn, fun _ _ _ => hm.1, ?_, ?_, fun htr _ => hp htr⟩
  · intro es₀ ha
    exact accounted_kept ht (by simp [hs]) (by simp [WithdrawalUpdate.set]) ha
  · intro hsend
    exact hsend.move (by rw [hs]; rfl) ht fun _ _ _ => .inl (by simp [hs])

theorem move_failed {e : LedgerEntry} {db : WdDb} {h : WdHist} (hm : Mine id p r db h)
    (he : e.amount = r.amount + r.feeAmount) (hte : e.type = .withdrawalReversal) :
    WithdrawalMove track id p (some r) (WithdrawalUpdate.failed.set r) [e] h := by
  have hs := hm.2.2
  have hn : r.status.Next (WithdrawalUpdate.failed.set r).status := by
    rw [hs]; exact .fail
  have ht := Withdrawal.sameTerms_set .failed r
  refine ⟨advance_set hn, fun _ _ _ => hm.1, ?_, ?_, fun _ hb => by cases hb⟩
  · intro es₀ ha
    exact accounted_reversed (by simp [hs]) (.inl rfl) he hte ha
  · intro hsend
    exact hsend.move (by rw [hs]; rfl) ht fun _ _ _ => .inl (by simp [hs])

/-- The last statement and the commit of a settlement. -/
theorem triple_settle_end {φ : Withdrawal → Prop} {new : Withdrawal} {es : List LedgerEntry}
    {event : DomainEvent} (hφ : (withdrawalProtocol track id).Framed p (RowHas id φ))
    (hnew : φ new) (hm : ∀ db h, ToSettle id p K r db h →
      WithdrawalMove track id p (some r) new es h) :
    Keeping track id p (InTx p (Eff id (some new) es fun _ => ToSettle id p K r))
      (stage event >>= fun _ => commit) fun res => Over (Settled φ id p K res) := by
  have hA : Keeps track id p fun _ => ToSettle id p K r := keeps_of_framed framed_toSettle
  refine Protocol.Triple.bind (triple_stage hA) (fun _ => ?_) fun _ _ _ h => (over_of_inTx h).1
  refine .conseq (triple_commit_move (B := Settled φ id p K (.ok ())) (E := HandIs id p K)
    (framed_settled hφ _).stable framed_handIs (fun _ _ _ h => h.1) ?_ ?_)
    (fun _ _ h => h) fun res c _ h => ?_
  · intro ks db h _ hs
    rw [hs.2.2.1]
    exact hm db h hs
  · intro ks db db' h hs hrow
    exact ⟨hs.1.cons fun _ _ => rfl, _, hrow, hnew⟩
  · cases res with
    | ok _ => exact h.2
    | error _ => exact h

variable {E : WithdrawalsEnv} {row : WithdrawalToSend}

theorem triple_broadcastedTx {txHash : String}
    (hK : track → ∃ H, K = some H ∧ H.payload = .withdrawalId id ∧ H.letGo = false) :
    Keeping track id p (Idle p (ToSettle id p K r)) (transaction (broadcastedTx E id row txHash))
      fun res => Idle p (Settled (fun r => r.status.Sent) id p K res) := by
  refine triple_scope framed_toSettle (framed_settled framed_sent) (fun _ _ _ h => h.1) ?_
  refine Protocol.Triple.bind (triple_update_mine fun _ => rfl) (fun _ => ?_)
    fun _ _ _ h => (over_of_inTx h).1
  refine triple_settle_end framed_sent (.inl rfl) fun db h hs => move_broadcasted hs.2 fun ht => ?_
  obtain ⟨H, hH, hr⟩ := hK ht
  exact ⟨H, hs.1.trans hH, hr⟩

structure WithdrawalToSend.Reads (row : WithdrawalToSend) (r : Withdrawal) : Prop where
  walletId : row.walletId = r.walletId
  amount : row.amount = r.amount
  feeAmount : row.feeAmount = r.feeAmount

theorem triple_failTx {message : String} (hrow : row.Reads r) :
    Keeping track id p (Idle p (ToSettle id p K r)) (transaction (failTx E id row message))
      fun res => Idle p (Settled (fun r => r.status = .failed) id p K res) := by
  have final : (withdrawalProtocol track id).Framed p (RowHas id fun r => r.status = .failed) :=
    framed_final (.inr (.inl rfl))
  refine triple_scope framed_toSettle (framed_settled final) (fun _ _ _ h => h.1) ?_
  refine Protocol.Triple.bind (triple_update_mine fun _ => rfl) (fun _ => ?_)
    fun _ _ _ h => (over_of_inTx h).1
  refine Protocol.Triple.bind (triple_apply_entry rfl (keeps_of_framed framed_toSettle)) (fun _ => ?_)
    fun _ _ _ h => (over_of_inTx h).1
  refine .of_exists fun n => .of_pure fun hn => ?_
  refine triple_settle_end final rfl fun db h hs => move_failed hs.2 ?_ rfl
  rw [withdrawalReversal, numeric39_int_eq_some] at hn
  rw [← hrow.amount, ← hrow.feeAmount]
  exact hn.1.symm

end

/-! ### Decisions -/

/-- The event is in the history, and `p` has begun no transaction since. -/
def Since (p : Nat) (e : WdEvent) (h : WdHist) : Prop :=
  ∃ since older, h = since ++ e :: older ∧ ∀ e' ∈ since, ∀ b, e' ≠ .did p .begin b

section
variable {p : Nat} {e : WdEvent} {h h' : WdHist}

theorem since_now (p : Nat) (e : WdEvent) (h : WdHist) : Since p e (e :: h) :=
  ⟨[], h, rfl, by simp⟩

theorem Since.cons {e' : WdEvent} (hs : Since p e h) (he : ∀ b, e' ≠ .did p .begin b) :
    Since p e (e' :: h) := by
  obtain ⟨since, older, rfl, hb⟩ := hs
  refine ⟨e' :: since, older, rfl, fun f hf => ?_⟩
  rcases List.mem_cons.1 hf with rfl | hf
  · exact he
  · exact hb f hf

theorem Since.ext (hs : Since p e h) (he : ReadCommitted.Ext (satsPay withdrawalsExt) p h h') :
    Since p e h' := by
  obtain ⟨l, rfl, hl⟩ := he
  obtain ⟨since, older, rfl, hb⟩ := hs
  refine ⟨l ++ since, older, by simp, fun f hf b hfb => ?_⟩
  rcases List.mem_append.1 hf with hf | hf
  · exact hl f hf (by rw [hfb]; rfl)
  · exact hb f hf b hfb

theorem approved_of_since {id adminId : Uuid} {r : Withdrawal}
    (hs : Since p (approveEvent id p adminId r) h) : Approved id (.did p .commit (.ok ()) :: h) := by
  obtain ⟨since, older, rfl, hb⟩ := hs
  exact ⟨p, adminId, r, [], since, older, rfl, hb⟩

end

section
variable {track : Prop} {id : Uuid} {p : Nat} {K : Option Hand} {r : Withdrawal}

theorem move_approve {adminId : Uuid} (hg : (WithdrawalUpdate.approve adminId).guard r.status)
    {h : WdHist} (hs : Since p (approveEvent id p adminId ((WithdrawalUpdate.approve adminId).set r)) h) :
    WithdrawalMove track id p (some r) ((WithdrawalUpdate.approve adminId).set r) [] h := by
  have hp : r.status = .pending := by simpa [WithdrawalUpdate.guard] using hg
  have hn : r.status.Next ((WithdrawalUpdate.approve adminId).set r).status := by
    rw [hp]; exact .approve
  have ht := Withdrawal.sameTerms_set (.approve adminId) r
  refine ⟨advance_set hn, ?_, ?_, ?_, fun _ hb => by cases hb⟩
  · rintro _ ⟨⟩ hb
    rw [hp] at hb
    cases hb
  · intro es₀ ha
    exact accounted_kept ht (by simp [hp]) (by simp [WithdrawalUpdate.set]) ha
  · intro hsend
    exact hsend.move (by rw [hp]; rfl) ht fun _ _ _ => .inr (approved_of_since hs)

theorem calmTx_approveTx (adminId : Uuid) (ip : Option String) :
    CalmTx track id p K (approveTx id adminId ip) := by
  have hK : Keeps track id p fun _ => HandIs id p K := keeps_of_framed framed_handIs
  have update : Keeping track id p (InTx p (Eff id none [] fun _ => HandIs id p K))
      (wdQuery (.update id (.approve adminId)) : Withdrawals AdminError _)
      (outcome (Updated id p (.approve adminId) (fun _ => HandIs id p K) fun _ => HandIs id p K)
        fun _ => InTx p (Left fun _ => HandIs id p K)) :=
    triple_update hK hK fun _ _ _ _ h _ => h
  refine Protocol.Triple.bind (triple_query_hist (S := satsPay withdrawalsExt)
    (T := fun (row : Option Withdrawal) h =>
      ∀ r', row = some r' → Since p (approveEvent id p adminId r') h) update ?_ ?_)
    (fun row => ?_) fun _ _ _ h => over_of_inTx h.1
  · rintro c row - r' rfl
    exact since_now p _ _
  · intro row l l' hs he r' hr'
    exact (hs r' hr').ext he
  · cases row with
    | none => exact Protocol.Triple.throw fun _ _ ⟨⟨_, _, _, h⟩, _⟩ => h
    | some r' =>
      refine .conseq (.of_exists fun r => .of_pure (A := fun c =>
          InTx p (Eff id (some r') [] fun ks db h => LockedAt id (some r) ks db h ∧
            HandIs id p K db h) c ∧ Since p (approveEvent id p adminId r') c.hist)
          (φ := r' = (WithdrawalUpdate.approve adminId).set r ∧
            (WithdrawalUpdate.approve adminId).guard r.status) fun hφ => ?_)
        (fun c _ ⟨⟨r, h₁, h₂, hg⟩, hs⟩ => ⟨r, ⟨h₁, h₂⟩, hg, hs (some r') rfl r' rfl⟩)
        fun _ _ _ h => h
      obtain ⟨rfl, hg⟩ := hφ
      have hst : AsideStmt id
          (.core (.insertAudit (adminAudit adminId id "WITHDRAWAL_APPROVE" ip))) := trivial
      have audit : Keeping track id p
          (InTx p (Eff id (some ((WithdrawalUpdate.approve adminId).set r)) [] fun ks db h =>
            LockedAt id (some r) ks db h ∧ HandIs id p K db h))
          (coreQuery (.insertAudit (adminAudit adminId id "WITHDRAWAL_APPROVE" ip)) :
            Withdrawals AdminError Unit)
          (outcome (fun _ => InTx p (Eff id (some ((WithdrawalUpdate.approve adminId).set r)) []
            fun ks db h => LockedAt id (some r) ks db h ∧ HandIs id p K db h))
            fun _ => InTx p (Left fun ks db h => LockedAt id (some r) ks db h ∧ HandIs id p K db h)) :=
        triple_aside hst ((keeps_lockedAt (some r)).and hK)
      refine .bind (triple_query_hist (S := satsPay withdrawalsExt)
        (A := fun c => InTx p (Eff id (some ((WithdrawalUpdate.approve adminId).set r)) []
          fun ks db h => LockedAt id (some r) ks db h ∧ HandIs id p K db h) c ∧
          Since p (approveEvent id p adminId ((WithdrawalUpdate.approve adminId).set r)) c.hist)
        (T := fun _ h =>
          Since p (approveEvent id p adminId ((WithdrawalUpdate.approve adminId).set r)) h)
        (.conseq audit (fun _ _ h => h.1) fun _ _ _ h => h)
        (fun c _ h => h.2.cons (by simp)) fun _ _ _ hs he => hs.ext he) (fun _ => ?_)
        fun _ _ _ ⟨⟨_, _, h⟩, _⟩ => h.2
      refine .conseq (triple_commit_move (B := HandIs id p K) (E := HandIs id p K)
        (A := fun ks db h => (LockedAt id (some r) ks db h ∧ HandIs id p K db h) ∧
          Since p (approveEvent id p adminId ((WithdrawalUpdate.approve adminId).set r)) h)
        framed_handIs.stable framed_handIs (fun _ _ _ h => h.1.2) ?_ ?_)
        (fun c _ ⟨⟨t, ht, he, hg⟩, hs⟩ => ⟨t, ht, he, hg, hs () rfl⟩) fun res c _ h => ?_
      · intro ks db h _ hs
        rw [hs.1.1.2]
        exact move_approve hg hs.2
      · intro ks db db' h hs _
        exact hs.1.2.cons fun _ _ => rfl
      · cases res with
        | ok _ => exact h.2
        | error _ => exact h

def HasTerms (id : Uuid) (amounts : Uuid × ℤ × ℤ) : WdAssertion :=
  RowHas id fun r => r.walletId = amounts.1 ∧ r.amount = amounts.2.1 ∧ r.feeAmount = amounts.2.2

theorem framed_hasTerms (amounts : Uuid × ℤ × ℤ) :
    (withdrawalProtocol track id).Framed p (HasTerms id amounts) :=
  framed_rowHas fun _ _ ht _ ⟨h₁, h₂, h₃⟩ =>
    ⟨ht.walletId.trans h₁, ht.amount.trans h₂, ht.feeAmount.trans h₃⟩

theorem move_cancel {e : LedgerEntry} (hg : WithdrawalUpdate.cancel.guard r.status) {h : WdHist}
    (he : e.amount = r.amount + r.feeAmount) (hte : e.type = .withdrawalReversal) :
    WithdrawalMove track id p (some r) (WithdrawalUpdate.cancel.set r) [e] h := by
  have hp : r.status = .pending := by simpa [WithdrawalUpdate.guard] using hg
  have hn : r.status.Next (WithdrawalUpdate.cancel.set r).status := by
    rw [hp]; exact .cancel
  have ht := Withdrawal.sameTerms_set .cancel r
  refine ⟨advance_set hn, ?_, ?_, ?_, fun _ hb => by cases hb⟩
  · rintro _ ⟨⟩ hb
    rw [hp] at hb
    cases hb
  · intro es₀ ha
    exact accounted_reversed (by simp [hp]) (.inr rfl) he hte ha
  · intro hsend
    exact hsend.move (by rw [hp]; rfl) ht fun _ _ hc => absurd rfl hc

theorem triple_cancelTx (E : WithdrawalsEnv) (adminId : Uuid) (ip : Option String)
    (amounts : Uuid × ℤ × ℤ) :
    Keeping track id p
      (InTx p (Eff id none [] fun _ db h => HandIs id p K db h ∧ HasTerms id amounts db h))
      (cancelTx E id adminId ip amounts) fun _ => Over (HandIs id p K) := by
  have hA : Keeps track id p fun _ db h => HandIs id p K db h ∧ HasTerms id amounts db h :=
    keeps_of_framed (framed_handIs.and (framed_hasTerms amounts))
  refine Protocol.Triple.bind (triple_update hA hA fun _ _ _ _ h _ => h) (fun row => ?_)
    fun _ _ _ h => (over_of_inTx h).1
  cases row with
  | none => exact Protocol.Triple.throw fun _ _ ⟨_, _, _, h⟩ => h.1
  | some r' =>
    refine .of_exists fun r => .of_pure fun hr' => .of_pure fun hg => ?_
    subst hr'
    have hL := (keeps_lockedAt (some r)).and hA
    refine Protocol.Triple.bind (triple_apply_entry rfl hL) (fun _ => ?_)
      fun _ _ _ ⟨_, _, h⟩ => h.2.1
    refine .of_exists fun n => .of_pure fun hn => ?_
    have hst : AsideStmt id
        (.core (.insertAudit (adminAudit adminId id "WITHDRAWAL_REJECT" ip))) := trivial
    refine Protocol.Triple.bind (triple_aside hst hL) (fun _ => ?_) fun _ _ _ ⟨_, _, h⟩ => h.2.1
    refine .conseq (triple_commit_move (B := HandIs id p K) (E := HandIs id p K)
      framed_handIs.stable framed_handIs (fun _ _ _ h => h.2.1) ?_ ?_) (fun _ _ h => h)
      fun res c _ h => ?_
    · rintro ks db h - ⟨⟨-, hrow⟩, -, r₁, hr₁, -, ha, hf⟩
      obtain rfl : r = r₁ := Option.some.inj (hrow.symm.trans hr₁)
      rw [hrow]
      refine move_cancel hg ?_ rfl
      rw [withdrawalReversal, numeric39_int_eq_some] at hn
      rw [ha, hf]
      exact hn.1.symm
    · intro ks db db' h hs _
      exact hs.2.1.cons fun _ _ => rfl
    · cases res with
      | ok _ => exact h.2
      | error _ => exact h

theorem calmTx_rejectTx (E : WithdrawalsEnv) (adminId : Uuid) (ip : Option String) :
    CalmTx track id p K (rejectTx E id adminId ip) := by
  have hK : Keeps track id p fun _ => HandIs id p K := keeps_of_framed framed_handIs
  let known : Option (Uuid × ℤ × ℤ) → WdTxAssertion
    | none => Eff id none [] fun _ => HandIs id p K
    | some amounts => Eff id none [] fun _ db h => HandIs id p K db h ∧ HasTerms id amounts db h
  have hknown : ∀ a, (withdrawalProtocol track id).FramedTx p (known a) := by
    intro a
    cases a with
    | none => exact framed_eff hK
    | some amounts => exact framed_eff (keeps_of_framed (framed_handIs.and (framed_hasTerms amounts)))
  refine Protocol.Triple.bind (triple_extRead (X := withdrawalsExt) (.withdrawalAmounts id)
    (H := known) (E := fun _ => Left fun _ => HandIs id p K)
    (fun _ x => (WithdrawalsDb.withdrawals x).lookup id |>.map fun r =>
      (r.walletId, r.amount, r.feeAmount))
    (fun _ _ => rfl) (fun _ _ => rfl) hknown (fun _ => hK.framed) ?_ fun _ _ _ _ _ _ hg => hg.2)
    (fun amounts => ?_) fun _ _ _ h => over_of_inTx h
  · intro ws ks db h _ hg
    have hview : rowOf id (viewOf ws db) = rowOf id db := by rw [hg.1.row, Option.none_or]
    show known ((rowOf id (viewOf ws db)).map _) ws ks db h
    rw [hview]
    cases hr : rowOf id db with
    | none => exact hg
    | some r => exact ⟨hg.1, hg.2, r, hr, rfl, rfl, rfl⟩
  · cases amounts with
    | none => exact Protocol.Triple.throw fun _ _ ⟨_, _, _, h⟩ => h
    | some amounts => exact triple_cancelTx E adminId ip amounts

end

/-! ### Requests -/

section
variable {track : Prop} {id : Uuid} {p : Nat} {K : Option Hand}

theorem onlyApproved_of_broadcasts {h : WdHist} (hb : broadcasts id h = 0) : OnlyApproved id h := by
  rintro newer e older rfl he
  have := List.countP_eq_zero.1 hb e (by simp)
  exact absurd he this

/-- A new row, PENDING or not subject to approval, and its debits. -/
theorem move_request {r : Withdrawal} {es : List LedgerEntry} {h : WdHist}
    (hs : r.status = .pending ∨ r.status = .queued ∧ r.requiresApproval = false)
    (ht : total es = -(r.amount + r.feeAmount)) (hr : reversals es = 0) :
    WithdrawalMove track id p none r es h := by
  refine ⟨(fun _ h => nomatch h), (fun _ h => nomatch h), ?_, ?_, ?_⟩
  · intro es₀ ha
    rw [show es₀ = [] from ha, List.append_nil]
    have hn : ¬ (r.status = .failed ∨ r.status = .canceled) := by
      rcases hs with hs | ⟨hs, -⟩ <;> simp [hs]
    show r.Accounted es
    unfold Withdrawal.Accounted
    rw [if_neg hn]
    exact ⟨ht, hr⟩
  · intro hsend
    have hquiet := hsend.quiet (e := .did p .commit (.ok ())) rfl rfl
    have hc : r.status.Claimed = false := by rcases hs with hs | ⟨hs, -⟩ <;> simp [hs, WithdrawalStatus.Claimed]
    have h₀ : claims id (.did p .commit (.ok ()) :: h) = 0 := hquiet.claims
    refine ⟨?_, hquiet.broadcasts, ?_, ?_⟩
    · rw [h₀]
      simp [hc]
    · rintro _ ⟨⟩ hra hp _
      rcases hs with hs | ⟨-, hs⟩
      · exact absurd hs hp
      · rw [hs] at hra
        cases hra
    · intro _ _ _
      have := hquiet.broadcasts
      exact onlyApproved_of_broadcasts (by omega)
  · intro _ hb
    rcases hs with hs | ⟨hs, -⟩ <;> rw [hs] at hb <;> cases hb

structure NewWithdrawal.Stored (input : NewWithdrawal) (r : Withdrawal) : Prop where
  amount : numeric39 input.amount = some r.amount
  feeAmount : numeric39 input.feeAmount = some r.feeAmount
  status : r.status = input.status
  requiresApproval : r.requiresApproval = input.requiresApproval

theorem triple_insertWithdrawal (input : NewWithdrawal) :
    Keeping track id p (InTx p (Eff id none [] fun _ => HandIs id p K))
      (wdQuery (.insertWithdrawal id input) : Withdrawals DbError Unit)
      (outcome (fun _ c => ∃ r, input.Stored r ∧ InTx p (Eff id (some r) [] fun ks db h =>
          LockedAt id none ks db h ∧ HandIs id p K db h) c)
        fun _ => InTx p (Left fun _ => HandIs id p K)) := by
  have hK : Keeps track id p fun _ => HandIs id p K := keeps_of_framed framed_handIs
  have hf (r : Withdrawal) : (withdrawalProtocol track id).FramedTx p (Eff id (some r) []
      fun ks db h => LockedAt id none ks db h ∧ HandIs id p K db h) :=
    framed_eff ((keeps_lockedAt none).and hK)
  have post : (withdrawalProtocol track id).FramedTx p fun ws ks db h =>
      ∃ r, input.Stored r ∧ Eff id (some r) [] (fun ks db h =>
        LockedAt id none ks db h ∧ HandIs id p K db h) ws ks db h :=
    { stable := fun ws ks db h db' h' ⟨r, hr, hg⟩ hk hrel he hi =>
        ⟨r, hr, (hf r).stable _ _ _ _ _ _ hg hk hrel he hi⟩
      own := fun ws ks db h e hq he ⟨r, hr, hg⟩ => ⟨r, hr, (hf r).own _ _ _ _ _ hq he hg⟩ }
  refine .conseq (triple_query (S := satsPay withdrawalsExt) (.ext (.insertWithdrawal id input))
    (fun _ => post) (fun _ => hK.framed) ?_ fun _ _ _ _ _ _ hg _ => hg.2) (fun _ _ h => h)
    fun res c _ h => ?_
  · intro ws ks db h a ws' _ hg he
    refine ⟨fun w hw k hk => List.mem_append_right _ (covered_of_other (by simp) he w hw k hk), ?_⟩
    obtain ⟨ws₁, he', rfl⟩ := ext_eval_ok he
    obtain ⟨amount, feeAmount, ha, hfee, hnone, rfl⟩ :=
      insertWithdrawal_ok (List.mem_singleton.1 he').symm
    have hrow : rowOf id db = none := by
      have : rowOf id (viewOf ws db) = none := hnone
      rwa [hg.1.row, Option.none_or] at this
    refine ⟨input.row amount feeAmount (viewOf ws db).core.now, ⟨ha, hfee, rfl, rfl⟩, ?_,
      ⟨?_, hrow⟩, hg.2⟩
    · have := hg.1.append (effect_put id (input.row amount feeAmount (viewOf ws db).core.now))
      rwa [Option.some_or, List.append_nil] at this
    · exact List.mem_append_right _ (List.mem_map_of_mem List.mem_cons_self)
  · cases res with
    | error _ => exact h
    | ok _ =>
      obtain ⟨t, ht, r, hr, hg⟩ := h
      exact ⟨r, hr, t, ht, hg⟩

theorem triple_debitWithdrawal (E : WithdrawalsEnv) {input : NewWithdrawal} {r : Withdrawal}
    (hr : input.Stored r) (hfee : 0 ≤ input.feeAmount)
    (hs : input.status = .pending ∨ input.status = .queued ∧ input.requiresApproval = false) :
    Keeping track id p (InTx p (Eff id (some r) [] fun ks db h =>
        LockedAt id none ks db h ∧ HandIs id p K db h))
      (debitWithdrawal E id input) fun _ => Over (HandIs id p K) := by
  have hL : Keeps track id p fun ks db h => LockedAt id none ks db h ∧ HandIs id p K db h :=
    (keeps_lockedAt none).and (keeps_of_framed framed_handIs)
  have hs' : r.status = .pending ∨ r.status = .queued ∧ r.requiresApproval = false := by
    rw [hr.status, hr.requiresApproval]
    exact hs
  have finish : ∀ es, total es = -(r.amount + r.feeAmount) → reversals es = 0 →
      Keeping track id p (InTx p (Eff id (some r) es fun ks db h =>
          LockedAt id none ks db h ∧ HandIs id p K db h))
        (commit : Withdrawals WithdrawalsError Unit) fun _ => Over (HandIs id p K) := by
    intro es ht hrev
    refine .conseq (triple_commit_move (B := HandIs id p K) (E := HandIs id p K)
      framed_handIs.stable framed_handIs (fun _ _ _ h => h.2) ?_ ?_) (fun _ _ h => h)
      fun res c _ h => ?_
    · intro ks db h _ hg
      rw [hg.1.2]
      exact move_request hs' ht hrev
    · intro ks db db' h hg _
      exact hg.2.cons fun _ _ => rfl
    · cases res with
      | ok _ => exact h.2
      | error _ => exact h
  refine Protocol.Triple.bind (triple_apply_entry rfl hL) (fun _ => ?_) fun _ _ _ ⟨_, _, h⟩ => h.2
  refine .of_exists fun n => .of_pure fun hn => ?_
  have hn' : n = -r.amount := by
    rw [withdrawalDebit, numeric39_neg, hr.amount] at hn
    exact (Option.some.inj hn).symm
  split
  · refine Protocol.Triple.bind (triple_apply_entry rfl hL) (fun _ => ?_)
      fun _ _ _ ⟨_, _, h⟩ => h.2
    refine .of_exists fun m => .of_pure fun hm => ?_
    have hm' : m = -r.feeAmount := by
      rw [withdrawalFeeDebit, numeric39_neg, hr.feeAmount] at hm
      exact (Option.some.inj hm).symm
    refine finish _ ?_ ?_
    · simp only [total_cons, total_nil, LedgerCreditInput.entry, hn', hm']
      omega
    · simp [reversals_cons, LedgerCreditInput.entry, withdrawalDebit, withdrawalFeeDebit]
  · rename_i hpos
    -- no fee entry, and the fee of the row is zero
    have hzero : r.feeAmount = 0 := by
      have h₀ : input.feeAmount = ((0 : ℤ) : ℚ) := by
        push_cast
        exact le_antisymm (not_lt.1 hpos) hfee
      have := hr.feeAmount
      rw [h₀, numeric39_int_eq_some] at this
      exact this.1.symm
    refine finish _ ?_ ?_
    · simp only [total_cons, total_nil, LedgerCreditInput.entry, hn', hzero]
      omega
    · simp [reversals_cons, LedgerCreditInput.entry, withdrawalDebit]

end

end SatsPay
