import SatsPay.ChainClient
import SatsPay.Decimals
import SatsPay.LedgerRuns
import SatsPay.Traces
import SatsPay.WithdrawalRuns

/-!
# The amount of a withdrawal

From the debit over the row, the text of its amount and the units of the chain: which
amounts arrive as they were debited.
-/

namespace SatsPay

open Interleave ReadCommitted RowProtocol

/-! ## What the worker hands to the chain client -/

/-- A call for a withdrawal is made with the amount of the row that was read. -/
def FromRow (E : WithdrawalsEnv) (t : List (Did (sig (satsPay withdrawalsExt)))) :
    Op (satsPay withdrawalsExt) → Prop
  | .call (.broadcastWithdrawal id coin _ amount) => ∃ row : WithdrawalToSend,
      ⟨.pool (.ext (.withdrawalToSend id)), .ok (some row)⟩ ∈ t ∧ row.coin = coin ∧
      amount = (parseU128 (E.decimalText row.amount).toList).getD 0
  | _ => True

section
variable {E : WithdrawalsEnv} {ε α : Type}

theorem free_wdTransaction {body : Withdrawals ε α} [FromErr DbError ε]
    (h : body.Free (FromRow E)) : (transaction body).Free (FromRow E) :=
  free_transaction (fun _ => trivial) (fun _ => trivial) h

theorem free_coreQuery [FromErr DbError ε] (st : CoreStmt) :
    (coreQuery st : Withdrawals ε _).Free (FromRow E) := free_query fun _ => trivial

theorem free_wdQuery [FromErr DbError ε] (st : WithdrawalsStmt) :
    (wdQuery st : Withdrawals ε _).Free (FromRow E) := free_query fun _ => trivial

theorem free_corePool [FromErr DbError ε] (st : CoreStmt) :
    (corePool st : Withdrawals ε _).Free (FromRow E) := free_poolQuery fun _ => trivial

theorem free_wdPool [FromErr DbError ε] (st : WithdrawalsStmt) :
    (wdPool st : Withdrawals ε _).Free (FromRow E) := free_poolQuery fun _ => trivial

theorem free_wdCommit [FromErr DbError ε] : (commit : Withdrawals ε Unit).Free (FromRow E) :=
  free_commit fun _ => trivial

theorem free_newUuid : (newUuid : Withdrawals ε Uuid).Free (FromRow E) :=
  free_invoke fun _ => trivial

theorem free_applyLedgerEntry (input : LedgerCreditInput) :
    (applyLedgerEntry input : Withdrawals LedgerError Unit).Free (FromRow E) :=
  free_applyOf (fun _ _ => trivial) input

theorem free_stage (event : DomainEvent) : (stage event).Free (FromRow E) :=
  (free_coreQuery _).mapErr _

/-! ## Every process -/

theorem free_findByKey {find : String → Withdrawals ε (Option (Uuid × Withdrawal))}
    (hf : ∀ key, (find key).Free (FromRow E)) (key : Option String) :
    (findByKey find key).Free (FromRow E) := by
  cases key with
  | none => exact .ret _
  | some key => exact hf key

theorem free_debitWithdrawal (id : Uuid) (input : NewWithdrawal) :
    (debitWithdrawal E id input).Free (FromRow E) := by
  refine ((free_applyLedgerEntry _).mapErr _).bind fun _ => ?_
  dsimp only
  split
  · exact ((free_applyLedgerEntry _).mapErr _).bind fun _ => free_wdCommit
  · exact free_wdCommit

theorem free_createWithdrawal (toAddress : String) (id : Uuid) (input : NewWithdrawal) :
    (createWithdrawal E toAddress id input).Free (FromRow E) := by
  refine (free_wdQuery _).attempt.bind fun inserted => ?_
  split
  · exact (free_debitWithdrawal _ _).bind fun _ => .ret _
  · exact .ret _
  · exact .throw _

theorem free_requestWithdrawal (userId : Uuid) (coin : Coin) (toAddress : String) (amount : ℚ)
    (ip : String) (key : Option String) :
    (requestWithdrawal E userId coin toAddress amount ip key).Free (FromRow E) := by
  unfold requestWithdrawal
  split
  · exact .throw _
  split
  · exact .throw _
  refine (free_findByKey (fun _ => free_wdPool _) _).bind fun existing => ?_
  split
  · exact .ret _
  refine (free_wdTransaction ?_).bind fun requested => ?_
  · refine (free_findByKey (fun _ => free_wdQuery _) _).bind fun existing => ?_
    dsimp only
    split
    · exact free_wdCommit.bind fun _ => .ret _
    refine (free_coreQuery _).bind fun walletId => ?_
    split
    · exact .throw _
    · exact free_newUuid.bind fun id => free_createWithdrawal _ _ _
  · split
    · exact .ret _
    · exact .ret _
    refine (free_findByKey (fun _ => free_wdPool _) _).bind fun winner => ?_
    split
    · exact .ret _
    · exact .throw _

theorem free_finalizeBroadcasted (id : Uuid) : (finalizeBroadcasted id).Free (FromRow E) := by
  refine free_wdTransaction ((free_wdQuery _).bind fun row => ?_)
  split
  · exact .ret _
  · exact (free_stage _).bind fun _ => free_wdCommit

theorem free_settleBroadcast (id : Uuid) (row : WithdrawalToSend)
    (r : Except BroadcastError BroadcastResult) :
    (settleBroadcast E id row r).Free (FromRow E) := by
  unfold settleBroadcast
  split
  · split
    · refine (free_wdTransaction ?_).bind fun _ => (free_corePool _).attempt.bind fun _ => .ret _
      exact (free_wdQuery _).bind fun _ => ((free_applyLedgerEntry _).mapErr _).bind fun _ =>
        (free_stage _).bind fun _ => free_wdCommit
    · exact .ret _
  · refine (free_wdTransaction ?_).bind fun _ => Prog.Free.bind (Prog.Free.attempt ?_) fun _ =>
      free_finalizeBroadcasted id
    · exact (free_wdQuery _).bind fun _ => (free_stage _).bind fun _ => free_wdCommit
    · unfold recordNetworkFee
      split
      · exact .ret _
      · exact free_wdPool _

/-- The row is read right before the call. -/
theorem free_sendClaimed (id : Uuid) : (sendClaimed E id).Free (FromRow E) := by
  intro t
  refine ⟨trivial, fun r => ?_⟩
  match r with
  | .error e => exact trivial
  | .ok none => exact trivial
  | .ok (some row) =>
    exact ⟨⟨row, List.mem_cons_self, rfl, rfl⟩, fun result => free_settleBroadcast id row result _⟩

theorem free_processBroadcast (id : Uuid) : (processBroadcast E id).Free (FromRow E) := by
  refine (free_wdPool _).bind fun claimed => ?_
  split
  · refine (free_wdPool _).bind fun status => ?_
    split
    · exact free_finalizeBroadcasted id
    · exact .ret _
  · exact free_sendClaimed id

theorem free_enqueueBroadcast (id : Uuid) :
    (enqueueBroadcast id : Withdrawals ε Unit).Free (FromRow E) :=
  (free_corePool _).attempt.bind fun _ => .ret _

theorem free_requeueAll : ∀ ids, (requeueAll ids).Free (FromRow E)
  | [] => .ret _
  | id :: ids => (free_enqueueBroadcast id).bind fun _ => free_requeueAll ids

theorem free_drainBroadcastQueue (lockedBy : String) : ∀ fuel,
    (drainBroadcastQueue E lockedBy fuel).Free (FromRow E)
  | 0 => .ret _
  | fuel + 1 => by
    refine (free_corePool _).attempt.bind fun claimed => ?_
    split
    · rename_i job j
      have run : (runBroadcastJob E j.payload).Free (FromRow E) := by
        unfold runBroadcastJob
        split
        · exact (free_processBroadcast _).mapErr _
        · exact .throw _
      refine run.attempt.bind fun outcome => Prog.Free.bind ?_ fun _ =>
        free_drainBroadcastQueue lockedBy fuel
      unfold closeJob
      refine Prog.Free.bind (Prog.Free.attempt ?_) fun _ => .ret _
      split
      · exact free_corePool _
      · exact free_corePool _
    · exact .ret _

theorem free_withdrawalProcess {c : Withdrawals Empty Unit} (hc : WithdrawalProcess E c) :
    c.Free (FromRow E) := by
  cases hc with
  | broadcast id => exact (free_processBroadcast id).spawn
  | finalize id => exact (free_finalizeBroadcasted id).spawn
  | pipeline h =>
    cases h with
    | request userId coin toAddress amount ip key =>
      refine Prog.Free.spawn ((free_requestWithdrawal _ _ _ _ _ _).attempt.bind fun result => ?_)
      dsimp only
      split
      · split
        · exact (free_enqueueBroadcast _).bind fun _ => .ret _
        · exact .ret _
      · exact .ret _
    | approve id adminId ip =>
      refine Prog.Free.spawn (Prog.Free.bind (Prog.Free.attempt (free_wdTransaction ?_)) fun r => ?_)
      · refine (free_wdQuery _).bind fun row => ?_
        split
        · exact .throw _
        · exact (free_coreQuery _).bind fun _ => free_wdCommit
      · split
        · exact .ret _
        · exact (free_enqueueBroadcast _).bind fun _ => .ret _
    | reject id adminId ip =>
      refine Prog.Free.spawn (Prog.Free.bind (Prog.Free.attempt (free_wdTransaction ?_)) fun r => ?_)
      · refine (free_wdQuery _).bind fun amounts => ?_
        split
        · exact .throw _
        · refine (free_wdQuery _).bind fun row => ?_
          split
          · exact .throw _
          · exact ((free_applyLedgerEntry _).mapErr _).bind fun _ =>
              (free_coreQuery _).bind fun _ => free_wdCommit
      · split
        · exact .ret _
        · exact .ret _
    | drain lockedBy fuel => exact (free_drainBroadcastQueue lockedBy fuel).spawn
    | requeue =>
      refine Prog.Free.spawn ((free_wdPool _).attempt.bind fun ids => ?_)
      split
      · exact free_requeueAll _
      · exact .ret _
    | log l => exact (free_corePool _).spawn
    | hold walletId => exact (free_corePool _).spawn

end

/-! ## The row that was read -/

section
variable {E : WithdrawalsEnv} {id : Uuid} {db : WdDb}
variable {w : World (machine (satsPay withdrawalsExt))}

def ReadKept (id : Uuid) (db : WdDb) (h : WdHist) : Prop :=
  ∀ p (row : WithdrawalToSend), .did p (.pool (.ext (.withdrawalToSend id))) (.ok (some row)) ∈ h →
    ∃ r, rowOf id db = some r ∧ r.amount = row.amount

theorem ReadKept.advance {db' : WdDb} {h : WdHist} (hk : ReadKept id db h)
    (ha : Advance (rowOf id db) (rowOf id db')) : ReadKept id db' h := by
  intro p row hm
  obtain ⟨r, hr, hamount⟩ := hk p row hm
  obtain ⟨r', hr', hterms, -⟩ := ha r hr
  exact ⟨r', hr', hterms.amount.trans hamount⟩

theorem ReadKept.cons {h : WdHist} {e : WdEvent} (hk : ReadKept id db h)
    (he : ∀ p row, e = .did p (.pool (.ext (.withdrawalToSend id))) (.ok (some row)) →
      ∃ r, rowOf id db = some r ∧ r.amount = row.amount) : ReadKept id db (e :: h) := by
  intro p row hm
  rcases List.mem_cons.1 hm with hm | hm
  · exact he p row hm.symm
  · exact hk p row hm

/-- What `withdrawal_to_send` answers is in the store, and stays there. -/
theorem row_of_withdrawalToSend {p : Nat} {s s' : State (satsPay withdrawalsExt)}
    {row : WithdrawalToSend}
    (hx : Exec (S := satsPay withdrawalsExt) p (.pool (.ext (.withdrawalToSend id))) s
      (.ok (some row)) s') :
    ∃ r, rowOf id s'.db = some r ∧ r.amount = row.amount := by
  cases hx with
  | pool_ok _ _ a ws hf he =>
    have ⟨ha, hnone⟩ : some row = (s.db.ext.withdrawals.lookup id).bind (fun r =>
        (s.db.core.wallets.lookup r.walletId).map fun wa =>
          ⟨r.walletId, r.toAddress, r.amount, r.feeAmount, wa.coin, wa.userId⟩) ∧ ws = [] :=
      ext_eval_one rfl he
    subst hnone
    obtain ⟨r, hr, ha⟩ := Option.bind_eq_some_iff.1 ha.symm
    obtain ⟨wa, -, rfl⟩ := Option.map_eq_some_iff.1 ha
    exact ⟨r, hr, rfl⟩

theorem readKept_of_run (h : Unrequested id db)
    (hs : Run (WithdrawalProcess E) (anyStep _) db w) : ReadKept id w.conf.s.db w.conf.hist := by
  induction hs with
  | refl => exact fun _ _ hm => by cases hm
  | tail hs step ih =>
    have ha := advance_of_run h hs (.single step)
    cases step with
    | start p c hp hc => exact ih
    | act p o k r s hp hx hc =>
      refine (ih.advance ha).cons fun q row heq => ?_
      cases heq
      exact row_of_withdrawalToSend hx
    | finish p hp hc => exact (ih.advance ha).cons (by simp)
    | crash p c hp hc => exact (ih.advance ha).cons (by simp)
    | env s hx hc => exact (ih.advance ha).cons (by simp)

/-- Every call is made with what the text of the row's amount reads as. -/
theorem amount_of_broadcast (h : Unrequested id db)
    (hs : Run (WithdrawalProcess E) (anyStep _) db w) {p : Nat} {coin : Coin} {toAddress : String}
    {amount : ℕ} {res : Except BroadcastError BroadcastResult}
    (he : .did p (.call (.broadcastWithdrawal id coin toAddress amount)) res ∈ w.conf.hist) :
    ∃ r, rowOf id w.conf.s.db = some r ∧
      amount = (parseU128 (E.decimalText r.amount).toList).getD 0 := by
  obtain ⟨newer, older, heq⟩ := List.append_of_mem he
  have hheed : Heeded (FromRow E) w.conf.hist :=
    heeded_of_steps (fun c hc => free_withdrawalProcess hc) hs
  obtain ⟨row, hm, -, hamount⟩ := hheed newer p
    (.call (.broadcastWithdrawal id coin toAddress amount)) res older heq
  have hm' : .did p (.pool (.ext (.withdrawalToSend id))) (.ok (some row)) ∈ w.conf.hist := by
    rw [heq]
    exact List.mem_append_right _ (List.mem_cons_of_mem _ (did_of_mem_doneBy hm))
  obtain ⟨r, hr, hra⟩ := readKept_of_run h hs p row hm'
  exact ⟨r, hr, by rw [hra]; exact hamount⟩

end

/-! ## Units -/

/-- The amount handed over is `n`, and so is whatever the recipient is paid, converted back;
`hot` is the address of the hot wallet of ZER. -/
def AmountKept (hot : String) (coin : Coin) (toAddress : String) (n : ℤ) (amount : ℕ) : Prop :=
  (amount : ℤ) = n ∧ ∀ W : ChainWorld, W.HotAt hot →
    ∀ x ∈ amountsSent (payWithdrawal W coin toAddress amount), (fromOnchainAmount coin x : ℤ) = n

/-- The ledger units that the units of the chain can hold: two decimals fewer for the
stablecoins, and a number of 128 or 64 bits for the others. Less than one unit of a
stablecoin is not sent at all. -/
def Convertible : Coin → ℕ → Prop
  | .usdt, n | .usdc, n => n < 100 ∨ 100 ∣ n
  | .pol, n | .pepe, n => n * 10000000000 < 2 ^ 128
  | .sol, n => n * 10 < 2 ^ 64
  | _, _ => True

theorem fromOnchain_eight {coin : Coin} (h : coin.onchainDecimals = 8) (n : ℕ) :
    fromOnchainAmount coin n = n := by
  simp [fromOnchainAmount, h]

theorem fromOnchain_eighteen {coin : Coin} (h : coin.onchainDecimals = 18) (n : ℕ) :
    fromOnchainAmount coin n = n / 10000000000 := by
  simp [fromOnchainAmount, h]

theorem fromOnchain_nine {coin : Coin} (h : coin.onchainDecimals = 9) (n : ℕ) :
    fromOnchainAmount coin n = n / 10 := by
  simp [fromOnchainAmount, h]

theorem fromOnchain_six {coin : Coin} (h : coin.onchainDecimals = 6) (n : ℕ) :
    fromOnchainAmount coin n = saturate128 (n * 100) := by
  simp [fromOnchainAmount, h]

theorem toOnchain_eighteen {coin : Coin} (h : coin.onchainDecimals = 18) (n : ℕ) :
    toOnchainAmount coin n = saturate128 (n * 10000000000) := by
  simp [toOnchainAmount, h]

theorem toOnchain_six {coin : Coin} (h : coin.onchainDecimals = 6) (n : ℕ) :
    toOnchainAmount coin n = n / 100 := by
  simp [toOnchainAmount, h]

theorem saturate128_eq_zero {n : ℕ} : saturate128 n = 0 ↔ n = 0 := by
  unfold saturate128
  omega

theorem saturate128_mul_div {n k : ℕ} (hk : 0 < k) :
    saturate128 (n * k) / k = n ↔ n * k < 2 ^ 128 := by
  constructor
  · intro h
    have := Nat.div_mul_le_self (saturate128 (n * k)) k
    rw [h] at this
    exact lt_of_le_of_lt this (saturate128_lt _)
  · intro h
    rw [saturate128_of_lt h, Nat.mul_div_cancel _ hk]

theorem lamports_div {n : ℕ} : saturate128 (n * 10) % 2 ^ 64 / 10 = n ↔ n * 10 < 2 ^ 64 := by
  constructor
  · intro h
    have := Nat.div_mul_le_self (saturate128 (n * 10) % 2 ^ 64) 10
    rw [h] at this
    exact lt_of_le_of_lt this (Nat.mod_lt _ (by norm_num))
  · intro h
    rw [saturate128_of_lt (lt_trans h (by norm_num)), Nat.mod_eq_of_lt h,
      Nat.mul_div_cancel _ (by norm_num)]

theorem stable_div {n : ℕ} (h : n < 2 ^ 128) : saturate128 (n / 100 * 100) = n ↔ 100 ∣ n := by
  rw [saturate128_of_lt (lt_of_le_of_lt (Nat.div_mul_le_self n 100) h)]
  exact ⟨fun h => ⟨n / 100, by rw [mul_comm]; exact h.symm⟩, Nat.div_mul_cancel⟩

theorem forall_unless_zero {a : ℕ} {P : ℕ → Prop} :
    (∀ x, (if a = 0 then none else some a) = some x → P x) ↔ a = 0 ∨ P a := by
  by_cases h : a = 0
  · simp [h]
  · simp [h]

/-- What a coin pays for `n`, if it pays, is `n` again when it is converted back. -/
theorem paidBack_iff {coin : Coin} {n : ℕ} (hn : n < 2 ^ 128) :
    (∀ x, paidFor coin n = some x → fromOnchainAmount coin x = n) ↔ Convertible coin n := by
  cases coin with
  | btc | ltc | doge | bch | dgb | zer =>
    refine iff_of_true (fun x hx => ?_) trivial
    simp only [paidFor] at hx
    split at hx
    · cases hx
      exact fromOnchain_eight rfl n
    · cases hx
  | pol =>
    simp only [paidFor, Option.some.injEq, forall_eq', Convertible]
    rw [toOnchain_eighteen rfl, fromOnchain_eighteen rfl]
    exact saturate128_mul_div (by norm_num)
  | pepe =>
    simp only [paidFor, forall_unless_zero, Convertible]
    rw [toOnchain_eighteen rfl, fromOnchain_eighteen rfl, saturate128_eq_zero,
      saturate128_mul_div (by norm_num)]
    refine or_iff_right_of_imp fun h => ?_
    rw [h]
    norm_num
  | usdt | usdc =>
    simp only [paidFor, forall_unless_zero, Convertible]
    rw [toOnchain_six rfl, fromOnchain_six rfl, stable_div hn, Nat.div_eq_zero_iff]
    simp
  | sol =>
    have hzero : toOnchainAmount .sol n = 0 ↔ n = 0 := by
      rw [toOnchainAmount_sol, saturate128_eq_zero]
      omega
    by_cases h : n = 0
    · subst h
      simp [paidFor, hzero.2, Convertible]
    · have hne : toOnchainAmount .sol n ≠ 0 := fun h' => h (hzero.1 h')
      simp only [paidFor, if_neg hne, Option.some.injEq, forall_eq', Convertible]
      rw [toOnchainAmount_sol, fromOnchain_nine rfl]
      exact lamports_div

def Keepable (hot : String) (coin : Coin) (toAddress : String) (n : ℤ) : Prop :=
  ReadsBack n ∧ Convertible coin n.toNat ∧ SentAway hot coin toAddress n.toNat

theorem convertible_of_kept {hot : String} {coin : Coin} {toAddress : String} {n : ℕ}
    (hn : n < 2 ^ 128)
    (h : ∀ W : ChainWorld, W.HotAt hot → ∀ x ∈ amountsSent (payWithdrawal W coin toAddress n),
      (fromOnchainAmount coin x : ℤ) = n) : Convertible coin n := by
  by_cases hzer : coin = .zer
  · subst hzer
    trivial
  refine (paidBack_iff hn).1 fun x hx => ?_
  have := h (willingWorld hot) (willingWorld_hotAt hot) x
    (by rw [willingWorld_pays hn fun hc => absurd hc hzer, hx]; simp)
  exact_mod_cast this

theorem sentAway_of_kept {hot : String} {coin : Coin} {toAddress : String} {n : ℕ}
    (h : ∀ W : ChainWorld, W.HotAt hot → ∀ x ∈ amountsSent (payWithdrawal W coin toAddress n),
      (fromOnchainAmount coin x : ℤ) = n) : SentAway hot coin toAddress n := by
  refine sentAway_of_paid ?_
  rintro rfl W hW x hx
  have := h W hW x hx
  rw [fromOnchain_eight rfl] at this
  exact_mod_cast this

theorem amountKept_iff (hot : String) (coin : Coin) (toAddress : String) (n : ℤ) :
    AmountKept hot coin toAddress n ((readStored n).getD 0) ↔ Keepable hot coin toAddress n := by
  have hread : (((readStored n).getD 0 : ℕ) : ℤ) = n ↔ ReadsBack n := by
    rw [readStored_eq]
    by_cases h : ReadsBack n
    · rw [if_pos h, Option.getD_some]
      refine iff_of_true ?_ h
      unfold ReadsBack at h
      omega
    · rw [if_neg h, Option.getD_none]
      refine iff_of_false (fun h' => h (.inl h'.symm)) h
  unfold AmountKept Keepable
  rw [hread]
  refine and_congr_right fun h => ?_
  obtain ⟨m, rfl⟩ : ∃ m : ℕ, n = m := by
    unfold ReadsBack at h
    exact Int.eq_ofNat_of_zero_le (by omega)
  have hlt : m < 2 ^ 128 := by
    unfold ReadsBack at h
    omega
  rw [readStored_eq, if_pos h, Option.getD_some, Int.toNat_natCast]
  refine ⟨fun h => ⟨convertible_of_kept hlt h, sentAway_of_kept h⟩, fun hc W hW x hx => ?_⟩
  exact_mod_cast (paidBack_iff hlt).2 hc.1 x (paidFor_of_sentAway hlt hc.2 hW hx)

/-- In every run, what a call hands over and pays is the amount debited exactly when
that amount is one of those that arrive, whatever the address of the hot wallet. -/
theorem withdrawalAmount_kept_iff {E : WithdrawalsEnv} {id : Uuid} {db : WdDb}
    {w : World (machine (satsPay withdrawalsExt))} (hot : String)
    (hE : ∀ n : ℤ, E.decimalText n = storedText n)
    (h : Unrequested id db) (hs : Run (WithdrawalProcess E) (anyStep _) db w) {p : Nat}
    {coin : Coin} {toAddress : String} {amount : ℕ}
    {res : Except BroadcastError BroadcastResult}
    (he : .did p (.call (.broadcastWithdrawal id coin toAddress amount)) res ∈ w.conf.hist) :
    ∃ r, rowOf id w.conf.s.db = some r ∧ r.Accounted (entriesOf id w.conf.s.db.core) ∧
      (AmountKept hot coin toAddress r.amount amount ↔ Keepable hot coin toAddress r.amount) := by
  obtain ⟨r, hr, hamount⟩ := amount_of_broadcast h hs he
  have ha := (book_of_run h hs).accounted
  rw [hr] at ha
  refine ⟨r, hr, ha, ?_⟩
  rw [hamount, hE]
  exact amountKept_iff hot coin toAddress r.amount

/-! A user withdraws 0.002 BTC, or 1.00000050 USDT. -/

def printingEnv : WithdrawalsEnv := { plainEnv with decimalText := fun q => storedText q.num }

theorem printingEnv_decimalText (n : ℤ) : printingEnv.decimalText n = storedText n := by
  simp [printingEnv]

def fundedIn (coin : Coin) : WdDb :=
  { fundedDb with core := { fundedDb.core with
      wallets := (∅ : Table Wallet).insert 1 ⟨7, coin, .personal, none⟩
      ledger := [⟨1, 1000000000, .deposit, none, none, none, none⟩] } }

def amountRunner (coin : Coin) (amount : ℕ) : Runner (satsPay withdrawalsExt) :=
  ⟨2, [(requestWithdrawalHandler printingEnv 7 coin "address" amount "ip" none).spawn,
    (drainBroadcastQueue printingEnv "worker" 1).spawn], Db.wait, fun _ _ => true⟩

def callOf : WdEvent → Option (Uuid × Coin × String)
  | .did _ (.call (.broadcastWithdrawal id coin toAddress _)) _ => some (id, coin, toAddress)
  | _ => none

theorem callOf_eq_some {e : WdEvent} {id : Uuid} {coin : Coin} {toAddress : String}
    (h : callOf e = some (id, coin, toAddress)) : ∃ p amount res,
      e = .did p (.call (.broadcastWithdrawal id coin toAddress amount)) res := by
  unfold callOf at h
  split at h
  · cases h
    exact ⟨_, _, _, rfl⟩
  · cases h

theorem run_of_amountRunner {coin : Coin} {amount : ℕ}
    {w : World (machine (satsPay withdrawalsExt))}
    (hw : (amountRunner coin amount).run untilSent (.init _ (.start (fundedIn coin))) = some w) :
    Run (WithdrawalProcess printingEnv) (anyStep _) (fundedIn coin) w := by
  refine Runner.steps_of_run (R := amountRunner coin amount) (fun c hc => ?_) Db.tick_wait
    (fun _ _ _ => trivial) (fun _ _ => rfl) hw
  rcases List.mem_cons.1 hc with rfl | hc
  · exact .pipeline (.request _ _ _ _ _ _)
  · cases List.mem_singleton.1 hc
    exact .pipeline (.drain _ _)

def amountOutcome (w : World (machine (satsPay withdrawalsExt))) :
    Option ℤ × List (Uuid × Coin × String) :=
  ((rowOf 5 w.conf.s.db).map Withdrawal.amount, w.conf.hist.filterMap callOf)

theorem call_of_amountOutcome {w : World (machine (satsPay withdrawalsExt))} {n : ℤ} {coin : Coin}
    (h : amountOutcome w = (some n, [(5, coin, "address")])) :
    (∃ r, rowOf 5 w.conf.s.db = some r ∧ r.amount = n) ∧ ∃ p amount res,
      .did p (.call (.broadcastWithdrawal 5 coin "address" amount)) res ∈ w.conf.hist := by
  obtain ⟨hr, hc⟩ := Prod.mk.inj h
  refine ⟨Option.map_eq_some_iff.1 hr, ?_⟩
  obtain ⟨e, he, hcall⟩ := List.mem_filterMap.1
    (show (5, coin, "address") ∈ w.conf.hist.filterMap callOf by rw [hc]; exact List.mem_cons_self)
  obtain ⟨p, amount, res, rfl⟩ := callOf_eq_some hcall
  exact ⟨p, amount, res, he⟩

theorem withdrawalAmount_kept_btc : ∃ w : World (machine (satsPay withdrawalsExt)),
    Run (WithdrawalProcess printingEnv) (anyStep _) (fundedIn .btc) w ∧
    ∃ p amount res, .did p (.call (.broadcastWithdrawal 5 .btc "address" amount)) res ∈
      w.conf.hist ∧ ∃ r, rowOf 5 w.conf.s.db = some r ∧ r.amount = 200000 ∧
      (AmountKept "hot" .btc "address" r.amount amount ↔ Keepable "hot" .btc "address" r.amount) := by
  have hrun : ((amountRunner .btc 200000).run untilSent (.init _ (.start (fundedIn .btc)))).map
      amountOutcome = some (some 200000, [(5, .btc, "address")]) := by
    decide +kernel
  obtain ⟨w, hw, ho⟩ := Option.map_eq_some_iff.1 hrun
  obtain ⟨⟨r, hr, hn⟩, p, amount, res, he⟩ := call_of_amountOutcome ho
  have hs := run_of_amountRunner hw
  obtain ⟨r', hr', -, hiff⟩ :=
    withdrawalAmount_kept_iff "hot" printingEnv_decimalText ⟨rfl, by decide⟩ hs he
  cases hr.symm.trans hr'
  exact ⟨w, hs, p, amount, res, he, r, hr, hn, hiff⟩

/-- 50 of the ledger's units are less than one of the chain's: 1.00 USDT is paid. -/
theorem withdrawalAmount_lost_usdt : ∃ w : World (machine (satsPay withdrawalsExt)),
    Run (WithdrawalProcess printingEnv) (anyStep _) (fundedIn .usdt) w ∧
    ∃ p amount res, .did p (.call (.broadcastWithdrawal 5 .usdt "address" amount)) res ∈
      w.conf.hist ∧ ∃ r, rowOf 5 w.conf.s.db = some r ∧
      ¬ AmountKept "hot" .usdt "address" r.amount amount := by
  have hrun : ((amountRunner .usdt 100000050).run untilSent
      (.init _ (.start (fundedIn .usdt)))).map amountOutcome =
      some (some 100000050, [(5, .usdt, "address")]) := by
    decide +kernel
  obtain ⟨w, hw, ho⟩ := Option.map_eq_some_iff.1 hrun
  obtain ⟨⟨r, hr, hn⟩, p, amount, res, he⟩ := call_of_amountOutcome ho
  refine ⟨w, run_of_amountRunner hw, p, amount, res, he, r, hr, fun hk => ?_⟩
  rw [hn] at hk
  have hamount : amount = 100000050 := by exact_mod_cast hk.1
  subst hamount
  have : Convertible .usdt 100000050 := convertible_of_kept (by norm_num) hk.2
  unfold Convertible at this
  omega

end SatsPay
