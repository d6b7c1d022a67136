import SatsPay.Ledger
import SatsPay.Script

/-!
# Balances never go below zero

Any number of processes open transactions, run statements, commit and roll back
in any order; the one rule is that ledger entries are written by
`apply_ledger_entry`. The lock it takes is held until its transaction ends, so
what it has read is still the balance when its entry is committed.
-/

namespace SatsPay

open Interleave ReadCommitted RowProtocol

variable {X : Ext}

/-- The processes that write the ledger only through `apply_ledger_entry`, whose
outcome they may use as they like; all other operations are free. -/
inductive LedgerClient : Code (satsPay X) Empty Unit → Prop
  | ret : LedgerClient (.ret ())
  | apply (input : LedgerCreditInput) (k : Except LedgerError Unit → Code (satsPay X) Empty Unit)
      (hk : ∀ r, LedgerClient (k r)) : LedgerClient ((applyLedgerEntry input).attempt >>= k)
  | other (o : Op (satsPay X)) (k : Op.Resp (satsPay X) o → Code (satsPay X) Empty Unit)
      (ho : ∀ input : LedgerCreditInput, o ≠ .tx (.core (.insertLedgerEntry input)) ∧
        o ≠ .pool (.core (.insertLedgerEntry input)))
      (hk : ∀ r, LedgerClient (k r)) : LedgerClient (.op o k)

/-- Not a ledger entry, and no wallet that was not there. -/
def Harmless (db : Db X) : Write X → Prop
  | .core (.addEntry _) => False
  | .core (.putWallet id _) => (db.core.wallets.lookup id).isSome
  | _ => True

theorem harmless_of_other {st : Stmt X} (hst : ∀ input, st ≠ .core (.insertLedgerEntry input))
    {db : Db X} {a : st.Ans} {ws : List (Write X)} (h : .ok (a, ws) ∈ (satsPay X).eval st db) :
    ∀ w ∈ ws, Harmless db w := by
  intro w hw
  cases st with
  | ext st =>
    obtain ⟨ws', -, rfl⟩ := ext_eval_ok h
    obtain ⟨w', -, rfl⟩ := List.mem_map.1 hw
    trivial
  | core st =>
    obtain ⟨ws', h', rfl⟩ := core_eval_ok h
    obtain ⟨w', hw', rfl⟩ := List.mem_map.1 hw
    have := CoreStmt.writes (fun input e => hst input (congrArg Stmt.core e)) h' w' hw'
    cases w' with
    | putWallet id u => exact this.1
    | addEntry e => exact this.elim
    | _ => trivial

/-- A harmless write changes neither the wallets there are nor the ledger. -/
theorem harmless_apply {db : Db X} {w : Write X} (h : Harmless db w) :
    (w.apply db).core.ledger = db.core.ledger ∧
    ∀ id, ((w.apply db).core.wallets.lookup id).isSome = (db.core.wallets.lookup id).isSome := by
  cases w with
  | ext w => exact ⟨rfl, fun _ => rfl⟩
  | core w =>
    cases w with
    | addEntry e => exact h.elim
    | putWallet id' w =>
      refine ⟨rfl, fun id => ?_⟩
      by_cases e : id = id'
      · subst e
        simp only [Write.apply, CoreWrite.apply, AList.lookup_insert, Option.isSome_some]
        exact h.symm
      · simp only [Write.apply, CoreWrite.apply, AList.lookup_insert_ne e]
    | putJob _ _ | addOutbox _ | addAudit _ => exact ⟨rfl, fun _ => rfl⟩

theorem harmless_congr {db db' : Db X}
    (h : ∀ id, (db'.core.wallets.lookup id).isSome = (db.core.wallets.lookup id).isSome)
    {w : Write X} : Harmless db' w ↔ Harmless db w := by
  cases w with
  | ext w => rfl
  | core w =>
    cases w with
    | putWallet id w => exact iff_of_eq (congrArg (· = true) (h id))
    | _ => rfl

theorem harmless_applyAll : ∀ {ws : List (Write X)} {db : Db X}, (∀ w ∈ ws, Harmless db w) →
    (viewOf ws db).core.ledger = db.core.ledger ∧
    ∀ id, ((viewOf ws db).core.wallets.lookup id).isSome = (db.core.wallets.lookup id).isSome
  | [], _, _ => ⟨rfl, fun _ => rfl⟩
  | w :: ws, db, h => by
    obtain ⟨h₁, h₂⟩ := harmless_apply (h w List.mem_cons_self)
    obtain ⟨h₃, h₄⟩ := harmless_applyAll fun w' hw' =>
      (harmless_congr h₂).2 (h w' (List.mem_cons_of_mem _ hw'))
    exact ⟨h₃.trans h₁, fun id => (h₄ id).trans (h₂ id)⟩

/-! ## The protocol -/

def balanceProtocol (X : Ext) : RowProtocol (satsPay X) fun _ _ _ => True where
  inv db _ := ∀ id, 0 ≤ db.core.balance id
  rel _ db _ db' _ :=
    ∀ id, (db'.core.wallets.lookup id).isSome = (db.core.wallets.lookup id).isSome
  done _ _ _ := True
  quiet _ := True
  rel_refl _ _ _ _ := rfl
  rel_trans _ _ _ _ _ _ _ h₁ h₂ id := (h₂ id).trans (h₁ id)
  quiet_begin _ _ := trivial
  quiet_rollback _ := trivial
  quiet_tx _ _ _ := trivial
  quiet_commit _ _ := trivial
  inv_quiet _ h := h
  rel_quiet _ _ _ _ := rfl
  finish h _ _ := ⟨h, fun _ _ _ => rfl⟩
  crash h _ := ⟨h, fun _ _ _ => rfl⟩
  env := by
    rintro db db' h hi ⟨t, -, rfl⟩ -
    exact ⟨hi, fun _ _ => rfl⟩

theorem keepsWallets_balanceProtocol (p : Nat) : KeepsWallets (balanceProtocol X) p :=
  fun _ _ _ _ h => h

/-- Of a transaction: it has locked the wallets it has written to, it makes no
wallets, and what it sees, its own entries included, has no negative balance. -/
structure Covered (ws : List (Write X)) (ks : List (Key X)) (db : Db X) : Prop where
  locked : ∀ w ∈ ws, ∀ k ∈ w.touches, k ∈ ks
  wallets : ∀ id w, Write.core (.putWallet id w) ∈ ws → (db.core.wallets.lookup id).isSome
  nonneg : ∀ id, 0 ≤ (viewOf ws db).core.balance id

variable {p : Nat} {ws : List (Write X)} {ks : List (Key X)} {db : Db X}

theorem covered_nil (h : ∀ id, 0 ≤ db.core.balance id) (ks : List (Key X)) : Covered [] ks db :=
  ⟨by simp, by simp, h⟩

theorem Covered.mono (h : Covered ws ks db) (ks' : List (Key X)) : Covered ws (ks ++ ks') db :=
  ⟨fun w hw k hk => List.mem_append_left _ (h.locked w hw k hk), h.wallets, h.nonneg⟩

/-- Others keep a transaction covered: they leave the wallets it has locked as
they are, and the balance of any other wallet is the committed one. -/
theorem Covered.stable {db' : Db X} (h : Covered ws ks db)
    (hk : ∀ k ∈ ks, Key.row k db' = Key.row k db)
    (hw : ∀ id, (db'.core.wallets.lookup id).isSome = (db.core.wallets.lookup id).isSome)
    (hi : ∀ id, 0 ≤ db'.core.balance id) : Covered ws ks db' where
  locked := h.locked
  wallets id w hw' := (hw id).trans (h.wallets id w hw')
  nonneg id := by
    by_cases hid : Key.core id ∈ ks
    · rw [balance_view_congr (hk _ hid)]; exact h.nonneg id
    · have : Key.row (.core id) (viewOf ws db') = Key.row (.core id) db' :=
        row_applyAll (S := satsPay X) fun w hw' hk' => hid (h.locked w hw' _ hk')
      rw [Core.balance_eq_of_row this]; exact hi id

theorem framed_covered : (balanceProtocol X).FramedTx p fun ws ks db _ => Covered ws ks db :=
  ⟨fun _ _ _ _ _ _ h hk hr _ hi => h.stable hk hr hi, fun _ _ _ _ _ _ _ h => h⟩

/-- Every wallet that a write of the transaction puts is there. -/
theorem Covered.isSome_view (h : Covered ws ks db) (id : Uuid) :
    ((viewOf ws db).core.wallets.lookup id).isSome = (db.core.wallets.lookup id).isSome := by
  have key : ∀ (l : List (Write X)) (d : Db X),
      (∀ id w, Write.core (.putWallet id w) ∈ l → (d.core.wallets.lookup id).isSome) →
      ((viewOf l d).core.wallets.lookup id).isSome = (d.core.wallets.lookup id).isSome := by
    intro l
    induction l with
    | nil => intro d _; rfl
    | cons w l ih =>
      intro d hl
      have hw : ∀ id, ((w.apply d).core.wallets.lookup id).isSome =
          (d.core.wallets.lookup id).isSome := by
        intro id
        cases w with
        | ext w => rfl
        | core w =>
          cases w with
          | putWallet id' w =>
            exact (harmless_apply (w := .core (.putWallet id' w)) (hl id' w List.mem_cons_self)).2 id
          | _ => rfl
      exact (ih (w.apply d) fun id w' h' => (hw id).trans (hl id w' (List.mem_cons_of_mem _ h'))).trans
        (hw id)
  exact key ws db h.wallets

theorem Covered.append {ws' : List (Write X)} (h : Covered ws ks db)
    (hh : ∀ w ∈ ws', Harmless (viewOf ws db) w) (hl : ∀ w ∈ ws', ∀ k ∈ w.touches, k ∈ ks) :
    Covered (ws ++ ws') ks db where
  locked w hw k hk := by
    rcases List.mem_append.1 hw with hw | hw
    · exact h.locked w hw k hk
    · exact hl w hw k hk
  wallets id w hw := by
    rcases List.mem_append.1 hw with hw | hw
    · exact h.wallets id w hw
    · rw [← h.isSome_view]; exact hh _ hw
  nonneg id := by
    rw [viewOf, applyAll_append]
    show 0 ≤ sumWhere _ _
    rw [(harmless_applyAll hh).1]
    exact h.nonneg id

/-- The one place where an entry is written: a debit that is covered stays
covered as it is stored, a credit is stored as no less than zero. -/
theorem Covered.addEntry {input : LedgerCreditInput} {n : ℤ} (h : Covered ws ks db)
    (hn : numeric39 input.amount = some n) (hk : Key.core input.walletId ∈ ks)
    (hc : input.amount < 0 → 0 ≤ (viewOf ws db).core.balance input.walletId + input.amount) :
    Covered (ws ++ [.core (.addEntry (input.entry n))]) ks db where
  locked w hw k hk' := by
    rcases List.mem_append.1 hw with hw | hw
    · exact h.locked w hw k hk'
    · cases List.mem_singleton.1 hw
      cases List.mem_singleton.1 hk'
      exact hk
  wallets id w hw := by
    rcases List.mem_append.1 hw with hw | hw
    · exact h.wallets id w hw
    · cases List.mem_singleton.1 hw
  nonneg id := by
    rw [viewOf, applyAll_append]
    show 0 ≤ (if input.walletId == id then n else 0) + (viewOf ws db).core.balance id
    have hb := h.nonneg id
    split
    · rename_i e
      obtain rfl : input.walletId = id := by simpa using e
      rw [add_comm]
      by_cases ha : input.amount < 0
      · exact covered_of_numeric39 (hc ha) hn
      · have : 0 ≤ roundHalfAway input.amount :=
          le_roundHalfAway (by push_cast; exact not_lt.1 ha)
        rw [(numeric39_eq_some.1 hn).1] at this
        omega
    · omega

/-! ## Every step keeps it -/

/-- Whatever transaction `p` has open, or none. -/
def Sound (p : Nat) (c : Conf (machine (satsPay X))) : Prop :=
  ∀ t, c.s.tx p = some t → Covered t.writes t.locks c.s.db

theorem sound_stable {c c' : Conf (machine (satsPay X))} (h : Sound p c)
    (hr : (balanceProtocol X).Rely p c c') (hi : (balanceProtocol X).toProtocol.Inv c') :
    Sound p c' := fun t ht =>
  (h t (hr.tx ▸ ht)).stable (hr.rows t (hr.tx ▸ ht)) hr.rel hi.2

theorem sound_of_none {c : Conf (machine (satsPay X))} (h : c.s.tx p = none) : Sound p c :=
  fun t ht => by rw [h] at ht; cases ht

/-- Any operation but the insertion of a ledger entry. -/
theorem sound_step {o : Op (satsPay X)} {r : Op.Resp (satsPay X) o} {s : State (satsPay X)}
    {c : Conf (machine (satsPay X))}
    (ho : ∀ input : LedgerCreditInput, o ≠ .tx (.core (.insertLedgerEntry input)) ∧
      o ≠ .pool (.core (.insertLedgerEntry input)))
    (hi : (balanceProtocol X).toProtocol.Inv c) (h : Sound p c) (hx : Exec p o c.s r s) :
    ((balanceProtocol X).toProtocol.Inv (c.push s (.did p o r)) ∧
      ∀ q, q ≠ p → (balanceProtocol X).Rely q c (c.push s (.did p o r))) ∧
    Sound p (c.push s (.did p o r)) := by
  cases o with
  | begin =>
    obtain ⟨h₁, hdb, -, ⟨-, ht⟩ | ⟨-, ht⟩⟩ := step_begin hi hx
    · refine ⟨h₁, fun t ht' => ?_⟩
      cases ht.symm.trans ht'
      exact covered_nil h₁.1.2 _
    · exact ⟨h₁, sound_of_none ht⟩
  | rollback =>
    obtain ⟨h₁, -, ht⟩ := step_rollback hi hx
    exact ⟨h₁, sound_of_none ht⟩
  | commit =>
    obtain ⟨h₁, ht, -⟩ := step_commit hi hx fun t ht _ =>
      ⟨(h t ht).nonneg, fun _ _ => (h t ht).isSome_view⟩
    exact ⟨h₁, sound_of_none ht⟩
  | tx st =>
    have hst : ∀ input, st ≠ .core (.insertLedgerEntry input) :=
      fun input e => (ho input).1 (congrArg Op.tx e)
    obtain ⟨h₁, hdb, t, ht, ⟨a, ws, -, he, hs⟩ | ⟨e, -, -, hs⟩⟩ := step_query hi hx
      fun t a ws ht he w hw k hk => List.mem_append_right _ (covered_of_other hst he w hw k hk)
    all_goals
      refine ⟨h₁, fun u hu => ?_⟩
      cases hs.symm.trans hu
      show Covered _ _ s.db
      rw [hdb]
    · exact ((h t ht).mono _).append (harmless_of_other hst he) fun w hw k hk =>
        List.mem_append_right _ (covered_of_other hst he w hw k hk)
    · exact covered_nil hi.2 _
  | pool st =>
    have hst : ∀ input, st ≠ .core (.insertLedgerEntry input) :=
      fun input e => (ho input).2 (congrArg Op.pool e)
    have keep : ∀ a ws, .ok (a, ws) ∈ (satsPay X).eval st c.s.db →
        (∀ id, 0 ≤ (viewOf ws c.s.db).core.balance id) ∧
        ∀ id, ((viewOf ws c.s.db).core.wallets.lookup id).isSome =
          (c.s.db.core.wallets.lookup id).isSome := by
      intro a ws he
      obtain ⟨h₁, h₂⟩ := harmless_applyAll (harmless_of_other hst he)
      exact ⟨fun id => by rw [Core.balance, h₁]; exact hi.2 id, h₂⟩
    obtain ⟨h₁, ht, hrow, hdb⟩ := step_pool hi hx
      (fun a ws _ he => ⟨covered_of_other hst he, (keep a ws he).1, fun _ _ => (keep a ws he).2⟩)
      fun e _ _ => ⟨hi.2, fun _ _ _ => rfl⟩
    have hw : ∀ id, (s.db.core.wallets.lookup id).isSome = (c.s.db.core.wallets.lookup id).isSome := by
      rcases hdb with ⟨a, ws, -, he, hdb⟩ | ⟨e, -, -, hdb⟩ <;> rw [hdb]
      · exact (keep a ws he).2
      · exact fun _ => rfl
    exact ⟨h₁, fun t ht' => (h t (ht ▸ ht')).stable (hrow p t (ht ▸ ht')) hw h₁.1.2⟩
  | call cl =>
    obtain ⟨h₁, rfl⟩ := step_call hi hx ⟨hi.2, fun _ _ _ => rfl⟩
    exact ⟨h₁, h⟩

theorem triple_op {o : Op (satsPay X)} {k : Op.Resp (satsPay X) o → Code (satsPay X) Empty Unit}
    {Q : Except Empty Unit → Conf (machine (satsPay X)) → Prop}
    (ho : ∀ input : LedgerCreditInput, o ≠ .tx (.core (.insertLedgerEntry input)) ∧
      o ≠ .pool (.core (.insertLedgerEntry input)))
    (hk : ∀ r, (balanceProtocol X).toProtocol.Triple p (Sound p) (k r) Q) :
    (balanceProtocol X).toProtocol.Triple p (Sound p) (.op o k) Q := by
  intro c hi h r s hx _
  obtain ⟨⟨h₁, h₂⟩, h₃⟩ := sound_step ho hi h hx
  exact ⟨h₁, h₂, fun c' hr hi' => hk r c' hi' (sound_stable h₃ hr hi')⟩

/-- `apply_ledger_entry`, called in a transaction or outside one, where its first
statement cannot run. -/
theorem triple_apply_sound (input : LedgerCreditInput) :
    (balanceProtocol X).toProtocol.Triple p (Sound p) (applyLedgerEntry input)
      (fun _ => Sound p) := by
  have inTx : (balanceProtocol X).toProtocol.Triple p (InTx p fun ws ks db _ => Covered ws ks db)
      (applyLedgerEntry input) (outcome (fun _ => InTx p fun ws ks db _ => Covered ws ks db)
        fun _ => InTx p fun ws ks db _ => Covered ws ks db) :=
    triple_applyLedgerEntry (keepsWallets_balanceProtocol p) framed_covered framed_covered
      (fun _ => framed_covered) (fun _ _ _ _ _ h => h.mono _)
      (fun _ _ _ _ _ hi h => ⟨h, covered_nil hi _⟩)
      fun _ _ _ _ _ _ h hn hk hc _ => h.addEntry hn hk hc
  have sound_of_inTx : ∀ c : Conf (machine (satsPay X)),
      InTx p (fun ws ks db _ => Covered ws ks db) c → Sound p c := by
    rintro c ⟨t, ht, h⟩ u hu
    cases ht.symm.trans hu
    exact h
  intro c hi h
  cases ht : c.s.tx p with
  | none =>
    rintro r s hx -
    obtain ⟨-, -, t, ht', -⟩ := step_query hi hx fun t a ws ht' => by rw [ht] at ht'; cases ht'
    rw [ht] at ht'; cases ht'
  | some t =>
    refine Protocol.wp_mono (fun r c' _ hq => ?_) hi (inTx c hi ⟨t, ht, h t ht⟩)
    cases r with
    | ok _ => exact sound_of_inTx c' hq
    | error _ => exact sound_of_inTx c' hq

/-- A client may drop, keep or answer any outcome of its calls. -/
theorem triple_client {c : Code (satsPay X) Empty Unit} (h : LedgerClient c) :
    (balanceProtocol X).toProtocol.Triple p (Sound p) c (fun _ _ => True) := by
  induction h with
  | ret => exact .ret fun _ _ _ => trivial
  | apply input k _ ih =>
    exact .bind (Q := fun _ => Sound p) (.attempt (triple_apply_sound input)) ih
      fun _ _ _ _ => trivial
  | other o k ho _ ih => exact triple_op ho ih

/-- However the transactions interleave, no committed balance is negative. -/
theorem balances_nonneg {db : Db X} (h₀ : ∀ id, 0 ≤ db.core.balance id)
    {w : World (machine (satsPay X))}
    (hs : Run LedgerClient (anyStep _) db w) :
    ∀ id, 0 ≤ w.conf.s.db.core.balance id :=
  (balanceProtocol X).inv_of_steps
    (fun _ hc _ => .conseq (triple_client hc) (fun _ _ hf => sound_of_none hf.1)
      fun _ _ _ _ => trivial) h₀ hs

/-! Two clients debit 3 from a wallet that holds 5. The second one's first
statement has to wait for the lock. -/

def debit : Code (satsPay noExt) Empty Unit :=
  .op .begin fun _ => (applyLedgerEntry
    ⟨1, -3, .withdrawal, none, none, none, none⟩).attempt >>= fun r =>
    .op (if r.isOk then .commit else .rollback) fun _ => .ret ()

def walletOfFive : Db noExt where
  core := {
    now := 0
    wallets := (∅ : Table Wallet).insert 1 ⟨7, .btc, .personal, none⟩
    ledger := [⟨1, 5, .deposit, none, none, none, none⟩]
    jobs := ∅
    outbox := []
    auditLogs := [] }
  ext := ()

def twoDebits : List (Act (satsPay noExt)) :=
  [.start 0 0, .start 1 0, .op 0 (.go 0), .op 1 (.go 0), .op 0 (.go 0), .op 0 (.go 0),
    .op 0 (.go 0), .op 0 (.go 0), .op 0 (.go 0), .op 1 (.go 0), .op 1 (.go 0), .op 1 (.go 0),
    .op 1 (.go 0), .finish 0, .finish 1]

def debitRunner : Runner (satsPay noExt) := ⟨2, [debit], Db.wait, fun _ _ => true⟩

theorem ledgerClient_debit : LedgerClient debit := by
  refine .other _ _ (by simp) fun _ => .apply _ _ fun r => .other _ _ ?_ fun _ => .ret
  split <;> simp

theorem walletOfFive_nonneg (id : Uuid) : 0 ≤ walletOfFive.core.balance id := by
  simp only [walletOfFive, Core.balance, sumWhere_cons, sumWhere_nil]
  split <;> omega

theorem balances_nonneg_two_debits : ∃ w : World (machine (satsPay noExt)),
    Run LedgerClient (anyStep _) walletOfFive w ∧
    w.conf.s.db.core.balance 1 = 2 ∧ ∀ id, 0 ≤ w.conf.s.db.core.balance id := by
  have hrun : (debitRunner.run twoDebits (.init _ (.start walletOfFive))).map
      (fun w => w.conf.s.db.core.balance 1) = some 2 := by decide +kernel
  obtain ⟨w, hw, hb⟩ := Option.map_eq_some_iff.1 hrun
  have hs : Run LedgerClient (anyStep _) walletOfFive w :=
    Runner.steps_of_run (R := debitRunner) (by simpa [debitRunner] using ledgerClient_debit)
      Db.tick_wait (fun _ _ _ => trivial) (fun _ _ => rfl) hw
  exact ⟨w, hs, hb, balances_nonneg walletOfFive_nonneg hs⟩

end SatsPay
