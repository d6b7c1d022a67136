import SatsPay.WithdrawalBook

/-!
# The steps of the withdrawal pipeline

Every program of the pipeline keeps to the protocol of one withdrawal: what is done
for another leaves its book alone, and each transaction on its row is one move.
-/

namespace SatsPay

open Interleave ReadCommitted RowProtocol

abbrev WdWrite := Write withdrawalsExt
abbrev WdTxAssertion := TxAssertion withdrawalsExt
abbrev WdAssertion := Assertion withdrawalsExt

/-! ## What a transaction will do to the book -/

/-- With these writes the row becomes `new`, where that is given, and these
entries are added. -/
structure Effect (id : Uuid) (new : Option Withdrawal) (es : List LedgerEntry)
    (ws : List WdWrite) : Prop where
  row : ∀ db, rowOf id (viewOf ws db) = new.or (rowOf id db)
  entries : ∀ db, entriesOf id (viewOf ws db).core = es ++ entriesOf id db.core
  jobs : ∀ db : WdDb, (viewOf ws db).core.jobs = db.core.jobs
  wallets : ∀ (db : WdDb) w,
    ((viewOf ws db).core.wallets.lookup w).isSome = (db.core.wallets.lookup w).isSome

section
variable {id : Uuid} {new : Option Withdrawal} {es : List LedgerEntry} {ws ws' : List WdWrite}

theorem effect_nil (id : Uuid) : Effect id none [] [] :=
  ⟨fun _ => rfl, fun _ => rfl, fun _ => rfl, fun _ _ => rfl⟩

theorem Effect.append {new' : Option Withdrawal} {es' : List LedgerEntry}
    (h : Effect id new es ws) (h' : Effect id new' es' ws') :
    Effect id (new'.or new) (es' ++ es) (ws ++ ws') where
  row db := by rw [viewOf, applyAll_append, h'.row, h.row, Option.or_assoc]
  entries db := by rw [viewOf, applyAll_append, h'.entries, h.entries, List.append_assoc]
  jobs db := by rw [viewOf, applyAll_append, h'.jobs, h.jobs]
  wallets db w := by rw [viewOf, applyAll_append, h'.wallets, h.wallets]

theorem Effect.aside (h : Effect id new es ws) (h' : Effect id none [] ws') :
    Effect id new es (ws ++ ws') := by
  have := h.append h'
  rwa [Option.none_or, List.nil_append] at this

theorem effect_put (id : Uuid) (r : Withdrawal) : Effect id (some r) [] [.ext (.put id r)] where
  row _ := AList.lookup_insert _
  entries _ := rfl
  jobs _ := rfl
  wallets _ _ := rfl

theorem effect_put_ne {i : Uuid} (hi : i ≠ id) (r : Withdrawal) :
    Effect id none [] [.ext (.put i r)] where
  row _ := AList.lookup_insert_ne (Ne.symm hi)
  entries _ := rfl
  jobs _ := rfl
  wallets _ _ := rfl

theorem effect_entry {e : LedgerEntry} (he : e.referenceId = some id) :
    Effect id none [e] [.core (.addEntry e)] where
  row _ := rfl
  entries _ := List.filter_cons_of_pos (by simp [he])
  jobs _ := rfl
  wallets _ _ := rfl

theorem effect_entry_ne {e : LedgerEntry} (he : e.referenceId ≠ some id) :
    Effect id none [] [.core (.addEntry e)] where
  row _ := rfl
  entries _ := List.filter_cons_of_neg (by simpa using he)
  jobs _ := rfl
  wallets _ _ := rfl

end

def AsideStmt (id : Uuid) : Stmt withdrawalsExt → Prop
  | .core (.lockWallet _) | .core (.reorgHoldAt _) | .core (.walletBalance _)
  | .core (.ledgerByReferenceKey _ _) | .core (.walletOf _ _ _) | .core (.insertOutbox _)
  | .core (.insertAudit _) => True
  | .ext (.insertWithdrawal i _) => i ≠ id
  | .ext (.update i _) => i ≠ id
  | .ext _ => True
  | _ => False

theorem update_ok {i : Uuid} {u : WithdrawalUpdate} {db : WdDb} {a : Option Withdrawal}
    {ws : List WdWrite}
    (h : .ok (a, ws) ∈ (satsPay withdrawalsExt).eval (.ext (.update i u)) db) :
    (∃ r, rowOf i db = some r ∧ u.guard r.status ∧ a = some (u.set r) ∧
      ws = [.ext (.put i (u.set r))]) ∨
    ((∀ r, rowOf i db = some r → u.guard r.status = false) ∧ a = none ∧ ws = []) := by
  obtain ⟨ws', h', rfl⟩ := ext_eval_ok h
  change Except.ok (a, ws') ∈ WithdrawalsStmt.eval (.update i u) db.core db.ext at h'
  simp only [WithdrawalsStmt.eval] at h'
  split at h'
  · rename_i r hr
    cases List.mem_singleton.1 h'
    obtain ⟨hl, hg⟩ := Option.filter_eq_some_iff.1 hr
    exact .inl ⟨r, hl, hg, rfl, rfl⟩
  · rename_i hr
    cases List.mem_singleton.1 h'
    refine .inr ⟨fun r hl => ?_, rfl, rfl⟩
    have := Option.filter_eq_none_iff.1 hr r hl
    simpa using this

theorem effect_of_aside {id : Uuid} {st : Stmt withdrawalsExt} (hst : AsideStmt id st) {db : WdDb}
    {a : st.Ans} {ws : List WdWrite} (h : .ok (a, ws) ∈ (satsPay withdrawalsExt).eval st db) :
    Effect id none [] ws := by
  cases st with
  | core st =>
    cases st with
    | insertOutbox event | insertAudit log =>
      obtain ⟨-, rfl⟩ := core_eval_one rfl h
      exact ⟨fun _ => rfl, fun _ => rfl, fun _ => rfl, fun _ _ => rfl⟩
    | lockWallet _ | reorgHoldAt _ | walletBalance _ | ledgerByReferenceKey _ _ | walletOf _ _ _ =>
      obtain ⟨-, rfl⟩ := core_eval_one rfl h
      exact effect_nil id
    | _ => exact hst.elim
  | ext st =>
    cases st with
    | insertWithdrawal i input =>
      obtain ⟨ws', h', rfl⟩ := ext_eval_ok h
      obtain ⟨_, _, -, -, -, rfl⟩ := insertWithdrawal_ok (List.mem_singleton.1 h').symm
      exact effect_put_ne hst _
    | update i u =>
      rcases update_ok h with ⟨r, -, -, -, rfl⟩ | ⟨-, -, rfl⟩
      · exact effect_put_ne hst _
      · exact effect_nil id
    | recordNetworkFee fee =>
      obtain ⟨ws', h', rfl⟩ := ext_eval_ok h
      change Except.ok (a, ws') ∈ WithdrawalsStmt.eval (.recordNetworkFee fee) db.core db.ext at h'
      simp only [WithdrawalsStmt.eval] at h'
      split at h'
      · cases List.mem_singleton.1 h'
        exact effect_nil id
      · cases List.mem_singleton.1 h'
        exact ⟨fun _ => rfl, fun _ => rfl, fun _ => rfl, fun _ _ => rfl⟩
    | listEligible take =>
      obtain ⟨ws', h', rfl⟩ := ext_eval_ok h
      obtain ⟨l, -, hl⟩ := List.mem_map.1 h'
      cases hl
      exact effect_nil id
    | findByIdempotencyKey _ | withdrawalStatus _ | withdrawalToSend _ | withdrawalAmounts _ =>
      obtain ⟨-, rfl⟩ := ext_eval_one rfl h
      exact effect_nil id

/-! ## Rules -/

abbrev KeyAssertion := List (Key withdrawalsExt) → WdDb → WdHist → Prop

structure Keeps (track : Prop) (id : Uuid) (p : Nat) (A : KeyAssertion) : Prop where
  framed : (withdrawalProtocol track id).FramedTx p fun _ => A
  mono : ∀ ks ks' db h, A ks db h → A (ks ++ ks') db h

def Eff (id : Uuid) (new : Option Withdrawal) (es : List LedgerEntry) (A : KeyAssertion) :
    WdTxAssertion := fun ws ks db h => Effect id new es ws ∧ A ks db h

abbrev Left (A : KeyAssertion) : WdTxAssertion := fun _ => A

section
variable {track : Prop} {id : Uuid} {p : Nat} {ε : Type} {A : KeyAssertion} {B : WdAssertion}
variable {new : Option Withdrawal} {es : List LedgerEntry}

theorem keeps_of_framed (hB : (withdrawalProtocol track id).Framed p B) :
    Keeps track id p fun _ => B := ⟨hB.inTx, fun _ _ _ _ h => h⟩

theorem framed_eff (hA : Keeps track id p A) :
    (withdrawalProtocol track id).FramedTx p (Eff id new es A) where
  stable ws _ _ _ _ _ hg hk hr he hi := ⟨hg.1, hA.framed.stable ws _ _ _ _ _ hg.2 hk hr he hi⟩
  own ws _ _ _ _ hq he hg := ⟨hg.1, hA.framed.own ws _ _ _ _ hq he hg.2⟩

theorem keepsWallets_withdrawalProtocol : KeepsWallets (withdrawalProtocol track id) p :=
  fun _ _ _ _ h => h.wallets

theorem not_insert_of_aside {st : Stmt withdrawalsExt} (hst : AsideStmt id st)
    (input : LedgerCreditInput) : st ≠ .core (.insertLedgerEntry input) := by
  rintro rfl
  exact hst

variable [FromErr DbError ε]

theorem triple_aside {st : Stmt withdrawalsExt} (hst : AsideStmt id st) (hA : Keeps track id p A) :
    (withdrawalProtocol track id).toProtocol.Triple p (InTx p (Eff id new es A))
      (query st : Withdrawals ε _)
      (outcome (fun _ => InTx p (Eff id new es A)) fun _ => InTx p (Left A)) := by
  refine triple_query (S := satsPay withdrawalsExt) st (fun _ => framed_eff hA)
    (fun _ => hA.framed) ?_ fun _ _ _ _ _ _ hg _ => hg.2
  intro ws ks db h a ws' _ hg he
  refine ⟨fun w hw k hk => List.mem_append_right _
    (covered_of_other (not_insert_of_aside hst) he w hw k hk), ?_, hA.mono _ _ _ _ hg.2⟩
  exact hg.1.aside (effect_of_aside hst he)

omit [FromErr DbError ε] in
theorem triple_stage {event : DomainEvent} (hA : Keeps track id p A) :
    (withdrawalProtocol track id).toProtocol.Triple p (InTx p (Eff id new es A)) (stage event)
      (outcome (fun _ => InTx p (Eff id new es A)) fun _ => InTx p (Left A)) := by
  have hst : AsideStmt id (.core (.insertOutbox event)) := trivial
  have hq : (withdrawalProtocol track id).toProtocol.Triple p (InTx p (Eff id new es A))
      (coreQuery (.insertOutbox event) : Withdrawals DbError Unit)
      (outcome (fun _ => InTx p (Eff id new es A)) fun _ => InTx p (Left A)) :=
    triple_aside hst hA
  exact triple_mapErr hq fun _ _ h => h

omit [FromErr DbError ε] in
/-- An entry of another withdrawal. -/
theorem triple_apply_aside {input : LedgerCreditInput} (hin : input.referenceId ≠ some id)
    (hA : Keeps track id p A) {g : LedgerError → ε} :
    (withdrawalProtocol track id).toProtocol.Triple p (InTx p (Eff id new es A))
      ((applyLedgerEntry input).mapErr g : Withdrawals ε _)
      (outcome (fun _ => InTx p (Eff id new es A)) fun _ => InTx p (Left A)) := by
  refine triple_mapErr (triple_applyLedgerEntry keepsWallets_withdrawalProtocol (framed_eff hA)
    (framed_eff hA) (fun _ => hA.framed) (fun ws ks ks' db h hg => ⟨hg.1, hA.mono _ _ _ _ hg.2⟩)
    (fun _ _ _ _ _ _ hg => ⟨hg.2, hg.2⟩) ?_) fun _ _ h => h
  intro ws ks db h n _ hg _ _ _ _
  exact ⟨hg.1.aside (effect_entry_ne hin), hg.2⟩

omit [FromErr DbError ε] in
/-- An entry of this one. -/
theorem triple_apply_entry {input : LedgerCreditInput} (hin : input.referenceId = some id)
    (hA : Keeps track id p A) {g : LedgerError → ε} :
    (withdrawalProtocol track id).toProtocol.Triple p (InTx p (Eff id new es A))
      ((applyLedgerEntry input).mapErr g : Withdrawals ε _)
      (outcome (fun _ c => ∃ n, numeric39 input.amount = some n ∧
        InTx p (Eff id new (input.entry n :: es) A) c) fun _ => InTx p (Left A)) := by
  have post : (withdrawalProtocol track id).FramedTx p fun ws ks db h =>
      ∃ n, numeric39 input.amount = some n ∧ Eff id new (input.entry n :: es) A ws ks db h :=
    { stable := fun ws ks db h db' h' ⟨n, hn, hg⟩ hk hr he hi =>
        ⟨n, hn, (framed_eff hA).stable _ _ _ _ _ _ hg hk hr he hi⟩
      own := fun ws ks db h e hq he ⟨n, hn, hg⟩ =>
        ⟨n, hn, (framed_eff hA).own _ _ _ _ _ hq he hg⟩ }
  have apply : (withdrawalProtocol track id).toProtocol.Triple p (InTx p (Eff id new es A))
      (applyLedgerEntry input)
      (outcome (fun _ => InTx p fun ws ks db h => ∃ n, numeric39 input.amount = some n ∧
        Eff id new (input.entry n :: es) A ws ks db h) fun _ => InTx p (Left A)) := by
    refine triple_applyLedgerEntry keepsWallets_withdrawalProtocol (framed_eff hA) post
      (fun _ => hA.framed) (fun ws ks ks' db h hg => ⟨hg.1, hA.mono _ _ _ _ hg.2⟩)
      (fun _ _ _ _ _ _ hg => ⟨hg.2, hg.2⟩) ?_
    intro ws ks db h n _ hg hn _ _ _
    have hentry : Effect id none [input.entry n] [.core (.addEntry (input.entry n))] :=
      effect_entry hin
    exact ⟨n, hn, hg.1.append hentry, hg.2⟩
  refine triple_mapErr (.conseq apply (fun _ _ h => h) fun r c _ h => ?_) fun _ _ h => h
  cases r with
  | ok _ =>
    obtain ⟨t, ht, n, hn, hg⟩ := h
    exact ⟨n, hn, t, ht, hg⟩
  | error _ => exact h

/-- A commit that leaves the book alone. -/
theorem triple_commit_aside (hB : (withdrawalProtocol track id).Framed p B)
    (hAB : ∀ ks db h, A ks db h → B db h)
    (hcong : ∀ db db' h, rowOf id db' = rowOf id db → B db h → B db' h) :
    (withdrawalProtocol track id).toProtocol.Triple p (InTx p (Eff id none [] A))
      (commit : Withdrawals ε Unit) (outcome (fun _ => Idle p B) fun _ => Over B) := by
  refine triple_commit (S := satsPay withdrawalsExt) hB.stable (fun _ => hB) ?_
    fun _ _ _ _ _ hg => hAB _ _ _ hg.2
  intro ws ks db h hi hg _
  have hrow : rowOf id (viewOf ws db) = rowOf id db := by rw [hg.1.row, Option.none_or]
  have hq : Quiet id (.did p .commit (.ok ())) := ⟨rfl, rfl, fun _ _ => rfl⟩
  refine ⟨⟨?_, fun q hne => ?_⟩, hB.own _ _ _ hq rfl (hcong _ _ _ hrow (hAB _ _ _ hg.2))⟩
  · have hb := Book.quiet hi hq
    show Book _ _ _ _ _ _
    rwa [hrow, hg.1.entries, List.nil_append, hg.1.jobs]
  · have ho : Others id q db h db (.did p .commit (.ok ()) :: h) :=
      others_quiet hq.broadcast (by simpa using Ne.symm hne)
    refine ⟨ho.hist, hg.1.wallets db, ?_, ho.calls, fun hc r hr hs => hrow.trans hr, ho.hand, ?_⟩
    · rw [hrow]; exact advance_refl _
    · intro H _; rw [hg.1.jobs]

structure WithdrawalMove (track : Prop) (id : Uuid) (p : Nat) (old : Option Withdrawal) (new : Withdrawal)
    (es : List LedgerEntry) (h : WdHist) : Prop where
  advance : Advance old (some new)
  mine : ∀ r, old = some r → r.status = .broadcasting → ClaimedBy id p h
  accounted : ∀ es₀, Accounted old es₀ → Accounted (some new) (es ++ es₀)
  sending : Sending id old h → Sending id (some new) (.did p .commit (.ok ()) :: h)
  handled : track → new.status = .broadcasted → Holding id p h

theorem WithdrawalMove.book {old : Option Withdrawal} {r : Withdrawal} {es₀ : List LedgerEntry}
    {jobs : Table Job} {h : WdHist} (hm : WithdrawalMove track id p old r es h)
    (hb : Book track id old es₀ jobs h) :
    Book track id (some r) (es ++ es₀) jobs (.did p .commit (.ok ()) :: h) where
  accounted := hm.accounted es₀ hb.accounted
  sending := hm.sending hb.sending
  hands := hb.hands.of_same fun _ _ => rfl
  handled ht r' hr hs := by
    cases hr
    exact .inr ⟨p, (hm.handled ht hs).of_same fun _ _ => rfl⟩

/-- The commit of a move, by a transaction that has locked the row. -/
theorem triple_commit_move {r : Withdrawal} {E : WdAssertion}
    (hB : (withdrawalProtocol track id).Stable p B) (hE : (withdrawalProtocol track id).Framed p E)
    (hAE : ∀ ks db h, A ks db h → E db h)
    (hm : ∀ ks db h, bookOf track id db h → A ks db h → WithdrawalMove track id p (rowOf id db) r es h)
    (hAB : ∀ ks db db' h, A ks db h → rowOf id db' = some r →
      B db' (.did p .commit (.ok ()) :: h)) :
    (withdrawalProtocol track id).toProtocol.Triple p (InTx p (Eff id (some r) es A))
      (commit : Withdrawals ε Unit) (outcome (fun _ => Idle p B) fun _ => Over E) := by
  refine triple_commit (S := satsPay withdrawalsExt) hB (fun _ => hE) ?_
    fun _ _ _ _ _ hg => hAE _ _ _ hg.2
  intro ws ks db h hi hg _
  have hrow : rowOf id (viewOf ws db) = some r := by rw [hg.1.row, Option.some_or]
  have hmove := hm ks db h hi hg.2
  refine ⟨⟨?_, fun q hne => ?_⟩, hAB _ _ _ _ hg.2 hrow⟩
  · show Book _ _ _ _ _ _
    rw [hrow, hg.1.entries, hg.1.jobs]
    exact hmove.book hi
  · have ho : Others id q db h db (.did p .commit (.ok ()) :: h) :=
      others_quiet rfl (by simpa using Ne.symm hne)
    refine ⟨ho.hist, hg.1.wallets db, ?_, ho.calls, ?_, ho.hand, fun H _ => by rw [hg.1.jobs]⟩
    · show Advance _ (rowOf id (viewOf ws db))
      rw [hrow]; exact hmove.advance
    · intro hc r' hr' hs'
      -- only one process has claimed it, and that is `p`
      have hle : claims id h ≤ 1 := by
        have := hi.sending.claims
        split at this <;> omega
      exact absurd (claimedBy_unique hle hc (hmove.mine r' hr' hs')) hne

end

/-! ## What a process knows -/

def HandIs (id : Uuid) (p : Nat) (K : Option Hand) : WdAssertion := fun _ h => handOf id p h = K

theorem HandIs.cons {id : Uuid} {p : Nat} {K : Option Hand} {db db' : WdDb} {h : WdHist}
    {e : WdEvent} (hK : HandIs id p K db h) (he : ∀ q H, handStep id q e H = H) :
    HandIs id p K db' (e :: h) := by
  rw [HandIs, handOf_cons, he]
  exact hK

def RowHas (id : Uuid) (φ : Withdrawal → Prop) : WdAssertion :=
  fun db _ => ∃ r, rowOf id db = some r ∧ φ r

/-- `p` has claimed it, and nobody else moves it on. -/
def Mine (id : Uuid) (p : Nat) (r : Withdrawal) : WdAssertion := fun db h =>
  ClaimedBy id p h ∧ rowOf id db = some r ∧ r.status = .broadcasting

def Unsent (id : Uuid) (p : Nat) (r : Withdrawal) : WdAssertion := fun db h =>
  Mine id p r db h ∧ broadcasts id h = 0

def LockedAt (id : Uuid) (old : Option Withdrawal) : KeyAssertion := fun ks db _ =>
  Key.ext (WithdrawalsKey.row id) ∈ ks ∧ rowOf id db = old

section
variable {track : Prop} {id : Uuid} {p : Nat} {K : Option Hand} {r : Withdrawal}

theorem framed_handIs : (withdrawalProtocol track id).Framed p (HandIs id p K) where
  stable db h db' h' ha _ he _ := by rw [HandIs, handOf_ext he]; exact ha
  own db h e hq _ ha := by rw [HandIs, handOf_cons, hq.hand]; exact ha

theorem framed_rowHas {φ : Withdrawal → Prop}
    (hφ : ∀ r r' : Withdrawal, r.SameTerms r' → r.status.Later r'.status → φ r → φ r') :
    (withdrawalProtocol track id).Framed p (RowHas id φ) where
  stable db h db' h' := by
    rintro ⟨r, hr, h⟩ hrel - -
    obtain ⟨r', hr', ht, hl⟩ := hrel.row r hr
    exact ⟨r', hr', hφ r r' ht hl h⟩
  own _ _ _ _ _ ha := ha

theorem framed_mine : (withdrawalProtocol track id).Framed p (Mine id p r) where
  stable db h db' h' := by
    rintro ⟨hc, hr, hs⟩ hrel - -
    exact ⟨hc.mono hrel.hist, hrel.mine hc r hr hs, hs⟩
  own db h e _ _ := by
    rintro ⟨hc, hr, hs⟩
    exact ⟨hc.cons e, hr, hs⟩

theorem framed_unsent : (withdrawalProtocol track id).Framed p (Unsent id p r) where
  stable db h db' h' := by
    rintro ⟨hm, hb⟩ hrel he hi
    exact ⟨framed_mine.stable _ _ _ _ hm hrel he hi, (hrel.calls hm.1).trans hb⟩
  own db h e hq he := by
    rintro ⟨hm, hb⟩
    exact ⟨framed_mine.own _ _ _ hq he hm, by rw [broadcasts_cons, hq.broadcast]; exact hb⟩

theorem keeps_lockedAt (old : Option Withdrawal) : Keeps track id p (LockedAt id old) where
  framed :=
    { stable := by
        rintro ws ks db h db' h' ⟨hk, hr⟩ hrows - - -
        exact ⟨hk, (hrows _ hk).trans hr⟩
      own := fun _ _ _ _ _ _ _ hg => hg }
  mono _ _ _ _ hg := ⟨List.mem_append_left _ hg.1, hg.2⟩

theorem Keeps.and {A B : KeyAssertion} (hA : Keeps track id p A) (hB : Keeps track id p B) :
    Keeps track id p fun ks db h => A ks db h ∧ B ks db h where
  framed :=
    { stable := fun ws _ _ _ _ _ hg hk hr he hi =>
        ⟨hA.framed.stable ws _ _ _ _ _ hg.1 hk hr he hi, hB.framed.stable ws _ _ _ _ _ hg.2 hk hr he hi⟩
      own := fun ws _ _ _ _ hq he hg =>
        ⟨hA.framed.own ws _ _ _ _ hq he hg.1, hB.framed.own ws _ _ _ _ hq he hg.2⟩ }
  mono ks ks' db h hg := ⟨hA.mono ks ks' db h hg.1, hB.mono ks ks' db h hg.2⟩

variable {ε α : Type} [FromErr DbError ε] {A N : KeyAssertion} {B : WdAssertion}

/-- A transaction, of which nothing is written at first. -/
theorem triple_scope {body : Withdrawals ε α} {Q : Except ε α → WdAssertion}
    (hB : (withdrawalProtocol track id).Framed p B)
    (hQ : ∀ r, (withdrawalProtocol track id).Framed p (Q r))
    (hBQ : ∀ e db h, B db h → Q (.error e) db h)
    (hb : (withdrawalProtocol track id).toProtocol.Triple p (InTx p (Eff id none [] fun _ => B))
      body fun r => Over (Q r)) :
    (withdrawalProtocol track id).toProtocol.Triple p (Idle p B) (transaction body)
      fun r => Idle p (Q r) := by
  refine triple_transaction hB hQ hBQ (.conseq hb (fun c _ hc => ?_) fun _ _ _ h => h)
  obtain ⟨t, ht, hw, hd⟩ := hc
  refine ⟨t, ht, ?_, hd⟩
  rw [hw]
  exact effect_nil id

/-- What an update of the row answers: the row it has locked and written, or that
there was none to write. -/
def Updated (id : Uuid) (p : Nat) (u : WithdrawalUpdate) (A N : KeyAssertion) :
    Option Withdrawal → Conf (machine (satsPay withdrawalsExt)) → Prop
  | some r', c => ∃ r, r' = u.set r ∧ u.guard r.status ∧
      InTx p (Eff id (some r') [] fun ks db h => LockedAt id (some r) ks db h ∧ A ks db h) c
  | none, c => InTx p (Eff id none [] N) c

theorem triple_update {u : WithdrawalUpdate} (hA : Keeps track id p A) (hN : Keeps track id p N)
    (hAN : ∀ ks db h, bookOf track id db h → A ks db h →
      (∀ r, rowOf id db = some r → u.guard r.status = false) → N ks db h) :
    (withdrawalProtocol track id).toProtocol.Triple p (InTx p (Eff id none [] A))
      (wdQuery (.update id u) : Withdrawals ε _)
      (outcome (Updated id p u A N) fun _ => InTx p (Left A)) := by
  let post : Option Withdrawal → WdTxAssertion
    | some r', ws, ks, db, h => ∃ r, r' = u.set r ∧ u.guard r.status ∧
        Eff id (some r') [] (fun ks db h => LockedAt id (some r) ks db h ∧ A ks db h) ws ks db h
    | none, ws, ks, db, h => Eff id none [] N ws ks db h
  have hpost : ∀ a, (withdrawalProtocol track id).FramedTx p (post a) := by
    intro a
    cases a with
    | none => exact framed_eff hN
    | some r' =>
      have hf (r : Withdrawal) : (withdrawalProtocol track id).FramedTx p (Eff id (some r') []
          fun ks db h => LockedAt id (some r) ks db h ∧ A ks db h) :=
        framed_eff ((keeps_lockedAt (some r)).and hA)
      exact
        { stable := fun ws ks db h db' h' ⟨r, h₁, h₂, hg⟩ hk hr he hi =>
            ⟨r, h₁, h₂, (hf r).stable _ _ _ _ _ _ hg hk hr he hi⟩
          own := fun ws ks db h e hq he ⟨r, h₁, h₂, hg⟩ =>
            ⟨r, h₁, h₂, (hf r).own _ _ _ _ _ hq he hg⟩ }
  have run : (withdrawalProtocol track id).toProtocol.Triple p (InTx p (Eff id none [] A))
      (wdQuery (.update id u) : Withdrawals ε _)
      (outcome (fun a => InTx p (post a)) fun _ => InTx p (Left A)) := by
    refine triple_query (S := satsPay withdrawalsExt) (.ext (.update id u)) hpost
      (fun _ => hA.framed) ?_ fun _ _ _ _ _ _ hg _ => hg.2
    intro ws ks db h a ws' hi hg he
    refine ⟨fun w hw k hk => List.mem_append_right _
      (covered_of_other (by simp) he w hw k hk), ?_⟩
    have hview : rowOf id (viewOf ws db) = rowOf id db := by rw [hg.1.row, Option.none_or]
    rcases update_ok he with ⟨r, hr, hgd, rfl, rfl⟩ | ⟨hn, rfl, rfl⟩
    · refine ⟨r, rfl, hgd, ?_, ⟨?_, hview.symm.trans hr⟩, hA.mono _ _ _ _ hg.2⟩
      · have := hg.1.append (effect_put id (u.set r))
        rwa [Option.some_or, List.append_nil] at this
      · refine List.mem_append_right _ (List.mem_map_of_mem ?_)
        have ht : (WithdrawalsDb.target (viewOf ws db).ext id u).isSome := by
          have hl : (WithdrawalsDb.withdrawals (viewOf ws db).ext).lookup id = some r := hr
          simp [WithdrawalsDb.target, hl, hgd]
        show WithdrawalsKey.row id ∈ if (WithdrawalsDb.target (viewOf ws db).ext id u).isSome
          then [WithdrawalsKey.row id] else []
        rw [if_pos ht]
        exact List.mem_singleton_self _
    · rw [List.append_nil]
      rw [hview] at hn
      exact ⟨hg.1, hN.mono _ _ _ _ (hAN _ _ _ hi hg.2 hn)⟩
  refine .conseq run (fun _ _ h => h) fun a c _ h => ?_
  cases a with
  | error e => exact h
  | ok a =>
    cases a with
    | none => exact h
    | some r' =>
      obtain ⟨t, ht, r, h₁, h₂, hg⟩ := h
      exact ⟨r, h₁, h₂, t, ht, hg⟩

end

end SatsPay
