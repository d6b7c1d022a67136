import SatsPay.DexBook

/-!
# The functions on the orders

Each keeps to any plan for one swap that allows its move.
-/

namespace SatsPay

open Interleave ReadCommitted RowProtocol

section
variable {i : Uuid} {cond : Db dexExt → DexHist → DexEvent → Prop}
variable {P : Plan (dexFocus i) cond} {p : Nat} {B : DexHist → Prop}
variable {f : DexView → DexView} {A : Plan.KeyAssertion dexExt}

theorem isLeg_iff {e : LedgerEntry} :
    isLeg i e ↔ e.referenceType = some "DexSwap" ∧ e.referenceId = some i := by
  simp [isLeg]

/-- A ledger entry of the swap. -/
theorem triple_leg (hA : P.Keeps p A) {input : LedgerCreditInput}
    (hin : input.referenceType = some "DexSwap" ∧ input.referenceId = some i) :
    P.Keeping p (InTx p (Plan.Eff (dexFocus i) f A))
      ((applyLedgerEntry input).mapErr .ledger : DexSwaps DexSwapError _)
      (outcome (fun _ c => ∃ n, numeric39 input.amount = some n ∧
        InTx p (Plan.Eff (dexFocus i) (DexView.addLeg (input.entry n) ∘ f) A) c)
        fun _ => InTx p fun _ => A) := by
  refine .conseq (Plan.triple_apply hA) (fun _ _ h => h) fun r c _ h => ?_
  cases r with
  | error _ => exact h
  | ok _ =>
    obtain ⟨n, hn, t, ht, hg⟩ := h
    refine ⟨n, hn, t, ht, ?_, hg.wallets, hg.left.1⟩
    have : (dexFocus i).act (.core (.addEntry (input.entry n))) = DexView.addLeg (input.entry n) :=
      funext fun v => if_pos (isLeg_iff.2 hin)
    rw [hg.acts, this]
    rfl

/-- The commit of a move. -/
theorem triple_commit_takes {M : DexView → DexView → Prop} (hP : P.Plain) (hB : P.Knows p B)
    (htake : P.Takes p B (.did p .commit (.ok ())) M) (hA : ∀ ks db h, A ks db h → B h)
    (hM : ∀ ks db h, A ks db h → M (dexSee i db) (f (dexSee i db))) :
    P.Keeping p (InTx p (Plan.Eff (dexFocus i) f A)) (commit : DexSwaps DexSwapError Unit)
      fun _ => Over fun _ h => B h := by
  refine .conseq (Plan.triple_commit hB.stable hB (fun ks db h hi ha hc => ?_) hA)
    (fun _ _ h => h) fun r _ _ h => match r with
      | .ok _ => h.2
      | .error _ => h
  exact ⟨htake db h _ hi (hA _ _ _ ha) hc (hM _ _ _ ha), fun db' _ =>
    hB.own db' _ _ (hP.commit p) rfl (hA _ _ _ ha)⟩

/-! ## Another swap -/

theorem steady_personalWallet (hP : P.Plain) (hB : P.Knows p B) (userId : Uuid) (coin : Coin) :
    P.Steady p B (personalWallet userId coin) :=
  .conseq (triple_personalWallet hP (Plan.keeps_of_framed hB) (fun _ => rfl) userId coin)
    (fun _ _ h => h) fun r _ _ h => match r with
      | .ok _ => Plan.inTx_imp (fun _ _ _ h => h.1) h
      | .error _ => h

theorem steady_dexQuery (hB : P.Knows p B) {ε : Type} [FromErr DbError ε] {st : DexStmt}
    (hst : st.Besides i) : P.Steady p B (dexQuery st : DexSwaps ε _) :=
  Plan.steady_query hB (.ext st) not_entry (dexAside hst)

theorem steady_lockedRow (hB : P.Knows p B) (j : Uuid) : P.Steady p B (lockedRow j) := by
  have read : P.Steady p B (dexQuery (.selectForUpdate j) : DexSwaps DexSwapError _) :=
    steady_dexQuery hB trivial
  refine read.bind fun a => ?_
  cases a with
  | none => exact .throw _
  | some r => exact .ret r

theorem steady_setRow (hB : P.Knows p B) {j : Uuid} (hj : j ≠ i) (u : DexSwapUpdate) :
    P.Steady p B (setRow j u) := by
  have update : P.Steady p B (dexQuery (.update j u) : DexSwaps DexSwapError _) :=
    steady_dexQuery hB hj
  exact update.bind fun _ => .ret ()

/-- An entry of another swap. -/
theorem act_entry_ne {input : LedgerCreditInput} (hin : input.referenceId ≠ some i) (n : ℤ) :
    (dexFocus i).act (.core (.addEntry (input.entry n))) = id :=
  funext fun _ => if_neg fun h => hin (isLeg_iff.1 h).2

/-! ## Credit -/

theorem keeps_creditTx (hP : P.Plain) (hB : P.Knows p B) {toAmount : ℕ} {outboundTx : Option String}
    (htake : P.Takes p B (.did p .commit (.ok ())) (Credits i toAmount outboundTx)) {r : DexSwap}
    (hr : creditable r.status) :
    P.Keeping p (InTx p (Plan.Eff (dexFocus i) id fun ks db h => B h ∧ RowLocked i r ks db h))
      (creditTx i toAmount outboundTx r) fun _ => Over fun _ h => B h := by
  have hrow : P.Keeps p (RowLocked i r) :=
    Plan.keeps_row (.ext (X := dexExt) (DexKey.row i)) (· = some r)
  have hA := (Plan.keeps_of_framed hB).and hrow
  refine Plan.bind_left (triple_setRow (u := .crediting) hA rfl fun _ _ _ h => h.2.2)
    (fun _ => .of_exists fun now => ?_) fun _ _ _ h => h.1
  have hf : ∀ v, ((DexView.setRow (DexSwapUpdate.crediting.set now r) ∘ id) v).coinOf = v.coinOf :=
    fun _ => rfl
  refine Plan.bind_left (triple_personalWallet hP hA hf _ _) (fun w => ?_) fun _ _ _ h => h.1
  have hA' := hA.and (keeps_coinOf (p := p) hP fun c => c w = some r.toCoin)
  refine Plan.bind_left (Plan.triple_lockWallets hA' _) (fun _ => ?_) fun _ _ _ h => h.1.1
  refine Plan.bind_left (triple_leg hA' ⟨rfl, rfl⟩)
    (fun _ => .of_exists fun n => .of_pure fun hn => ?_) fun _ _ _ h => h.1.1
  refine Plan.bind_left (triple_setRow (u := .completed toAmount outboundTx) hA' rfl
    fun _ _ _ _ => rfl) (fun _ => .of_exists fun now' => ?_) fun _ _ _ h => h.1.1
  exact triple_commit_takes hP hB htake (fun _ _ _ h => h.1.1) fun ks db h ⟨⟨_, hr'⟩, hw⟩ =>
    ⟨r, w, n, now, now', hr'.2, hr, hw, hn, rfl⟩

theorem keeps_creditAndComplete (hP : P.Plain) (hB : P.Knows p B) (j : Uuid) (toAmount : ℕ)
    (outboundTx : Option String) (htake : j = i →
      P.Takes p B (.did p .commit (.ok ())) (Credits i toAmount outboundTx)) :
    P.Calm p B (creditAndComplete j toAmount outboundTx) := by
  refine .transaction hB ?_
  by_cases hj : j = i
  · subst hj
    refine Plan.bind_left (triple_lockedRow (Plan.keeps_of_framed hB)) (fun r => ?_)
      fun _ _ _ h => h
    split
    · exact .conseq (Plan.CalmTx.commit_end hB (hP.commit p))
        (fun _ _ h => Plan.inTx_imp (fun _ _ _ h => h.1) h) fun _ _ _ h => h
    · split
      · rename_i hr
        exact keeps_creditTx hP hB (htake rfl) hr
      · exact .throw fun _ _ ⟨_, _, h⟩ => h.left.1
  · refine .step (steady_lockedRow hB j) fun r => ?_
    split
    · exact .commit_end hB (hP.commit p)
    · split
      · refine .step (steady_setRow hB hj _) fun _ => ?_
        refine .step (steady_personalWallet hP hB _ _) fun w => ?_
        refine .step (Plan.steady_lockWallets hB _ _) fun _ => ?_
        refine .step (Plan.steady_apply hB (act_entry_ne (by simpa [dexSwapIn] using hj)) _)
          fun _ => ?_
        exact .step (steady_setRow hB hj _) fun _ => .commit_end hB (hP.commit p)
      · exact .throw _

/-! ## Refund -/

theorem keeps_refundTx (hP : P.Plain) (hB : P.Knows p B) {reason : String}
    (htake : P.Takes p B (.did p .commit (.ok ())) (Refunds i reason)) {r : DexSwap}
    (hr : refundable r.status) :
    P.Keeping p (InTx p (Plan.Eff (dexFocus i) id fun ks db h => B h ∧ RowLocked i r ks db h))
      (refundTx i reason r) fun _ => Over fun _ h => B h := by
  have hrow : P.Keeps p (RowLocked i r) :=
    Plan.keeps_row (.ext (X := dexExt) (DexKey.row i)) (· = some r)
  have hA := (Plan.keeps_of_framed hB).and hrow
  refine Plan.bind_left (triple_setRow (u := .refunding reason) hA rfl fun _ _ _ h => h.2.2)
    (fun _ => .of_exists fun now => ?_) fun _ _ _ h => h.1
  have hf : ∀ v, ((DexView.setRow ((DexSwapUpdate.refunding reason).set now r) ∘ id) v).coinOf =
    v.coinOf := fun _ => rfl
  refine Plan.bind_left (triple_personalWallet hP hA hf _ _) (fun w => ?_) fun _ _ _ h => h.1
  have hA' := hA.and (keeps_coinOf (p := p) hP fun c => c w = some r.fromCoin)
  refine Plan.bind_left (Plan.triple_lockWallets hA' _) (fun _ => ?_) fun _ _ _ h => h.1.1
  refine Plan.bind_left (triple_leg hA' ⟨rfl, rfl⟩)
    (fun _ => .of_exists fun n => .of_pure fun hn => ?_) fun _ _ _ h => h.1.1
  refine Plan.bind_left (triple_setRow (u := .refunded) hA' rfl fun _ _ _ _ => rfl)
    (fun _ => .of_exists fun now' => ?_) fun _ _ _ h => h.1.1
  exact triple_commit_takes hP hB htake (fun _ _ _ h => h.1.1) fun ks db h ⟨⟨_, hr'⟩, hw⟩ =>
    ⟨r, w, n, now, now', hr'.2, hr, hw, hn, rfl⟩

theorem keeps_refund (hP : P.Plain) (hB : P.Knows p B) (j : Uuid) (reason : String)
    (htake : j = i → P.Takes p B (.did p .commit (.ok ())) (Refunds i reason)) :
    P.Calm p B (refund j reason) := by
  refine .transaction hB ?_
  by_cases hj : j = i
  · subst hj
    refine Plan.bind_left (triple_lockedRow (Plan.keeps_of_framed hB)) (fun r => ?_)
      fun _ _ _ h => h
    split
    · exact .conseq (Plan.CalmTx.commit_end hB (hP.commit p))
        (fun _ _ h => Plan.inTx_imp (fun _ _ _ h => h.1) h) fun _ _ _ h => h
    · rename_i hr
      split
      · exact .throw fun _ _ ⟨_, _, h⟩ => h.left.1
      · rename_i hr'
        push Not at hr'
        exact keeps_refundTx hP hB (htake rfl) ⟨hr, hr'.1, hr'.2⟩
  · refine .step (steady_lockedRow hB j) fun r => ?_
    split
    · exact .commit_end hB (hP.commit p)
    · split
      · exact .throw _
      · refine .step (steady_setRow hB hj _) fun _ => ?_
        refine .step (steady_personalWallet hP hB _ _) fun w => ?_
        refine .step (Plan.steady_lockWallets hB _ _) fun _ => ?_
        refine .step (Plan.steady_apply hB (act_entry_ne (by simpa [dexSwapRefund] using hj)) _)
          fun _ => ?_
        exact .step (steady_setRow hB hj _) fun _ => .commit_end hB (hP.commit p)

/-! ## Updates -/

theorem calm_dexPool (hB : P.Knows p B) {ε : Type} [FromErr DbError ε] {st : DexStmt}
    (hst : st.Besides i) (hq : ∀ r, P.quiet (.did p (.pool (.ext st)) r)) :
    P.Calm p B (dexPool st : DexSwaps ε _) :=
  Plan.calm_pool hB (.ext st) not_entry (dexAside hst) hq

/-- An update on its own. -/
theorem calm_update (hP : P.Plain) (hB : P.Knows p B) (j : Uuid) (u : DexSwapUpdate)
    (htake : j = i → ∀ r, P.Takes p B (.did p (.pool (.ext (.update i u))) (.ok (some r)))
      (Advances u)) :
    P.Calm p B (dexPool (.update j u) : DexSwaps DexSwapError (Option DexSwap)) := by
  by_cases hj : j = i
  · subst hj
    have quiet : ∀ db h r, P.inv (dexSee j db) h → B h →
        (P.inv (dexSee j db) (.did p (.pool (.ext (.update j u))) r :: h) ∧ ∀ q, q ≠ p →
          P.rel q (dexSee j db) h (dexSee j db) (.did p (.pool (.ext (.update j u))) r :: h)) :=
      fun db h r hi _ => ⟨P.inv_quiet (hP.update _ _ _ _) hi, fun q hq =>
        P.rel_quiet (hP.update _ _ _ _) hi (by simpa using Ne.symm hq)⟩
    refine .of_outcome (Plan.triple_pool (.ext (DexStmt.update j u)) not_entry (fun _ => hB.stable)
      hB.stable ?_ ?_)
    · intro db h a ws hi hb he hc
      refine ⟨?_, hB.own db _ _ (hP.update p j u _) rfl hb⟩
      rcases dexUpdate_ok he with ⟨r, now, hr, hu, rfl, rfl⟩ | ⟨-, rfl, rfl⟩
      · exact htake rfl _ db h _ hi hb hc ⟨r, now, hr, hu, if_pos rfl⟩
      · exact quiet db h _ hi hb
    · exact fun db h e hi hb _ => ⟨quiet db h _ hi hb, hB.own db _ _ (hP.update p j u _) rfl hb⟩
  · exact calm_dexPool hB hj fun r => hP.update p j u r

theorem keeps_markBroadcasting (hP : P.Plain) (hB : P.Knows p B) (j : Uuid)
    (depositAddress : String) (memo : Option String) (swapPayload : Value)
    (htake : j = i → ∀ r, P.Takes p B (.did p (.pool (.ext (.update i
      (.broadcasting depositAddress memo swapPayload)))) (.ok (some r)))
      (Advances (.broadcasting depositAddress memo swapPayload))) :
    P.Calm p B (markBroadcasting j depositAddress memo swapPayload) := by
  refine (calm_update hP hB j _ htake).bind fun a => ?_
  cases a with
  | none => exact .throw _
  | some _ => exact .ret ()

theorem keeps_markInFlight (hP : P.Plain) (hB : P.Knows p B) (j : Uuid) (inboundTx : String)
    (htake : j = i → ∀ r, P.Takes p B (.did p (.pool (.ext (.update i (.inFlight inboundTx))))
      (.ok (some r))) (Advances (.inFlight inboundTx))) :
    P.Calm p B (markInFlight j inboundTx) := by
  refine (calm_update hP hB j _ htake).bind fun a => ?_
  cases a with
  | none => exact .throw _
  | some _ => exact .ret ()

theorem keeps_markFailed (hP : P.Plain) (hB : P.Knows p B) (j : Uuid) (error : String)
    (htake : j = i → ∀ r, P.Takes p B (.did p (.pool (.ext (.update i (.failed error))))
      (.ok (some r))) (Advances (.failed error))) :
    P.Calm p B (markFailed j error) :=
  (calm_update hP hB j _ htake).bind fun _ => .ret ()

/-! ## Creation -/

def RowFree (j : Uuid) : Plan.KeyAssertion dexExt := fun ks db _ =>
  Key.ext (X := dexExt) (DexKey.row j) ∈ ks ∧ db.ext.dexSwaps.lookup j = none

theorem triple_insertLocked (hA : P.Keeps p A) (key : String) (input : LockDexSwapInput) :
    P.Keeping p (InTx p (Plan.Eff (dexFocus i) id A))
      (dexQuery (.insertLocked i key input) : DexSwaps DbError Unit)
      (outcome (fun _ c => ∃ now, InTx p (Plan.Eff (dexFocus i)
        (DexView.setRow (input.row key now) ∘ id) fun ks db h => A ks db h ∧ RowFree i ks db h) c)
        fun _ => InTx p fun _ => A) := by
  have hfree : P.Keeps p (RowFree i) :=
    Plan.keeps_row (.ext (X := dexExt) (DexKey.row i)) (· = none)
  refine Plan.triple_effect (P := P) (.ext (DexStmt.insertLocked i key input)) not_entry hA
    (fun _ _ => hA.and hfree) ?_
  intro ws ks db h a ws' _ hg he
  obtain ⟨now, hn, rfl⟩ := insertLocked_ok he
  have hs : dexSee i (viewOf ws db) = dexSee i db := hg.see
  exact ⟨now, funext fun v => if_pos rfl, hA.mono _ _ _ _ hg.left,
    List.mem_append_right _ (List.mem_map_of_mem List.mem_cons_self),
    (congrArg DexView.row hs).symm.trans hn⟩

theorem keeps_lockTx (hP : P.Plain) (hB : P.Knows p B) (key : String) {input : LockDexSwapInput}
    (hne : input.fromCoin ≠ input.toCoin)
    (htake : P.Takes p B (.did p .commit (.ok ())) (Opens i)) :
    P.CalmTx p B (lockTx key input) := by
  have find : P.Steady p B (dexQuery (.findByIdempotency key) : DexSwaps DexSwapError _) :=
    steady_dexQuery hB trivial
  refine .step find fun existing => ?_
  cases existing with
  | some existing => exact .commit hB (hP.commit p) (.ret _)
  | none =>
    refine Plan.bind_left (triple_personalWallet hP (Plan.keeps_of_framed hB) (fun _ => rfl) _ _)
      (fun w => ?_) fun _ _ _ h => h
    have hA := (Plan.keeps_of_framed hB).and
      (keeps_coinOf (p := p) hP fun c => c w = some input.fromCoin)
    refine Plan.bind_left (triple_personalWallet hP hA (fun _ => rfl) _ _) (fun _ => ?_)
      fun _ _ _ h => h.1
    refine .conseq (A := InTx p (Plan.Eff (dexFocus i) id fun _ db h =>
      B h ∧ (dexSee i db).coinOf w = some input.fromCoin)) ?_
      (fun _ _ h => Plan.inTx_imp (fun _ _ _ h => h.1) h) fun _ _ _ h => h
    refine Plan.bind_left (Plan.triple_lockWallets hA _) (fun _ => ?_) fun _ _ _ h => h.1
    refine Plan.bind_left (Plan.triple_call hA _ (hP.newUuid p)) (fun j => ?_) fun _ _ _ h => h.1
    by_cases hj : j = i
    · subst hj
      refine Plan.bind_left (T := fun r c => match r with
        | .ok _ => ∃ now, InTx p (Plan.Eff (dexFocus j) (DexView.setRow (input.row key now) ∘ id)
            fun ks db h => (B h ∧ (dexSee j db).coinOf w = some input.fromCoin) ∧
              RowFree j ks db h) c
        | .error _ => InTx p (fun _ _ _ h => B h) c) (A := fun _ _ h => B h)
        (.attempt (.conseq (triple_insertLocked hA key input) (fun _ _ h => h)
          fun r c _ h => ?_)) (fun r => ?_) fun _ _ _ h => h
      · cases r with
        | ok _ => exact h
        | error _ =>
          obtain ⟨t, ht, hb, -⟩ := h
          exact ⟨t, ht, hb⟩
      · cases r with
        | error e =>
          cases e with
          | uniqueViolation => exact .ret fun _ _ ⟨_, _, h⟩ => h
          | _ => exact .throw fun _ _ ⟨_, _, h⟩ => h
        | ok _ =>
          have hfree : P.Keeps p (RowFree j) :=
            Plan.keeps_row (.ext (X := dexExt) (DexKey.row j)) (· = none)
          refine .of_exists fun now => ?_
          refine Plan.bind_left (triple_leg (hA.and hfree) ⟨rfl, rfl⟩)
            (fun _ => .of_exists fun n => .of_pure fun hn => ?_) fun _ _ _ h => h.1.1
          refine .bind (Q := fun _ => Over fun _ h => B h)
            (triple_commit_takes hP hB htake (fun _ _ _ h => h.1.1) ?_)
            (fun _ => .ret fun _ _ h => h) fun _ _ _ h => h
          exact fun ks db h ⟨⟨_, hw⟩, _, hr⟩ => ⟨input, key, w, n, now, hr, hne, hw, hn, rfl⟩
    · have insert : P.Steady p B (dexQuery (.insertLocked j key input) : DexSwaps DbError Unit) :=
        steady_dexQuery hB hj
      refine .conseq (A := InTx p (Plan.Eff (dexFocus i) id fun _ _ h => B h)) ?_
        (fun _ _ h => Plan.inTx_imp (fun _ _ _ h => h.1) h) fun _ _ _ h => h
      refine Plan.bind_left (T := fun r c => match r with
        | .ok _ => InTx p (Plan.Eff (dexFocus i) id fun _ _ h => B h) c
        | .error _ => InTx p (fun _ _ _ h => B h) c) (A := fun _ _ h => B h)
        (.attempt (.conseq insert (fun _ _ h => h) fun r c _ h => ?_)) (fun r => ?_)
        fun _ _ _ h => h
      · cases r with
        | ok _ => exact h
        | error _ => exact h
      · cases r with
        | error e =>
          cases e with
          | uniqueViolation => exact .ret fun _ _ ⟨_, _, h⟩ => h
          | _ => exact .throw fun _ _ ⟨_, _, h⟩ => h
        | ok _ =>
          have leg : P.Steady p B ((applyLedgerEntry (dexSwapOut w j input)).mapErr
              DexSwapError.ledger) :=
            Plan.steady_apply hB (act_entry_ne (by simpa [dexSwapOut] using hj)) _
          exact Plan.CalmTx.step leg fun _ => .commit hB (hP.commit p) (.ret _)

theorem keeps_lockAndCreate (E : DexEnv) (hP : P.Plain) (hB : P.Knows p B)
    (input : LockDexSwapInput) (htake : P.Takes p B (.did p .commit (.ok ())) (Opens i))
    (hget : ∀ j, P.Calm p B (dexPool (.getById j) : DexSwaps DexSwapError _)) :
    P.Calm p B (lockAndCreate E input) := by
  have find (key : String) : P.Calm p B
      (dexPool (.findByIdempotency key) : DexSwaps DexSwapError _) :=
    calm_dexPool hB trivial (hP.find p key)
  unfold lockAndCreate
  split
  · exact .throw _
  · rename_i hne
    split
    · exact .throw _
    · refine (find _).bind fun existing => ?_
      cases existing with
      | some existing => exact .ret _
      | none =>
        refine (Plan.Calm.transaction hB (keeps_lockTx hP hB _ hne htake)).bind fun r => ?_
        cases r with
        | existing j r => exact .ret _
        | locked j =>
          refine ((hget j).bind fun row => .ret _).bind fun row => ?_
          cases row with
          | none => exact .throw _
          | some row => exact .ret _
        | lost =>
          refine (find _).bind fun existing => ?_
          cases existing with
          | none => exact .throw _
          | some existing => exact .ret _

end

end SatsPay
