import SatsPay.DexSwaps
import SatsPay.Focus

/-!
# The book of one DEX swap

What is seen of the store for one swap: its row, its ledger entries, and the coins
of the wallets. Each function on the orders either leaves that alone or commits one
move of it.
-/

namespace SatsPay

open Interleave ReadCommitted RowProtocol

abbrev DexHist := Hist (sig (satsPay dexExt))
abbrev DexEvent := Event (sig (satsPay dexExt))

structure DexView where
  row : Option DexSwap
  legs : List LedgerEntry
  coinOf : Uuid → Option Coin

def isLeg (id : Uuid) (e : LedgerEntry) : Bool :=
  e.referenceType == some "DexSwap" && e.referenceId == some id

def DexView.setRow (r : DexSwap) (v : DexView) : DexView := { v with row := some r }
def DexView.addLeg (e : LedgerEntry) (v : DexView) : DexView := { v with legs := e :: v.legs }

@[simp] theorem DexView.setRow_row (r : DexSwap) (v : DexView) : (v.setRow r).row = some r := rfl
@[simp] theorem DexView.setRow_legs (r : DexSwap) (v : DexView) : (v.setRow r).legs = v.legs := rfl
@[simp] theorem DexView.setRow_coinOf (r : DexSwap) (v : DexView) :
    (v.setRow r).coinOf = v.coinOf := rfl
@[simp] theorem DexView.addLeg_row (e : LedgerEntry) (v : DexView) : (v.addLeg e).row = v.row := rfl
@[simp] theorem DexView.addLeg_legs (e : LedgerEntry) (v : DexView) :
    (v.addLeg e).legs = e :: v.legs := rfl
@[simp] theorem DexView.addLeg_coinOf (e : LedgerEntry) (v : DexView) :
    (v.addLeg e).coinOf = v.coinOf := rfl

def dexSee (id : Uuid) (db : Db dexExt) : DexView where
  row := db.ext.dexSwaps.lookup id
  legs := db.core.ledger.filter (isLeg id)
  coinOf w := (db.core.wallets.lookup w).map Wallet.coin

def dexAct (id : Uuid) : Write dexExt → DexView → DexView
  | .ext (.put i r), v => if i = id then v.setRow r else v
  | .core (.addEntry e), v => if isLeg id e then v.addLeg e else v
  | .core (.putWallet i w), v => { v with coinOf := Function.update v.coinOf i (some w.coin) }
  | _, v => v

theorem dexSee_apply (id : Uuid) (w : Write dexExt) (db : Db dexExt) :
    dexSee id (w.apply db) = dexAct id w (dexSee id db) := by
  cases w with
  | ext w =>
    cases w with
    | addNetworkFee fee => rfl
    | put i r =>
      by_cases h : i = id
      · subst h
        simp only [dexAct, if_true]
        exact congrArg (DexView.mk · _ _) (AList.lookup_insert _)
      · simp only [dexAct, if_neg h]
        exact congrArg (DexView.mk · _ _) (AList.lookup_insert_ne (Ne.symm h))
  | core w =>
    cases w with
    | addEntry e =>
      by_cases h : isLeg id e
      · simp only [dexAct, if_pos h]
        exact congrArg (DexView.mk _ · _) (List.filter_cons_of_pos h)
      · simp only [dexAct, if_neg h]
        exact congrArg (DexView.mk _ · _) (List.filter_cons_of_neg h)
    | putWallet i u =>
      refine congrArg (DexView.mk _ _) (funext fun j => ?_)
      by_cases h : j = i
      · subst h
        rw [Function.update_self]
        show ((db.core.wallets.insert j u).lookup j).map _ = _
        rw [AList.lookup_insert]
        rfl
      · rw [Function.update_of_ne h]
        show ((db.core.wallets.insert i u).lookup j).map _ = _
        rw [AList.lookup_insert_ne h]
        rfl
    | putJob _ _ | addOutbox _ | addAudit _ => rfl

def dexFocus (id : Uuid) : Focus dexExt where
  View := DexView
  see := dexSee id
  act := dexAct id
  see_apply := dexSee_apply id
  see_tick := by
    rintro db _ ⟨t, -, rfl⟩
    rfl

theorem ignoresQueue_dexFocus (id : Uuid) : (dexFocus id).IgnoresQueue :=
  ⟨fun _ _ => rfl, fun _ => rfl, fun _ => rfl⟩

/-! ## Statements -/

theorem dexUpdate_ok {i : Uuid} {u : DexSwapUpdate} {db : Db dexExt} {a : Option DexSwap}
    {ws : List (Write dexExt)}
    (h : .ok (a, ws) ∈ (satsPay dexExt).eval (.ext (.update i u)) db) :
    (∃ r now, db.ext.dexSwaps.lookup i = some r ∧ u.guard r.status ∧ a = some (u.set now r) ∧
      ws = [.ext (.put i (u.set now r))]) ∨
    ((∀ r, db.ext.dexSwaps.lookup i = some r → u.guard r.status = false) ∧ a = none ∧ ws = []) := by
  obtain ⟨ws', h', rfl⟩ := ext_eval_ok h
  change Except.ok (a, ws') ∈ DexStmt.eval (.update i u) db.core db.ext at h'
  simp only [DexStmt.eval] at h'
  split at h'
  · rename_i r hr
    cases List.mem_singleton.1 h'
    obtain ⟨hl, hg⟩ := Option.filter_eq_some_iff.1 hr
    exact .inl ⟨r, _, hl, hg, rfl, rfl⟩
  · rename_i hr
    cases List.mem_singleton.1 h'
    refine .inr ⟨fun r hl => ?_, rfl, rfl⟩
    have := Option.filter_eq_none_iff.1 hr r hl
    simpa using this

theorem insertLocked_ok {i : Uuid} {key : String} {input : LockDexSwapInput} {db : Db dexExt}
    {a : Unit} {ws : List (Write dexExt)}
    (h : .ok (a, ws) ∈ (satsPay dexExt).eval (.ext (.insertLocked i key input)) db) :
    ∃ now, db.ext.dexSwaps.lookup i = none ∧ ws = [.ext (.put i (input.row key now))] := by
  obtain ⟨ws', h', rfl⟩ := ext_eval_ok h
  change Except.ok (a, ws') ∈ DexStmt.eval (.insertLocked i key input) db.core db.ext at h'
  simp only [DexStmt.eval] at h'
  split at h'
  · cases List.mem_singleton.1 h'
  · rename_i hn
    cases List.mem_singleton.1 h'
    have hi : ¬ (db.ext.dexSwaps.lookup i).isSome := fun hs => hn (.inl hs)
    exact ⟨_, by simpa using hi, rfl⟩

/-- The statements on the orders that leave a swap alone. -/
def DexStmt.Besides (id : Uuid) : DexStmt → Prop
  | .insertLocked i _ _ | .update i _ => i ≠ id
  | _ => True

theorem dexAside {id : Uuid} {st : DexStmt} (hst : st.Besides id) :
    (dexFocus id).Aside (.ext st) := by
  have put : ∀ i r, i ≠ id → (dexFocus id).acts [.ext (.put i r)] = fun v => v := fun i r hi =>
    funext fun v => if_neg hi
  intro db a ws h
  cases st with
  | insertLocked i key input =>
    obtain ⟨now, -, rfl⟩ := insertLocked_ok h
    exact put _ _ hst
  | update i u =>
    rcases dexUpdate_ok h with ⟨r, now, -, -, -, rfl⟩ | ⟨-, -, rfl⟩
    · exact put _ _ hst
    · rfl
  | listActive limit =>
    obtain ⟨ws', h', rfl⟩ := ext_eval_ok h
    obtain ⟨l, -, hl⟩ := List.mem_map.1 h'
    cases hl
    rfl
  | recordNetworkFee fee =>
    obtain ⟨ws', h', rfl⟩ := ext_eval_ok h
    change Except.ok (a, ws') ∈ DexStmt.eval (.recordNetworkFee fee) db.core db.ext at h'
    simp only [DexStmt.eval] at h'
    split at h' <;> cases List.mem_singleton.1 h' <;> rfl
  | findByIdempotency _ | getById _ | selectForUpdate _ =>
    obtain ⟨-, rfl⟩ := ext_eval_one rfl h
    rfl

theorem not_entry {st : DexStmt} (input : LedgerCreditInput) :
    (Stmt.ext st : Stmt dexExt) ≠ .core (.insertLedgerEntry input) := by simp

/-! ## Moves -/

def Advances (u : DexSwapUpdate) (v v' : DexView) : Prop :=
  ∃ r now, v.row = some r ∧ u.guard r.status ∧ v' = v.setRow (u.set now r)

def Opens (id : Uuid) (v v' : DexView) : Prop :=
  ∃ (input : LockDexSwapInput) (key : String) (w : Uuid) (n : ℤ) (now : Time), v.row = none ∧
    input.fromCoin ≠ input.toCoin ∧ v.coinOf w = some input.fromCoin ∧
    numeric39 (-(input.fromAmount : ℚ)) = some n ∧
    v' = (v.setRow (input.row key now)).addLeg ((dexSwapOut w id input).entry n)

def Credits (id : Uuid) (toAmount : ℕ) (outboundTx : Option String) (v v' : DexView) : Prop :=
  ∃ (r : DexSwap) (w : Uuid) (n : ℤ) (now now' : Time), v.row = some r ∧ creditable r.status ∧
    v.coinOf w = some r.toCoin ∧ numeric39 (toAmount : ℚ) = some n ∧
    v' = ((v.setRow (DexSwapUpdate.crediting.set now r)).addLeg
      ((dexSwapIn w id toAmount).entry n)).setRow
      ((DexSwapUpdate.completed toAmount outboundTx).set now' (DexSwapUpdate.crediting.set now r))

def refundable (s : DexSwapStatus) : Prop := s ≠ .refunded ∧ s ≠ .completed ∧ s ≠ .crediting

def Refunds (id : Uuid) (reason : String) (v v' : DexView) : Prop :=
  ∃ (r : DexSwap) (w : Uuid) (n : ℤ) (now now' : Time), v.row = some r ∧ refundable r.status ∧
    v.coinOf w = some r.fromCoin ∧ numeric39 (r.fromAmount : ℚ) = some n ∧
    v' = ((v.setRow ((DexSwapUpdate.refunding reason).set now r)).addLeg
      ((dexSwapRefund w id r.fromAmount reason).entry n)).setRow
      (DexSwapUpdate.refunded.set now' ((DexSwapUpdate.refunding reason).set now r))

/-! ## Plans for one swap -/

section
variable {i : Uuid} {cond : Db dexExt → DexHist → DexEvent → Prop}

/-- The plan takes no notice of what the functions on the orders do but for the
moves they commit, and processes may rely on the coins of the wallets. -/
structure Plan.Plain (P : Plan (dexFocus i) cond) : Prop where
  coinOf : ∀ p v h v' h', P.rel p v h v' h' → v'.coinOf = v.coinOf
  commit : ∀ p, P.quiet (.did p .commit (.ok ()))
  update : ∀ p j u r, P.quiet (.did p (.pool (.ext (.update j u))) r)
  find : ∀ p key r, P.quiet (.did p (.pool (.ext (.findByIdempotency key))) r)
  newUuid : ∀ p r, P.quiet (.did p (.call .newUuid) r)

variable {P : Plan (dexFocus i) cond} {p : Nat} {B : DexHist → Prop}
variable {f : DexView → DexView} {A : Plan.KeyAssertion dexExt}

theorem Plan.Plain.coinOf_eq (hP : P.Plain) {db db' : Db dexExt} {h h' : DexHist}
    (hr : P.rows.rel p db h db' h') : (dexSee i db').coinOf = (dexSee i db).coinOf :=
  hP.coinOf _ _ _ _ _ hr.2

/-- The coin of a wallet does not change. -/
theorem keeps_coinOf (hP : P.Plain) (φ : (Uuid → Option Coin) → Prop) :
    P.Keeps p fun _ db _ => φ (dexSee i db).coinOf where
  framed :=
    { stable := fun ws ks db h db' h' hg _ hr _ _ => by
        show φ (dexSee i db').coinOf
        rw [hP.coinOf_eq hr]
        exact hg
      own := fun _ _ _ _ _ _ _ hg => hg }
  mono _ _ _ _ hg := hg

theorem walletOf_coin {c : Core} {userId w : Uuid} {coin : Coin} {kind : WalletKind}
    (h : c.walletOf userId coin kind = some w) : (c.wallets.lookup w).map Wallet.coin = some coin := by
  obtain ⟨u, hu, -, hcoin, -⟩ := Core.wallet_of_walletOf h
  rw [hu, Option.map_some, hcoin]

theorem triple_personalWallet (hP : P.Plain) (hA : P.Keeps p A) (hf : ∀ v, (f v).coinOf = v.coinOf)
    (userId : Uuid) (coin : Coin) :
    P.Keeping p (InTx p (Plan.Eff (dexFocus i) f A)) (personalWallet userId coin)
      (outcome (fun w => InTx p (Plan.Eff (dexFocus i) f fun ks db h =>
        A ks db h ∧ (dexSee i db).coinOf w = some coin)) fun _ => InTx p fun _ => A) := by
  have aside : (dexFocus i).Aside (.core (.walletOf userId coin .personal)) :=
    Focus.aside_core _ (ignoresQueue_dexFocus i) (by simp) (by simp)
  let φ (a : Option Uuid) : Plan.KeyAssertion dexExt := fun _ db _ =>
    ∀ w, a = some w → (dexSee i db).coinOf w = some coin
  have hφ (a : Option Uuid) : P.Keeps p (φ a) :=
    keeps_coinOf hP fun c => ∀ w, a = some w → c w = some coin
  have read : P.Keeping p (InTx p (Plan.Eff (dexFocus i) f A))
      (coreQuery (.walletOf userId coin .personal) : DexSwaps DexSwapError (Option Uuid))
      (outcome (fun a => InTx p (Plan.Eff (dexFocus i) f fun ks db h => A ks db h ∧ φ a ks db h))
        fun _ => InTx p fun _ => A) := by
    refine Plan.triple_reading (.core (.walletOf userId coin .personal)) (by simp) aside hA hφ ?_
    intro ws ks db h a ws' _ hg he w ha
    obtain ⟨rfl, -⟩ := core_eval_one rfl he
    have hc : (dexSee i (viewOf ws db)).coinOf w = some coin := walletOf_coin ha
    have hs : dexSee i (viewOf ws db) = f (dexSee i db) := hg.see
    rw [hs, hf] at hc
    exact hc
  refine .bind read (fun a => ?_) fun _ _ _ h => h
  cases a with
  | none => exact .throw fun c _ ⟨t, ht, hg⟩ => ⟨t, ht, hg.left.1⟩
  | some w =>
    exact .ret fun c _ ⟨t, ht, hg⟩ => ⟨t, ht, hg.acts, hg.wallets, hg.left.1, hg.left.2 w rfl⟩

/-- An update of the row, which is `r` as the transaction sees it. -/
theorem triple_setRow (hA : P.Keeps p A) {u : DexSwapUpdate} {r : DexSwap} (hu : u.guard r.status)
    (hr : ∀ ks db h, A ks db h → (f (dexSee i db)).row = some r) :
    P.Keeping p (InTx p (Plan.Eff (dexFocus i) f A)) (setRow i u)
      (outcome (fun _ c => ∃ now, InTx p (Plan.Eff (dexFocus i)
        (DexView.setRow (u.set now r) ∘ f) A) c) fun _ => InTx p fun _ => A) := by
  have update : P.Keeping p (InTx p (Plan.Eff (dexFocus i) f A))
      (dexQuery (.update i u) : DexSwaps DexSwapError (Option DexSwap))
      (outcome (fun _ c => ∃ now, InTx p (Plan.Eff (dexFocus i)
        (DexView.setRow (u.set now r) ∘ f) A) c) fun _ => InTx p fun _ => A) := by
    refine Plan.triple_effect (P := P) (.ext (DexStmt.update i u)) not_entry hA (fun _ _ => hA) ?_
    intro ws ks db h a ws' _ hg he
    have hview : (viewOf ws db).ext.dexSwaps.lookup i = some r := by
      have hs : dexSee i (viewOf ws db) = f (dexSee i db) := hg.see
      show (dexSee i (viewOf ws db)).row = some r
      rw [hs]
      exact hr ks db h hg.left
    rcases dexUpdate_ok he with ⟨r', now, hr', -, rfl, rfl⟩ | ⟨hn, -, -⟩
    · obtain rfl : r' = r := Option.some.inj (hr'.symm.trans hview)
      exact ⟨now, funext fun v => if_pos rfl, hA.mono _ _ _ _ hg.left⟩
    · rw [hn r hview] at hu
      cases hu
  exact .bind update (fun _ => .ret fun _ _ h => h) fun _ _ _ h => h

def RowLocked (j : Uuid) (r : DexSwap) : Plan.KeyAssertion dexExt := fun ks db _ =>
  Key.ext (X := dexExt) (DexKey.row j) ∈ ks ∧ db.ext.dexSwaps.lookup j = some r

def RowRead (i : Uuid) : Option DexSwap → Plan.KeyAssertion dexExt
  | some r => RowLocked i r
  | none => fun _ _ _ => True

theorem triple_lockedRow (hA : P.Keeps p A) :
    P.Keeping p (InTx p (Plan.Eff (dexFocus i) id A)) (lockedRow i)
      (outcome (fun r => InTx p (Plan.Eff (dexFocus i) id fun ks db h =>
        A ks db h ∧ RowLocked i r ks db h)) fun _ => InTx p fun _ => A) := by
  have hread : ∀ a, P.Keeps p (RowRead i a) := by
    intro a
    cases a with
    | none => exact Plan.keeps_fact True
    | some r => exact Plan.keeps_row (.ext (X := dexExt) (DexKey.row i)) (· = some r)
  have read : P.Keeping p (InTx p (Plan.Eff (dexFocus i) id A))
      (dexQuery (.selectForUpdate i) : DexSwaps DexSwapError (Option DexSwap))
      (outcome (fun a => InTx p (Plan.Eff (dexFocus i) id fun ks db h =>
        A ks db h ∧ RowRead i a ks db h))
        fun _ => InTx p fun _ => A) := by
    have aside : (dexFocus i).Aside (.ext (DexStmt.selectForUpdate i)) := dexAside trivial
    refine Plan.triple_reading (P := P) (.ext (DexStmt.selectForUpdate i)) not_entry aside hA hread ?_
    intro ws ks db h a ws' _ hg he
    obtain ⟨ha, -⟩ := ext_eval_one rfl he
    cases a with
    | none => trivial
    | some r =>
    have hs : dexSee i (viewOf ws db) = dexSee i db := hg.see
    refine ⟨List.mem_append_right _ (List.mem_map_of_mem ?_), ?_⟩
    · show DexKey.row i ∈ if ((viewOf ws db).ext.dexSwaps.lookup i).isSome then _ else _
      rw [← ha]
      exact List.mem_singleton_self _
    · exact (congrArg DexView.row hs).symm.trans ha.symm
  refine .bind read (fun a => ?_) fun _ _ _ h => h
  cases a with
  | none => exact .throw fun c _ ⟨t, ht, hg⟩ => ⟨t, ht, hg.left.1⟩
  | some r =>
    exact .ret fun c _ ⟨t, ht, hg⟩ => ⟨t, ht, hg.acts, hg.wallets, hg.left⟩

end

end SatsPay
