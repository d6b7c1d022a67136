import SatsPay.Focus
import SatsPay.House
import SatsPay.Parts

/-!
# The entries of one kind of reference

A part of the system enters in the ledger what its rows say, with references to them.
`refFocus` sees the tables of the part, the wallets and the entries that refer to it, and
`Tallied` says that the entries of each row are those that it should have.
-/

namespace SatsPay

open Interleave ReadCommitted RowProtocol

/-! ## What is seen -/

structure RefView (A : Ext) where
  wallets : Table Wallet
  entries : List LedgerEntry
  part : A.Db

namespace RefView

variable {A : Ext}

def addEntry (e : LedgerEntry) (v : RefView A) : RefView A := { v with entries := e :: v.entries }

def write (w : A.Write) (v : RefView A) : RefView A := { v with part := A.apply w v.part }

@[simp] theorem addEntry_wallets (e : LedgerEntry) (v : RefView A) :
    (v.addEntry e).wallets = v.wallets := rfl
@[simp] theorem addEntry_entries (e : LedgerEntry) (v : RefView A) :
    (v.addEntry e).entries = e :: v.entries := rfl
@[simp] theorem addEntry_part (e : LedgerEntry) (v : RefView A) :
    (v.addEntry e).part = v.part := rfl
@[simp] theorem write_wallets (w : A.Write) (v : RefView A) : (v.write w).wallets = v.wallets := rfl
@[simp] theorem write_entries (w : A.Write) (v : RefView A) : (v.write w).entries = v.entries := rfl
@[simp] theorem write_part (w : A.Write) (v : RefView A) :
    (v.write w).part = A.apply w v.part := rfl

def entriesOf (v : RefView A) (id : Uuid) : List LedgerEntry :=
  v.entries.filter fun e => e.referenceId == some id

end RefView

section
variable {A B : Ext} {kind : String}

def refSee (kind : String) (db : Db (A.sum B)) : RefView A where
  wallets := db.core.wallets
  entries := db.core.ledger.filter fun e => e.referenceType == some kind
  part := db.ext.1

def refAct (kind : String) : Write (A.sum B) → RefView A → RefView A
  | .ext (.inl w), v => v.write w
  | .core (.addEntry e), v => if e.referenceType == some kind then v.addEntry e else v
  | .core (.putWallet i w), v => { v with wallets := v.wallets.insert i w }
  | _, v => v

theorem refSee_apply (w : Write (A.sum B)) (db : Db (A.sum B)) :
    refSee kind (w.apply db) = refAct kind w (refSee kind db) := by
  cases w with
  | ext w => cases w <;> rfl
  | core w =>
    cases w with
    | addEntry e =>
      show RefView.mk _ ((e :: db.core.ledger).filter _) _ = if _ then _ else _
      rw [List.filter_cons]
      split <;> rfl
    | putWallet | putJob | addOutbox | addAudit => rfl

theorem refSee_tick (db db' : Db (A.sum B)) (h : db.tick db') : refSee kind db' = refSee kind db := by
  obtain ⟨t, -, rfl⟩ := h
  rfl

def refFocus (A B : Ext) (kind : String) : Focus (A.sum B) where
  View := RefView A
  see := refSee kind
  act := refAct kind
  see_apply := refSee_apply
  see_tick := refSee_tick

theorem refFocus_ignoresQueue : (refFocus A B kind).IgnoresQueue :=
  ⟨fun _ _ => rfl, fun _ => rfl, fun _ => rfl⟩

theorem refFocus_entry {input : LedgerCreditInput} (h : input.referenceType = some kind) (n : ℤ) :
    (refFocus A B kind).act (.core (.addEntry (input.entry n))) = RefView.addEntry (input.entry n) :=
  funext fun _ => if_pos (by simp [LedgerCreditInput.entry, h])

/-- The other part is not seen. -/
theorem refFocus_right (st : B.Stmt) : (refFocus A B kind).Aside (.ext (.inr st)) := by
  intro db a ws he
  obtain ⟨ws₁, h₁, rfl⟩ := ext_eval_ok he
  obtain ⟨ws₂, -, rfl⟩ := Ext.sumEval_inr h₁
  clear he h₁
  induction ws₂ with
  | nil => rfl
  | cons w ws ih => exact ih

/-- Nor is what only reads. -/
theorem refFocus_leftReads {st : A.Stmt}
    (h : ∀ c db a ws, .ok (a, ws) ∈ A.eval st c db → ws = []) :
    (refFocus A B kind).Aside (.ext (.inl st)) := by
  refine Focus.aside_of_reads _ fun db a ws he => ?_
  obtain ⟨ws₁, h₁, rfl⟩ := ext_eval_ok he
  obtain ⟨ws₂, h₂, rfl⟩ := Ext.sumEval_inl h₁
  rw [h _ _ _ _ h₂]
  rfl

end

/-! ## Wallets -/

def walletIn (wallets : Table Wallet) (userId : Uuid) (coin : Coin) (kind : WalletKind) :
    Option Uuid :=
  (wallets.entries.find? fun w =>
    w.2.userId == userId && w.2.coin == coin && w.2.kind == kind).map Sigma.fst

theorem lookup_of_walletIn {wallets : Table Wallet} {userId id : Uuid} {coin : Coin}
    {kind : WalletKind} (h : walletIn wallets userId coin kind = some id) :
    ∃ w, wallets.lookup id = some w ∧ w.userId = userId ∧ w.coin = coin ∧ w.kind = kind :=
  Core.wallet_of_walletOf (c := ⟨0, wallets, [], ∅, [], []⟩) h

/-! ## What a transaction learns -/

namespace Plan

section
variable {X : Ext} {F : Focus X}
variable {cond : Db X → Hist (sig (satsPay X)) → Event (sig (satsPay X)) → Prop}
variable {P : Plan F cond} {p : Nat} {f : F.View → F.View} {A : KeyAssertion X} {ε ε' α β : Type}

/-- A fact beside what a transaction keeps. -/
theorem of_fact {φ : Prop} {x : Code (satsPay X) ε α} {Q : Except ε α → Conf (machine (satsPay X)) → Prop}
    (h : φ → P.Keeping p (InTx p (Eff F f A)) x Q) :
    P.Keeping p (InTx p (Eff F f fun ks db h => A ks db h ∧ φ)) x Q := by
  intro c hi ⟨t, ht, hg⟩
  exact h hg.left.2 c hi ⟨t, ht, hg.acts, hg.wallets, hg.left.1⟩

/-- What has happened. -/
theorem knows_seen (e : Event (sig (satsPay X))) : P.Knows p fun h => e ∈ h where
  stable := by
    rintro db h db' _ he - ⟨l, rfl, -⟩ -
    exact List.mem_append_right _ he
  own _ _ _ _ _ he := List.mem_cons_of_mem _ he

theorem keeps_seen (e : Event (sig (satsPay X))) : P.Keeps p fun _ _ h => e ∈ h :=
  keeps_of_framed (knows_seen e)

/-- In a transaction that has done `f`, `x` writes nothing that is seen, and its result is
as `φ` says. -/
def Learns (P : Plan F cond) (p : Nat) (f : F.View → F.View) (x : Code (satsPay X) ε α)
    (φ : α → Prop) : Prop :=
  ∀ A, P.Keeps p A → P.Keeping p (InTx p (Eff F f A)) x
    (outcome (fun a => InTx p (Eff F f fun ks db h => A ks db h ∧ φ a)) fun _ => InTx p fun _ => A)

theorem Learns.ret {a : α} {φ : α → Prop} (h : φ a) :
    P.Learns p f (.ret a : Code (satsPay X) ε α) φ :=
  fun _ _ => .ret fun _ _ hc => inTx_imp (fun _ _ _ ha => ⟨ha, h⟩) hc

theorem Learns.throw (e : ε) {φ : α → Prop} : P.Learns p f (.throw e : Code (satsPay X) ε α) φ :=
  fun _ _ => .throw fun _ _ ⟨t, ht, hg⟩ => ⟨t, ht, hg.left⟩

/-- What is learned may be used by what follows. -/
theorem Learns.then {x : Code (satsPay X) ε α} {φ : α → Prop} {g : α → Code (satsPay X) ε β}
    {T : β → Conf (machine (satsPay X)) → Prop} (hx : P.Learns p f x φ) (hA : P.Keeps p A)
    (hg : ∀ a, φ a → P.Keeping p (InTx p (Eff F f A)) (g a) (outcome T fun _ => InTx p fun _ => A)) :
    P.Keeping p (InTx p (Eff F f A)) (x >>= g) (outcome T fun _ => InTx p fun _ => A) :=
  Protocol.Triple.bind (hx A hA) (fun a => of_fact (hg a)) fun _ _ _ h => h

theorem Learns.over {x : Code (satsPay X) ε α} {φ : α → Prop} {g : α → Code (satsPay X) ε β}
    {B : Assertion X} (hx : P.Learns p f x φ) (hA : P.Keeps p A) (hAB : ∀ ks db h, A ks db h → B db h)
    (hg : ∀ a, φ a → P.Keeping p (InTx p (Eff F f A)) (g a) fun _ => Over B) :
    P.Keeping p (InTx p (Eff F f A)) (x >>= g) fun _ => Over B :=
  bind_left (hx A hA) (fun a => of_fact (hg a)) hAB

theorem Learns.bind {x : Code (satsPay X) ε α} {φ : α → Prop} {g : α → Code (satsPay X) ε β}
    {ψ : β → Prop} (hx : P.Learns p f x φ) (hg : ∀ a, φ a → P.Learns p f (g a) ψ) :
    P.Learns p f (x >>= g) ψ :=
  fun _ hA => hx.then hA fun a ha => hg a ha _ hA

theorem Learns.mapErr {x : Code (satsPay X) ε α} {φ : α → Prop} (hx : P.Learns p f x φ)
    (g : ε → ε') : P.Learns p f (x.mapErr g) φ :=
  fun A hA => triple_mapErr (hx A hA) fun _ _ h => h

variable [FromErr DbError ε]

/-- A statement that only reads, of which the invariant tells the answer. -/
theorem learns_query (st : Stmt X) (hst : ∀ input, st ≠ .core (.insertLedgerEntry input))
    (ha : F.Aside st) {φ : st.Ans → Prop}
    (hok : ∀ ws db h a ws', P.inv (F.see db) h → F.see (viewOf ws db) = f (F.see db) →
      .ok (a, ws') ∈ (satsPay X).eval st (viewOf ws db) → φ a) :
    P.Learns p f (query st : Code (satsPay X) ε _) φ :=
  fun _ hA => triple_reading st hst ha hA (fun a => keeps_fact (φ a))
    fun ws _ db h a ws' hi hg he => hok ws db h a ws' hi hg.see he

omit [FromErr DbError ε] in
/-- A call, and what may be assumed of its reply. -/
theorem triple_call_fact (hA : P.Keeps p A) (cl : X.Call) (hq : ∀ r, P.quiet (.did p (.call cl) r))
    {φ : X.Reply cl → Prop}
    (hφ : ∀ ks db h r, A ks db h → cond db h (.did p (.call cl) r) → φ r) :
    P.Keeping p (InTx p (Eff F f A)) (invoke (S := satsPay X) cl : Code (satsPay X) ε _)
      (outcome (fun r => InTx p (Eff F f fun ks db h => A ks db h ∧ φ r))
        fun _ => InTx p fun _ => A) := by
  refine .conseq (triple_invokeTx (S := satsPay X) cl
    (H := fun r => Eff F f fun ks db h => A ks db h ∧ φ r)
    (fun r => (framed_eff (hA.and (keeps_fact (φ r)))).stable) ?_)
    (fun _ _ h => h) fun r _ _ h => match r with
      | .ok _ => h
      | .error _ => h.elim
  intro ws ks db h r hi hg hc
  refine ⟨⟨P.inv_quiet (hq r) hi, fun q hne => ⟨fun _ => rfl,
    P.rel_quiet (hq r) hi (by simpa using Ne.symm hne)⟩⟩, ?_⟩
  have hg' := (framed_eff hA).own _ _ _ _ _ (hq r) rfl hg
  exact ⟨hg'.acts, hg'.wallets, hg'.left, hφ ks db h r hg.left hc⟩

omit [FromErr DbError ε] in
/-- A call, which is remembered. -/
theorem triple_call_seen (hA : P.Keeps p A) (cl : X.Call)
    (hq : ∀ r, P.quiet (.did p (.call cl) r)) :
    P.Keeping p (InTx p (Eff F f A)) (invoke (S := satsPay X) cl : Code (satsPay X) ε _)
      (outcome (fun r => InTx p (Eff F f fun ks db h =>
        A ks db h ∧ (Event.did p (.call cl) r : Event (sig (satsPay X))) ∈ h))
        fun _ => InTx p fun _ => A) := by
  refine .conseq (triple_invokeTx (S := satsPay X) cl
    (H := fun r => Eff F f fun ks db h =>
      A ks db h ∧ (Event.did p (.call cl) r : Event (sig (satsPay X))) ∈ h)
    (fun r => (framed_eff (hA.and (keeps_seen _))).stable) ?_)
    (fun _ _ h => h) fun r _ _ h => match r with
      | .ok _ => h
      | .error _ => h.elim
  intro ws ks db h r hi hg _
  refine ⟨⟨P.inv_quiet (hq r) hi, fun q hne => ⟨fun _ => rfl,
    P.rel_quiet (hq r) hi (by simpa using Ne.symm hne)⟩⟩, ?_⟩
  have hg' := (framed_eff hA).own _ _ _ _ _ (hq r) rfl hg
  exact ⟨hg'.acts, hg'.wallets, hg'.left, List.mem_cons_self⟩

omit [FromErr DbError ε] in
/-- The lock of a wallet that there is. -/
theorem triple_lockWallet_held {g : LedgerError → ε} (hA : P.Keeps p A) {walletId : Uuid}
    (hw : ∀ db h, P.inv (F.see db) h → (db.core.wallets.lookup walletId).isSome) :
    P.Keeping p (InTx p (Eff F f A)) ((lockWallet walletId).mapErr g : Code (satsPay X) ε _)
      (outcome (fun _ => InTx p (Eff F f fun ks db h => A ks db h ∧ Key.core walletId ∈ ks))
        fun _ => InTx p fun _ => A) := by
  refine triple_mapErr (.conseq (SatsPay.triple_lockWallet keepsWallets_rows walletId (framed_eff hA)
    (fun _ => hA.framed) (fun _ _ _ _ _ hg => ⟨hg.acts, hg.wallets, hA.mono _ _ _ _ hg.left⟩)
    fun _ _ _ _ _ _ hg => ⟨hg.left, hg.left⟩) (fun _ _ h => h) fun r c hi h => ?_) fun _ _ h => h
  cases r with
  | ok _ =>
    obtain ⟨t, ht, hg, hl⟩ := h
    refine ⟨t, ht, hg.acts, hg.wallets, hg.left, hl ?_⟩
    rw [hg.wallets]
    exact hw _ _ hi.2
  | error _ => exact h

end

/-! ## Wallets that stay -/

section
variable {A' B' : Ext} {kind : String} {p : Nat} {ε : Type}
variable {cond : Db (A'.sum B') → Hist (sig (satsPay (A'.sum B'))) →
  Event (sig (satsPay (A'.sum B'))) → Prop}
variable {P : Plan (refFocus A' B' kind) cond} {wallets : Table Wallet}
variable {f : RefView A' → RefView A'} {A : KeyAssertion (A'.sum B')}

theorem learns_walletOf [FromErr DbError ε] (hw : ∀ v h, P.inv v h → v.wallets = wallets)
    (hf : ∀ v, (f v).wallets = v.wallets) (userId : Uuid) (coin : Coin) (wk : WalletKind) :
    P.Learns p f (coreQuery (.walletOf userId coin wk) : Code (satsPay (A'.sum B')) ε _)
      fun a => a = walletIn wallets userId coin wk := by
  refine learns_query _ (by rintro input ⟨⟩)
    (Focus.aside_core _ refFocus_ignoresQueue (by rintro input ⟨⟩) (by rintro i ⟨⟩)) ?_
  intro ws db h a ws' hi hv he
  obtain ⟨rfl, -⟩ := core_eval_one rfl he
  have hv' : (viewOf ws db).core.wallets = wallets :=
    (congrArg RefView.wallets hv).trans ((hf _).trans (hw _ _ hi))
  show walletIn (viewOf ws db).core.wallets userId coin wk = _
  rw [hv']

/-- A statement of the part that answers one value and writes nothing. -/
theorem triple_leftReading [FromErr DbError ε] (st : A'.Stmt) {val : A'.Db → A'.Ans st}
    (hval : ∀ c db, A'.eval st c db = [.ok (val db, [])]) (hf : ∀ v, val (f v).part = val v.part)
    {φ : A'.Ans st → KeyAssertion (A'.sum B')} (hA : P.Keeps p A) (hφ : ∀ a, P.Keeps p (φ a))
    (hok : ∀ ks ks' db h, P.inv (refSee kind db) h → A ks db h →
      φ (val (refSee kind db).part) (ks ++ ks') db h) :
    P.Keeping p (InTx p (Eff (refFocus A' B' kind) f A))
      (leftQuery st : Code (satsPay (A'.sum B')) ε _)
      (outcome (fun a => InTx p (Eff (refFocus A' B' kind) f fun ks db h => A ks db h ∧ φ a ks db h))
        fun _ => InTx p fun _ => A) := by
  refine triple_reading (Stmt.ext (Sum.inl st) : Stmt (A'.sum B')) (by rintro input ⟨⟩)
    (refFocus_leftReads fun c db a ws h => ?_) hA hφ ?_
  · rw [hval] at h
    cases List.mem_singleton.1 h
    rfl
  · intro ws ks db h a ws' hi hg he
    obtain ⟨ws₁, h₁, -⟩ := ext_eval_ok he
    obtain ⟨ws₂, h₂, -⟩ := Ext.sumEval_inl h₁
    rw [hval] at h₂
    cases List.mem_singleton.1 h₂
    have hv : val (viewOf ws db).ext.1 = val (refSee kind db).part :=
      (congrArg (fun v : RefView A' => val v.part) hg.see).trans (hf _)
    rw [hv]
    exact hok ks _ db h hi hg.left

theorem learns_left [FromErr DbError ε] (st : A'.Stmt) {val : A'.Db → A'.Ans st}
    (hval : ∀ c db, A'.eval st c db = [.ok (val db, [])]) (hf : ∀ v, val (f v).part = val v.part)
    {φ : A'.Ans st → Prop} (hφ : ∀ v h, P.inv v h → φ (val v.part)) :
    P.Learns p f (leftQuery st : Code (satsPay (A'.sum B')) ε _) φ :=
  fun _ hA => triple_leftReading st hval hf hA (fun a => keeps_fact (φ a))
    fun _ _ _ _ hi _ => hφ _ _ hi

/-- A statement of the part that writes nothing, whatever it answers. -/
theorem aloof_left [FromErr DbError ε] (st : A'.Stmt)
    (hst : ∀ c db a ws, .ok (a, ws) ∈ A'.eval st c db → ws = []) :
    P.Aloof p (leftQuery st : Code (satsPay (A'.sum B')) ε _) :=
  aloof_query (Stmt.ext (Sum.inl st) : Stmt (A'.sum B')) (by rintro input ⟨⟩) (refFocus_leftReads hst)

theorem aloof_right [FromErr DbError ε] (st : B'.Stmt) :
    P.Aloof p (rightQuery st : Code (satsPay (A'.sum B')) ε _) :=
  aloof_query (Stmt.ext (Sum.inr st) : Stmt (A'.sum B')) (by rintro input ⟨⟩) (refFocus_right st)

variable {findHouseId : Code (satsPay (A'.sum B')) HouseError (Option Uuid)} {house : Option Uuid}

theorem learns_getHouseWalletId (hw : ∀ v h, P.inv v h → v.wallets = wallets)
    (hf : ∀ v, (f v).wallets = v.wallets) (hh : P.Learns p f findHouseId fun a => a = house)
    (coin : Coin) :
    P.Learns p f (getHouseWalletId findHouseId coin)
      fun id => house.bind (walletIn wallets · coin .house) = some id := by
  refine hh.bind fun a ha => ?_
  subst ha
  cases a with
  | none => exact .throw _
  | some houseId =>
    refine (learns_walletOf hw hf houseId coin .house).bind fun w hw => ?_
    cases w with
    | none => exact .throw _
    | some id => exact .ret hw.symm

/-- An entry of the row `id` in the wallet of the house. -/
theorem triple_houseEntry (hA : P.Keeps p A) {φ : Uuid → Prop} {coin : Coin}
    (hw : P.Learns p f (getHouseWalletId findHouseId coin) φ) (amount : ℚ) (type : LedgerType)
    (id : Uuid) (memo : String) {g : LedgerError → HouseError} {g' : HouseError → ε} :
    P.Keeping p (InTx p (Eff (refFocus A' B' kind) f A))
      ((getHouseWalletId findHouseId coin >>= fun w =>
        (applyLedgerEntry (referenced w amount type id kind memo)).mapErr g).mapErr g')
      (outcome (fun _ c => ∃ w n, φ w ∧ numeric39 amount = some n ∧
        InTx p (Eff (refFocus A' B' kind)
          (RefView.addEntry ((referenced w amount type id kind memo).entry n) ∘ f) A) c)
        fun _ => InTx p fun _ => A) := by
  refine triple_mapErr (hw.then hA fun w hw => .conseq (triple_apply hA) (fun _ _ h => h)
    fun r c _ h => ?_) fun _ _ h => h
  cases r with
  | error _ => exact h
  | ok _ =>
    obtain ⟨n, hn, h⟩ := h
    refine ⟨w, n, hw, hn, ?_⟩
    rw [refFocus_entry (show (referenced w amount type id kind memo).referenceType = _ from rfl)] at h
    exact inTx_imp (fun _ _ _ h => h.1) h

theorem triple_debitHouse (hA : P.Keeps p A) {φ : Uuid → Prop} {coin : Coin}
    (hw : P.Learns p f (getHouseWalletId findHouseId coin) φ) {amount : ℚ} (hne : amount ≠ 0)
    (type : LedgerType) (id : Uuid) (memo : String) {g' : HouseError → ε} :
    P.Keeping p (InTx p (Eff (refFocus A' B' kind) f A))
      ((debitHouse findHouseId coin amount type id kind memo).mapErr g')
      (outcome (fun _ c => ∃ w n, φ w ∧ numeric39 (-amount) = some n ∧
        InTx p (Eff (refFocus A' B' kind)
          (RefView.addEntry ((referenced w (-amount) type id kind memo).entry n) ∘ f) A) c)
        fun _ => InTx p fun _ => A) := by
  unfold debitHouse
  rw [if_neg hne]
  exact triple_houseEntry hA hw _ type id memo

theorem triple_creditHouse (hA : P.Keeps p A) {φ : Uuid → Prop} {coin : Coin}
    (hw : P.Learns p f (getHouseWalletId findHouseId coin) φ) {amount : ℚ} (hne : amount ≠ 0)
    (type : LedgerType) (id : Uuid) (memo : String) {g' : HouseError → ε} :
    P.Keeping p (InTx p (Eff (refFocus A' B' kind) f A))
      ((creditHouse findHouseId coin amount type id kind memo).mapErr g')
      (outcome (fun _ c => ∃ w n, φ w ∧ numeric39 amount = some n ∧
        InTx p (Eff (refFocus A' B' kind)
          (RefView.addEntry ((referenced w amount type id kind memo).entry n) ∘ f) A) c)
        fun _ => InTx p fun _ => A) := by
  unfold creditHouse
  rw [if_neg hne]
  exact triple_houseEntry hA hw _ type id memo

/-- An entry of the row `id` in another wallet, the first of its kind there. -/
theorem triple_rowEntry_fresh (hA : P.Keeps p A) (w : Uuid) (amount : ℚ) (type : LedgerType)
    (id : Uuid) (memo : String) {g : LedgerError → ε} :
    P.Keeping p (InTx p (Eff (refFocus A' B' kind) f A))
      ((applyLedgerEntry (referenced w amount type id kind memo)).mapErr g)
      (outcome (fun _ c => ∃ n, numeric39 amount = some n ∧
        InTx p (Eff (refFocus A' B' kind)
          (RefView.addEntry ((referenced w amount type id kind memo).entry n) ∘ f) fun ks db h =>
            A ks db h ∧ Fresh ((referenced w amount type id kind memo).entry n) ks db h) c)
        fun _ => InTx p fun _ => A) := by
  refine .conseq (triple_apply_fresh hA) (fun _ _ h => h) fun r c _ h => ?_
  cases r with
  | error _ => exact h
  | ok _ =>
    obtain ⟨n, hn, h⟩ := h
    refine ⟨n, hn, ?_⟩
    rwa [refFocus_entry (show (referenced w amount type id kind memo).referenceType = _ from rfl)] at h

theorem triple_rowEntry (hA : P.Keeps p A) (w : Uuid) (amount : ℚ) (type : LedgerType) (id : Uuid)
    (memo : String) {g : LedgerError → ε} :
    P.Keeping p (InTx p (Eff (refFocus A' B' kind) f A))
      ((applyLedgerEntry (referenced w amount type id kind memo)).mapErr g)
      (outcome (fun _ c => ∃ n, numeric39 amount = some n ∧
        InTx p (Eff (refFocus A' B' kind)
          (RefView.addEntry ((referenced w amount type id kind memo).entry n) ∘ f) A) c)
        fun _ => InTx p fun _ => A) := by
  refine .conseq (triple_rowEntry_fresh hA w amount type id memo) (fun _ _ h => h) fun r c _ h => ?_
  cases r with
  | error _ => exact h
  | ok _ =>
    obtain ⟨n, hn, h⟩ := h
    exact ⟨n, hn, inTx_imp (fun _ _ _ h => h.1) h⟩

end

end Plan

/-! ## What the rows say -/

def Tallied {A : Ext} {R : Type} (rows : A.Db → Uuid → Option R)
    (ok : Uuid → Option R → List LedgerEntry → Prop) (v : RefView A) : Prop :=
  ∀ id, ok id (rows v.part id) (v.entriesOf id)

/-- A step that changes one row, and enters what belongs to it. -/
theorem Tallied.step {A : Ext} {R : Type} {rows : A.Db → Uuid → Option R}
    {ok : Uuid → Option R → List LedgerEntry → Prop} {v v' : RefView A} (hv : Tallied rows ok v)
    {id : Uuid} {added : List LedgerEntry} (hrows : ∀ j, j ≠ id → rows v'.part j = rows v.part j)
    (hentries : v'.entries = added ++ v.entries) (hadded : ∀ e ∈ added, e.referenceId = some id)
    (hok : ok id (rows v'.part id) (added ++ v.entriesOf id)) : Tallied rows ok v' := by
  intro j
  by_cases hj : j = id
  · subst hj
    have : v'.entriesOf j = added ++ v.entriesOf j := by
      simp only [RefView.entriesOf, hentries, List.filter_append]
      rw [List.filter_eq_self.2 fun e he => by simp [hadded e he]]
    rw [this]
    exact hok
  · have : v'.entriesOf j = v.entriesOf j := by
      simp only [RefView.entriesOf, hentries, List.filter_append]
      rw [List.filter_eq_nil_iff.2 fun e he => by simp [hadded e he, Ne.symm hj], List.nil_append]
    rw [this, hrows j hj]
    exact hv j

end SatsPay
