import SatsPay.Ledger
import SatsPay.Script

/-!
# Public API sends

The `POST /v1/public/send` handler and `send_to_user`, and for which amounts a
send can only move money from the sender to the recipient.
-/

namespace SatsPay

open Interleave ReadCommitted RowProtocol

structure User where
  id : Uuid
  email : String
  emailHmac : Option String

structure PublicApiDb where
  users : List User
  /-- `api_daily_send_quotas`: the count of a key on a day. -/
  quotas : AList fun _ : Uuid × Nat => Nat

inductive PublicApiStmt where
  | findUserIdByEmail (hmac email : String)
  | sendCandidates (userId : Uuid) (coin : Coin)
  | reserveSend (apiKeyId : Uuid) (day : Nat) (limit : ℤ)

abbrev PublicApiStmt.Ans : PublicApiStmt → Type
  | .findUserIdByEmail _ _ => Option Uuid
  | .sendCandidates _ _ => List (Uuid × WalletKind × ℤ)
  | .reserveSend _ _ _ => Bool

inductive PublicApiWrite where
  | putQuota (k : Uuid × Nat) (n : Nat)

/-- `Utc::now().date_naive()` -/
inductive Clock where
  | today

/-- `email_hmac = $1 OR lower(email) = lower($2)` -/
def User.matches (u : User) (hmac email : String) : Bool :=
  u.emailHmac == some hmac || u.email.toLower == email.toLower

/-- The MERCHANT and DEVELOPER wallets of a user for a coin, with their balances. -/
def Core.sendCandidates (c : Core) (userId : Uuid) (coin : Coin) : List (Uuid × WalletKind × ℤ) :=
  (c.wallets.entries.filter fun w => w.2.userId == userId && w.2.coin == coin &&
    (w.2.kind == .merchant || w.2.kind == .developer)).map fun w => (w.1, w.2.kind, c.balance w.1)

def PublicApiStmt.eval : (st : PublicApiStmt) → Core → PublicApiDb →
    List (Except DbError (st.Ans × List PublicApiWrite))
  | .findUserIdByEmail hmac email, _, db =>
    -- `LIMIT 1` without an order: any of them
    match db.users.filter fun u => u.matches hmac email with
    | [] => [.ok (none, [])]
    | us => us.map fun u => .ok (some u.id, [])
  | .sendCandidates userId coin, c, _ => [.ok (c.sendCandidates userId coin, [])]
  | .reserveSend apiKeyId day limit, _, db =>
    match db.quotas.lookup (apiKeyId, day) with
    | none => [.ok (true, [.putQuota (apiKeyId, day) 1])]
    | some n =>
      if (n : ℤ) < limit then [.ok (true, [.putQuota (apiKeyId, day) (n + 1)])]
      else [.ok (false, [])]

def PublicApiStmt.locks : PublicApiStmt → Core → PublicApiDb → List (Uuid × Nat)
  | .reserveSend apiKeyId day _, _, _ => [(apiKeyId, day)]
  | _, _, _ => []

def publicApiExt : Ext where
  Db := PublicApiDb
  Key := Uuid × Nat
  Write := PublicApiWrite
  Stmt := PublicApiStmt
  Ans := PublicApiStmt.Ans
  Call := Clock
  Reply _ := Nat
  locks := PublicApiStmt.locks
  eval := PublicApiStmt.eval
  apply | .putQuota k n, db => { db with quotas := db.quotas.insert k n }
  Row _ := Option Nat
  row k db := db.quotas.lookup k
  touches | .putQuota k _ => [k]
  row_apply := by
    rintro k ⟨k', n⟩ db h
    exact AList.lookup_insert_ne (by simpa using h)
  row_congr := by
    rintro k ⟨k', n⟩ db db' h
    by_cases e : k = k'
    · subst e; simp only [AList.lookup_insert]
    · simpa only [AList.lookup_insert_ne e] using h
  covered := by
    intro st c db a ws h w hw k hk
    cases st with
    | findUserIdByEmail hmac email =>
      simp only [PublicApiStmt.eval] at h
      split at h
      · cases List.mem_singleton.1 h; cases hw
      · obtain ⟨u, -, hu⟩ := List.mem_map.1 h; cases hu; cases hw
    | sendCandidates userId coin => cases List.mem_singleton.1 h; cases hw
    | reserveSend apiKeyId day limit =>
      simp only [PublicApiStmt.eval] at h
      split at h
      · cases List.mem_singleton.1 h
        cases List.mem_singleton.1 hw
        exact hk
      · split at h
        · cases List.mem_singleton.1 h
          cases List.mem_singleton.1 hw
          exact hk
        · cases List.mem_singleton.1 h; cases hw

instance : DecidableEq publicApiExt.Key := inferInstanceAs (DecidableEq (Uuid × Nat))

inductive PublicApiError where
  | db (e : DbError)
  /-- `Db(Protocol(..))` with the text of a ledger error, here the error itself. -/
  | ledger (e : LedgerError)
  | missingScope (scope : String)
  | ineligibleTarget
  | sendToSelf
  | walletNotFound
  | dailyLimitReached

instance : FromErr DbError PublicApiError := ⟨.db⟩

abbrev PublicApi (ε α : Type) := Code (satsPay publicApiExt) ε α

def apiQuery (st : PublicApiStmt) : PublicApi PublicApiError st.Ans := extQuery (X := publicApiExt) st
def apiPool (st : PublicApiStmt) : PublicApi PublicApiError st.Ans := extPool (X := publicApiExt) st
def today : PublicApi PublicApiError Nat := invoke (S := satsPay publicApiExt) Clock.today

structure ApiKeyRecord where
  id : Uuid
  userId : Uuid
  scopes : List String

def requireScope (record : ApiKeyRecord) (scope : String) : Except PublicApiError Unit :=
  if record.scopes.any fun s => s == scope || s == "*" then .ok () else .error (.missingScope scope)

/-- The wallet that covers `amount`, MERCHANT before DEVELOPER, else any. -/
def pickWallet (candidates : List (Uuid × WalletKind × ℤ)) (amount : ℚ) : Option Uuid :=
  let pick (kind : WalletKind) (requireCover : Bool) : Option Uuid :=
    (candidates.find? fun c => c.2.1 == kind && (!requireCover || decide (amount ≤ c.2.2))).map
      Prod.fst
  (pick .merchant true).or <| (pick .developer true).or <|
    (pick .merchant false).or (pick .developer false)

def transferOut (fromWallet : Uuid) (amount : ℚ) (refKey toEmail : String) : LedgerCreditInput :=
  ⟨fromWallet, -amount, .transferOut, none, some "PublicApiTransfer", some refKey,
    some ("Send to " ++ toEmail)⟩

def transferIn (toWallet : Uuid) (amount : ℚ) (refKey : String) : LedgerCreditInput :=
  ⟨toWallet, amount, .transferIn, none, some "PublicApiTransfer", some refKey,
    some "Received from public API"⟩

def sendBetween (fromWallet toWallet apiKeyId : Uuid) (toEmail : String) (amount : ℚ)
    (refKey : String) (dailySendLimit : ℤ) : PublicApi PublicApiError String := do
  (lockWallets [fromWallet, toWallet]).mapErr .ledger
  let existing ← coreQuery (.ledgerByReferenceKey "PublicApiTransfer" refKey)
  if existing then do
    commit
    pure refKey
  else do
    let day ← today
    let reserved ← apiQuery (.reserveSend apiKeyId day dailySendLimit)
    if reserved then do
      (applyLedgerEntry (transferOut fromWallet amount refKey toEmail)).mapErr .ledger
      (applyLedgerEntry (transferIn toWallet amount refKey)).mapErr .ledger
      commit
      pure refKey
    else .throw .dailyLimitReached

def sendTx (fromUserId recipientId apiKeyId : Uuid) (coin : Coin) (toEmail : String) (amount : ℚ)
    (refKey : String) (dailySendLimit : ℤ) : PublicApi PublicApiError String := do
  let candidates ← apiQuery (.sendCandidates fromUserId coin)
  let toWallet ← coreQuery (.walletOf recipientId coin .personal)
  match pickWallet candidates amount, toWallet with
  | some fromWallet, some toWallet =>
    sendBetween fromWallet toWallet apiKeyId toEmail amount refKey dailySendLimit
  | _, _ => .throw .walletNotFound

/-- `emailIndex` is the keyed hash of an email. -/
def sendToUser (emailIndex : String → String) (fromUserId apiKeyId : Uuid) (coin : Coin)
    (toEmail : String) (amount : ℚ) (idempotencyKey : String) (dailySendLimit : ℤ) :
    PublicApi PublicApiError String := do
  let recipientId ← apiPool (.findUserIdByEmail (emailIndex toEmail) toEmail)
  match recipientId with
  | none => .throw .ineligibleTarget
  | some recipientId =>
    if recipientId = fromUserId then .throw .sendToSelf
    else do
      let refKey := "pubapi:" ++ toString apiKeyId ++ ":" ++ idempotencyKey
      transaction (sendTx fromUserId recipientId apiKeyId coin toEmail amount refKey dailySendLimit)

structure SendRequest where
  coin : String
  toEmail : String
  amount : String
  idempotencyKey : String

inductive SendResponse where
  | missingScope
  | invalidRequest
  | sent (referenceId : String)
  | failed (e : PublicApiError)

/-- `parseDecimal` is `BigDecimal::from_str`, and `body` the request where it is
well-formed JSON. The owner's notification mail is left out. -/
def send (parseDecimal : String → Option ℚ) (emailIndex : String → String) (dailySendLimit : ℤ)
    (key : ApiKeyRecord) (body : Option SendRequest) : PublicApi Empty SendResponse :=
  match requireScope key "send", body with
  | .error _, _ => pure .missingScope
  | .ok _, none => pure .invalidRequest
  | .ok _, some body =>
    match Coin.fromStr body.coin, parseDecimal body.amount with
    | some coin, some amount => do
      let r ← (sendToUser emailIndex key.userId key.id coin body.toEmail amount
        body.idempotencyKey dailySendLimit).attempt
      match r with
      | .ok reference => pure (.sent reference)
      | .error e => pure (.failed e)
    | _, _ => pure .invalidRequest

theorem findUserIdByEmail_reads {hmac email : String} {c : Core} {db : PublicApiDb}
    {a : Option Uuid} {ws : List PublicApiWrite}
    (h : .ok (a, ws) ∈ (PublicApiStmt.findUserIdByEmail hmac email).eval c db) : ws = [] := by
  simp only [PublicApiStmt.eval] at h
  split at h
  · cases List.mem_singleton.1 h; rfl
  · obtain ⟨u, -, hu⟩ := List.mem_map.1 h; cases hu; rfl

/-! ## What a send does to balances -/

/-- No wallet of the sender gains, and no wallet of another user that the email
names loses. -/
structure MovesForward (fromUserId : Uuid) (hmac email : String) (db db' : Db publicApiExt) :
    Prop where
  sender : ∀ id w, db.core.wallets.lookup id = some w → w.userId = fromUserId →
    db'.core.balance id ≤ db.core.balance id
  recipient : ∀ u ∈ db.ext.users, u.matches hmac email → u.id ≠ fromUserId →
    ∀ id w, db.core.wallets.lookup id = some w → w.userId = u.id →
      db.core.balance id ≤ db'.core.balance id

def Moves (fromWallet toWallet : Uuid) (n : ℤ) (db db' : Db publicApiExt) : Prop :=
  ∀ id, db'.core.balance id = db.core.balance id + (if fromWallet = id then -n else 0) +
    (if toWallet = id then n else 0)

theorem movesForward_of_moves {fromWallet toWallet fromUserId recipientId : Uuid} {n : ℤ}
    {hmac email : String} {db db' : Db publicApiExt} {wf wt : Wallet} (hn : 0 ≤ n)
    (hf : db.core.wallets.lookup fromWallet = some wf) (hfu : wf.userId = fromUserId)
    (ht : db.core.wallets.lookup toWallet = some wt) (htu : wt.userId = recipientId)
    (hne : recipientId ≠ fromUserId) (h : Moves fromWallet toWallet n db db') :
    MovesForward fromUserId hmac email db db' where
  sender id w hw hu := by
    have : toWallet ≠ id := by
      rintro rfl
      rw [ht] at hw; cases hw
      exact hne (htu.symm.trans hu)
    rw [h id, if_neg this]
    split <;> omega
  recipient u _ _ hun id w hw hu := by
    have : fromWallet ≠ id := by
      rintro rfl
      rw [hf] at hw; cases hw
      exact hun (hu.symm.trans hfu)
    rw [h id, if_neg this]
    split <;> omega

theorem wallet_of_mem {c : Core} {id : Uuid} {w : Wallet} (h : (⟨id, w⟩ : Sigma fun _ => Wallet) ∈
    c.wallets.entries) : c.wallets.lookup id = some w := AList.mem_lookup_iff.2 h

theorem wallet_of_pickWallet {c : Core} {userId id : Uuid} {coin : Coin} {amount : ℚ}
    (h : pickWallet (c.sendCandidates userId coin) amount = some id) :
    ∃ w, c.wallets.lookup id = some w ∧ w.userId = userId := by
  have key : ∀ {p : Uuid × WalletKind × ℤ → Bool},
      ((c.sendCandidates userId coin).find? p).map Prod.fst = some id →
      ∃ w, c.wallets.lookup id = some w ∧ w.userId = userId := by
    intro p hp
    obtain ⟨x, hx, rfl⟩ := Option.map_eq_some_iff.1 hp
    obtain ⟨⟨i, w⟩, hw, rfl⟩ := List.mem_map.1 (List.mem_of_find?_eq_some hx)
    obtain ⟨hw, hp⟩ := List.mem_filter.1 hw
    simp only [Bool.and_eq_true, beq_iff_eq] at hp
    exact ⟨w, wallet_of_mem hw, hp.1.1⟩
  simp only [pickWallet, Option.or_eq_some_iff] at h
  rcases h with h | ⟨-, h | ⟨-, h | ⟨-, h⟩⟩⟩ <;> exact key h

/-! ## The amounts that are stored as no less than zero -/

section
variable {db₀ : Db publicApiExt} {amount : ℚ}

def Pending (db₀ : Db publicApiExt) (l : List LedgerEntry) : TxAssertion publicApiExt :=
  fun ws _ db _ => db = db₀ ∧ (viewOf ws db₀).core.ledger = l ++ db₀.core.ledger

theorem framed_pending (l : List LedgerEntry) :
    (solo (satsPay publicApiExt)).FramedTx 0 (Pending db₀ l) :=
  framedTx_solo (S := satsPay publicApiExt) fun ws _ db =>
    db = db₀ ∧ (viewOf ws db₀).core.ledger = l ++ db₀.core.ledger

abbrev Unchanged (db₀ : Db publicApiExt) : TxAssertion publicApiExt := fun _ _ db _ => db = db₀

theorem db_of_inTx {c : Conf (machine (satsPay publicApiExt))} (h : InTx 0 (Unchanged db₀) c) :
    c.s.db = db₀ := by
  obtain ⟨_, _, h⟩ := h; exact h

theorem framed_start : (solo (satsPay publicApiExt)).FramedTx 0 (Unchanged db₀) :=
  framedTx_solo (S := satsPay publicApiExt) fun _ _ db => db = db₀

theorem keepsWallets_solo : KeepsWallets (solo (satsPay publicApiExt)) 0 :=
  fun _ _ _ _ h _ => by rw [h rfl]

theorem triple_apply_pending (input : LedgerCreditInput) (l : List LedgerEntry) :
    (solo (satsPay publicApiExt)).toProtocol.Triple 0 (InTx 0 (Pending db₀ l))
      ((applyLedgerEntry input).mapErr PublicApiError.ledger)
      (outcome (fun _ => InTx 0 fun ws ks db h => ∃ n, numeric39 input.amount = some n ∧
        Pending db₀ (input.entry n :: l) ws ks db h) fun _ => InTx 0 (Unchanged db₀)) := by
  refine triple_mapErr (triple_applyLedgerEntry keepsWallets_solo (framed_pending l) ?_
    (fun _ => framed_start) (fun _ _ _ _ _ h => h) (fun _ _ _ _ _ _ h => ⟨h.1, h.1⟩) ?_)
    fun _ _ h => h
  · exact framedTx_solo (S := satsPay publicApiExt) fun ws _ db =>
      ∃ n, numeric39 input.amount = some n ∧ db = db₀ ∧
        (viewOf ws db₀).core.ledger = (input.entry n :: l) ++ db₀.core.ledger
  · rintro ws ks db h n - ⟨rfl, hl⟩ hn - - -
    refine ⟨n, hn, rfl, ?_⟩
    rw [viewOf, applyAll_append]
    exact congrArg (input.entry n :: ·) hl

def SendPost (fromWallet toWallet : Uuid) (db₀ : Db publicApiExt) :
    Except PublicApiError String → Db publicApiExt → Prop
  | .ok _, db => ∃ n, 0 ≤ n ∧ Moves fromWallet toWallet n db₀ db
  | .error _, db => db = db₀

theorem moves_entries {fromWallet toWallet : Uuid} {n : ℤ} {refKey toEmail : String}
    {db : Db publicApiExt}
    (h : db.core.ledger = (transferIn toWallet amount refKey).entry n ::
      (transferOut fromWallet amount refKey toEmail).entry (-n) :: db₀.core.ledger) :
    Moves fromWallet toWallet n db₀ db := by
  intro id
  simp only [Core.balance, h, sumWhere_cons, LedgerCreditInput.entry, transferIn, transferOut,
    beq_iff_eq]
  omega

theorem triple_sendBetween (hq : ∀ n, numeric39 amount = some n → 0 ≤ n)
    (fromWallet toWallet apiKeyId : Uuid) (toEmail refKey : String) (limit : ℤ) :
    (solo (satsPay publicApiExt)).toProtocol.Triple 0 (InTx 0 (Pending db₀ []))
      (sendBetween fromWallet toWallet apiKeyId toEmail amount refKey limit)
      (fun r => Over fun db _ => SendPost fromWallet toWallet db₀ r db) := by
  have err : ∀ (e : PublicApiError) (c : Conf (machine (satsPay publicApiExt))),
      InTx 0 (Unchanged db₀) c →
      Over (fun db _ => SendPost fromWallet toWallet db₀ (.error e) db) c :=
    fun e c ⟨_, _, h⟩ => h
  have errPending : ∀ (l : List LedgerEntry) (c : Conf (machine (satsPay publicApiExt))),
      InTx 0 (Pending db₀ l) c → Over (fun db _ => db = db₀) c := fun l c ⟨_, _, h⟩ => h.1
  -- committing and answering, with these entries to add
  have finish : ∀ l : List LedgerEntry, (∀ db : Db publicApiExt,
        db.core.ledger = l ++ db₀.core.ledger → ∃ n, 0 ≤ n ∧ Moves fromWallet toWallet n db₀ db) →
      (solo (satsPay publicApiExt)).toProtocol.Triple 0 (InTx 0 (Pending db₀ l))
        (commit >>= fun _ => pure refKey : PublicApi PublicApiError String)
        (fun r => Over fun db _ => SendPost fromWallet toWallet db₀ r db) := by
    intro l hl
    refine .bind (triple_commit (S := satsPay publicApiExt) (B := fun (db : Db publicApiExt) _ =>
        ∃ n, 0 ≤ n ∧ Moves fromWallet toWallet n db₀ db) (E := fun _ (db : Db publicApiExt) _ => db = db₀) (framed_solo (S := satsPay publicApiExt) _).stable
      (fun _ => framed_solo (S := satsPay publicApiExt) _) ?_ fun _ _ _ _ _ h => h.1)
      (fun _ => .ret fun _ _ h => h.2) fun _ _ _ h => h
    rintro ws ks db h - ⟨rfl, hw⟩ -
    exact ⟨⟨trivial, fun q hq h0 => absurd h0 hq⟩, hl _ hw⟩
  -- an entry that went through was stored as some integer
  have entry : ∀ (input : LedgerCreditInput) (l : List LedgerEntry)
      {x : PublicApi PublicApiError String}, (∀ n, numeric39 input.amount = some n →
        (solo (satsPay publicApiExt)).toProtocol.Triple 0 (InTx 0 (Pending db₀ (input.entry n :: l)))
          x (fun r => Over fun db _ => SendPost fromWallet toWallet db₀ r db)) →
      (solo (satsPay publicApiExt)).toProtocol.Triple 0 (InTx 0 fun ws ks db h =>
          ∃ n, numeric39 input.amount = some n ∧ Pending db₀ (input.entry n :: l) ws ks db h)
        x (fun r => Over fun db _ => SendPost fromWallet toWallet db₀ r db) :=
    fun input l x h => .conseq (.of_exists fun n => .of_pure fun hn => h n hn)
      (fun _ _ ⟨t, ht, n, hn, hp⟩ => ⟨n, hn, t, ht, hp⟩) fun _ _ _ h => h
  refine .bind (triple_mapErr (triple_lockWallets (E := fun _ => Unchanged db₀)
    keepsWallets_solo (framed_pending []) (fun _ => framed_start) (fun _ _ _ _ _ h => h)
    (fun _ _ _ _ _ _ h => ⟨h.1, h.1⟩) _) fun _ _ h => h) (fun _ => ?_) fun e c _ h => err e c h
  refine .bind (triple_coreRead _ (E := fun _ => Unchanged db₀) (H := fun _ => Pending db₀ [])
    (fun c => c.ledger.any fun e => e.referenceType == some "PublicApiTransfer" &&
      e.referenceKey == some refKey) (fun _ => rfl) (fun _ => rfl) (fun _ => framed_pending [])
    (fun _ => framed_start) (fun _ _ _ _ _ h => h) fun _ _ _ _ _ _ h => h.1) (fun existing => ?_)
    fun e c _ h => err e c h
  cases existing with
  | true => exact finish [] fun db h => ⟨0, le_rfl, fun id => by simp [Core.balance, h]⟩
  | false =>
    refine .bind (triple_invokeTx _ (fun _ => (framed_pending []).stable)
      fun _ _ _ _ _ _ h _ => ⟨⟨trivial, fun _ _ _ => rfl⟩, h⟩) (fun day => ?_)
      fun _ _ _ h => h.elim
    refine .bind (triple_query (S := satsPay publicApiExt) (E := fun _ => Unchanged db₀) (H := fun _ => Pending db₀ [])
      _ (fun _ => framed_pending []) (fun _ => framed_start) ?_ fun _ _ _ _ _ _ h _ => h.1)
      (fun reserved => ?_) fun e c _ h => err e c h
    · rintro ws ks db h a ws' - ⟨rfl, hw⟩ he
      refine ⟨fun w hw' k hk => List.mem_append_right _
        (covered_of_other (by simp) he w hw' k hk), rfl, ?_⟩
      obtain ⟨ws₁, -, rfl⟩ := ext_eval_ok he
      rw [viewOf, applyAll_append, core_viewOf_ext]
      exact hw
    · cases reserved with
      | false => exact .throw fun c _ h => errPending [] c h
      | true =>
        refine .bind (triple_apply_pending _ []) (fun _ => ?_) fun e c _ h => err e c h
        refine entry _ _ fun n hn => ?_
        refine .bind (triple_apply_pending _ _) (fun _ => ?_) fun e c _ h => err e c h
        refine entry _ _ fun m hm => finish _ fun db h => ⟨m, hq m hm, ?_⟩
        -- the debit is stored as the negative of the credit
        obtain rfl : n = -m := by
          rw [show (transferOut fromWallet amount refKey toEmail).amount = -amount from rfl,
            numeric39_neg, show numeric39 amount = some m from hm] at hn
          exact (Option.some.inj hn).symm
        exact moves_entries h

/-- What `send_to_user` owes: money moved forward, or nothing done. -/
def SentForward (fromUserId : Uuid) (hmac email : String) (db₀ : Db publicApiExt) :
    Except PublicApiError String → Db publicApiExt → Prop
  | .ok _, db => MovesForward fromUserId hmac email db₀ db
  | .error _, db => db = db₀

theorem triple_sendTx (hq : ∀ n, numeric39 amount = some n → 0 ≤ n)
    {fromUserId recipientId : Uuid} (hne : recipientId ≠ fromUserId) (apiKeyId : Uuid)
    (coin : Coin) (hmac toEmail refKey : String) (limit : ℤ) :
    (solo (satsPay publicApiExt)).toProtocol.Triple 0
      (InTx 0 fun ws _ db _ => ws = [] ∧ db = db₀)
      (sendTx fromUserId recipientId apiKeyId coin toEmail amount refKey limit)
      (fun r => Over fun db _ => SentForward fromUserId hmac toEmail db₀ r db) := by
  have framed : ∀ φ : Prop, (solo (satsPay publicApiExt)).FramedTx 0
      fun ws _ db _ => φ ∧ ws = [] ∧ db = db₀ := fun φ =>
    framedTx_solo (S := satsPay publicApiExt) fun ws _ db => φ ∧ ws = [] ∧ db = db₀
  refine .bind (triple_extRead (X := publicApiExt) (.sendCandidates fromUserId coin)
    (E := fun _ => Unchanged db₀) (H := fun a ws _ db _ =>
      a = db₀.core.sendCandidates fromUserId coin ∧ ws = [] ∧ db = db₀)
    (fun c _ => c.sendCandidates fromUserId coin) (fun _ _ => rfl) (fun _ _ => rfl)
    (fun _ => framed _) (fun _ => framed_start) ?_ fun _ _ _ _ _ _ h => h.2) (fun candidates => ?_)
    fun _ _ _ h => db_of_inTx h
  · rintro ws ks db h - ⟨rfl, rfl⟩
    exact ⟨rfl, rfl, rfl⟩
  refine .bind (triple_coreRead (X := publicApiExt) (.walletOf recipientId coin .personal)
    (G := fun ws _ db _ => candidates = db₀.core.sendCandidates fromUserId coin ∧ ws = [] ∧ db = db₀)
    (E := fun _ => Unchanged db₀) (H := fun a ws _ db _ =>
      (candidates = db₀.core.sendCandidates fromUserId coin ∧
        a = db₀.core.walletOf recipientId coin .personal) ∧ ws = [] ∧ db = db₀)
    (fun c => c.walletOf recipientId coin .personal) (fun _ => rfl) (fun _ => rfl)
    (fun _ => framed _) (fun _ => framed_start) ?_ fun _ _ _ _ _ _ h => h.2.2)
    (fun toWallet => ?_) fun _ _ _ h => db_of_inTx h
  · rintro ws ks db h - ⟨hc, rfl, rfl⟩
    exact ⟨⟨hc, rfl⟩, rfl, rfl⟩
  refine .conseq (.of_pure (A := InTx 0 fun ws _ db _ => ws = [] ∧ db = db₀)
    (φ := candidates = db₀.core.sendCandidates fromUserId coin ∧
      toWallet = db₀.core.walletOf recipientId coin .personal) fun hφ => ?_)
    (fun c _ ⟨t, ht, hφ, hw⟩ => ⟨hφ, t, ht, hw⟩) fun _ _ _ h => h
  obtain ⟨rfl, rfl⟩ := hφ
  split
  · rename_i fromWallet toWallet hf ht
    obtain ⟨wf, hwf, hfu⟩ := wallet_of_pickWallet hf
    obtain ⟨wt, hwt, htu, -⟩ := Core.wallet_of_walletOf ht
    refine .conseq (triple_sendBetween hq fromWallet toWallet apiKeyId toEmail refKey limit)
      (fun c _ ⟨t, ht, hw, hdb⟩ => ⟨t, ht, hdb, by rw [hw]; rfl⟩) fun r c _ h => ?_
    cases r with
    | ok _ =>
      obtain ⟨n, hn, hm⟩ := h
      exact movesForward_of_moves hn hwf hfu hwt htu hne hm
    | error _ => exact h
  · exact .throw fun c _ ⟨_, _, _, h⟩ => h

theorem triple_sendToUser (hq : ∀ n, numeric39 amount = some n → 0 ≤ n)
    (emailIndex : String → String) (fromUserId apiKeyId : Uuid) (coin : Coin)
    (toEmail idempotencyKey : String) (limit : ℤ) :
    (solo (satsPay publicApiExt)).toProtocol.Triple 0 (Idle 0 fun db _ => db = db₀)
      (sendToUser emailIndex fromUserId apiKeyId coin toEmail amount idempotencyKey limit)
      (fun r => Idle 0 fun db _ =>
        SentForward fromUserId (emailIndex toEmail) toEmail db₀ r db) := by
  refine .bind (triple_poolQuery (S := satsPay publicApiExt) (B := fun _ db _ => db = db₀)
    (E := fun _ db _ => db = db₀) _ (fun _ => (framed_solo (S := satsPay publicApiExt) _).stable)
    (fun _ => (framed_solo (S := satsPay publicApiExt) _).stable) ?_ ?_) (fun recipientId => ?_)
    fun _ _ _ h => h
  · rintro db h a ws - rfl he -
    obtain ⟨ws₁, he', rfl⟩ := ext_eval_ok he
    obtain rfl := findUserIdByEmail_reads (c := db.core) he'
    exact ⟨⟨fun w hw => absurd hw List.not_mem_nil, trivial, fun q hq h0 => absurd h0 hq⟩, rfl⟩
  · rintro db h e - rfl - -
    exact ⟨⟨trivial, fun q hq h0 => absurd h0 hq⟩, rfl⟩
  cases recipientId with
  | none => exact .throw fun _ _ h => h
  | some recipientId =>
    dsimp only
    split
    · exact .throw fun _ _ h => h
    · rename_i hne
      exact triple_transaction (S := satsPay publicApiExt) (A := fun db _ => db = db₀)
        (Q := fun r db _ => SentForward fromUserId (emailIndex toEmail) toEmail db₀ r db)
        (framed_solo (S := satsPay publicApiExt) _)
        (fun r => framed_solo (S := satsPay publicApiExt) _) (fun _ _ _ h => h)
        (triple_sendTx hq hne _ _ _ _ _ _)

end

/-! ## The exact condition -/

def SendPostcondition (fromUserId : Uuid) (hmac email : String) (db db' : Db publicApiExt) :
    SendResponse → Prop
  | .sent _ => MovesForward fromUserId hmac email db db'
  | _ => ∀ id, db'.core.balance id = db.core.balance id

/-- No request with this amount takes money from a recipient, in any store. -/
def SendSafe (parseDecimal : String → Option ℚ) (amount : String) : Prop :=
  ∀ (emailIndex : String → String) (limit : ℤ) (key : ApiKeyRecord) (body : SendRequest)
    (db : Db publicApiExt) (r : SendResponse) (s : State (satsPay publicApiExt)),
    body.amount = amount →
    Prog.Runs (Exec 0) (send parseDecimal emailIndex limit key (some body)) (.start db) (.ok r) s →
    SendPostcondition key.userId (emailIndex body.toEmail) body.toEmail db s.db r

theorem sendSafe_of_nonneg {parseDecimal : String → Option ℚ} {amount : String}
    (h : ∀ q, parseDecimal amount = some q → ∀ n, numeric39 q = some n → 0 ≤ n) :
    SendSafe parseDecimal amount := by
  rintro emailIndex limit key body db r s rfl hr
  have same : (solo (satsPay publicApiExt)).toProtocol.Triple 0 (Idle 0 fun d _ => d = db)
      (send parseDecimal emailIndex limit key (some body))
      fun r => Idle 0 fun d _ => ∀ a, r = .ok a →
        SendPostcondition key.userId (emailIndex body.toEmail) body.toEmail db d a := by
    have answer : ∀ a : SendResponse, (∀ d, d = db →
          SendPostcondition key.userId (emailIndex body.toEmail) body.toEmail db d a) →
        (solo (satsPay publicApiExt)).toProtocol.Triple 0 (Idle 0 fun d _ => d = db)
          (.ret a : PublicApi Empty SendResponse) fun r => Idle 0 fun d _ => ∀ a, r = .ok a →
            SendPostcondition key.userId (emailIndex body.toEmail) body.toEmail db d a := by
      intro a ha
      refine .ret fun c _ hc => ⟨hc.1, ?_⟩
      rintro _ ⟨⟩
      exact ha _ hc.2
    unfold send
    split
    · exact answer _ fun d hd _ => by rw [hd]
    · exact answer _ fun d hd _ => by rw [hd]
    · rename_i hbody
      cases hbody
      split
      · rename_i coin q _ hq
        have sent : (solo (satsPay publicApiExt)).toProtocol.Triple 0 (Idle 0 fun d _ => d = db)
            ((sendToUser emailIndex key.userId key.id coin body.toEmail q body.idempotencyKey
              limit).attempt : PublicApi Empty _)
            (outcome (fun res => Idle 0 fun d _ =>
              SentForward key.userId (emailIndex body.toEmail) body.toEmail db res d)
              fun _ _ => False) :=
          .attempt (triple_sendToUser (h q hq) emailIndex key.userId key.id coin body.toEmail
            body.idempotencyKey limit)
        refine .bind sent (fun res => ?_) fun e => e.elim
        cases res with
        | ok reference =>
          refine .ret fun c _ hc => ⟨hc.1, ?_⟩
          rintro _ ⟨⟩
          exact hc.2
        | error e =>
          refine .ret fun c _ hc => ⟨hc.1, ?_⟩
          rintro _ ⟨⟩ id
          rw [show c.s.db = db from hc.2]
      · exact answer _ fun d hd _ => by rw [hd]
  exact of_runs_solo same rfl hr _ rfl

/-! Alice's key sends Bob an amount that is stored as `n < 0`: she is credited
and he is debited. -/

def aliceKey : ApiKeyRecord := ⟨3, 1, ["send"]⟩

def sendToBob (amount : String) : SendRequest := ⟨"BTC", "bob@example.com", amount, "k"⟩

def bobHolds (n : ℤ) : Db publicApiExt where
  core := {
    now := 0
    wallets := ((∅ : Table Wallet).insert 20 ⟨2, .btc, .personal, none⟩).insert 10
      ⟨1, .btc, .merchant, none⟩
    ledger := [⟨20, -n, .deposit, none, none, none, none⟩,
      ⟨20, 1, .deposit, none, none, none, none⟩]
    jobs := ∅
    outbox := []
    auditLogs := [] }
  ext := {
    users := [⟨2, "bob@example.com", some "bob"⟩, ⟨1, "alice@example.com", some "alice"⟩]
    quotas := ∅ }

def sendToBobWrites (q : ℚ) (n : ℤ) : List (Write publicApiExt) :=
  [.ext (.putQuota (3, 0) 1)] ++
    [.core (.addEntry ((transferOut 10 q "pubapi:3:k" "bob@example.com").entry (-n)))] ++
    [.core (.addEntry ((transferIn 20 q "pubapi:3:k").entry n))]

theorem may_sendBetween {q : ℚ} {n : ℤ} (hn : numeric39 q = some n) (hq : q < 0)
    (hb : (n : ℚ) - 1 ≤ q) :
    May (S := satsPay publicApiExt) (AloneInTx (bobHolds n) [])
      (sendBetween 10 20 3 "bob@example.com" q "pubapi:3:k" 5) (.ok "pubapi:3:k")
      (Alone (viewOf (sendToBobWrites q n) (bobHolds n))) := by
  have lock : May (S := satsPay publicApiExt) (AloneInTx (bobHolds n) [])
      ((lockWallets [10, 20]).mapErr PublicApiError.ledger) (.ok ())
      (AloneInTx (bobHolds n) []) := (may_lockWallets _).mapErr _
  have existing : May (S := satsPay publicApiExt) (AloneInTx (bobHolds n) [])
      (coreQuery (.ledgerByReferenceKey "PublicApiTransfer" "pubapi:3:k") :
        PublicApi PublicApiError _) (.ok false) (AloneInTx (bobHolds n) []) :=
    may_coreRead (List.mem_singleton.2 rfl)
  have clock : May (S := satsPay publicApiExt) (AloneInTx (bobHolds n) []) today (.ok (0 : Nat))
      (AloneInTx (bobHolds n) []) := may_call (S := satsPay publicApiExt) Clock.today (0 : Nat)
  have reserve : May (S := satsPay publicApiExt) (AloneInTx (bobHolds n) [])
      (apiQuery (.reserveSend 3 0 5)) (.ok true)
      (AloneInTx (bobHolds n) [.ext (.putQuota (3, 0) 1)]) :=
    @may_ext publicApiExt (bobHolds n) [] PublicApiError _ (.reserveSend 3 0 5) true
      [.putQuota (3, 0) 1] (List.mem_singleton_self _)
  have debit : May (S := satsPay publicApiExt)
      (AloneInTx (bobHolds n) [.ext (.putQuota (3, 0) 1)])
      (applyLedgerEntry (transferOut 10 q "pubapi:3:k" "bob@example.com")) (.ok ())
      (AloneInTx (bobHolds n) ([.ext (.putQuota (3, 0) 1)] ++
        [.core (.addEntry ((transferOut 10 q "pubapi:3:k" "bob@example.com").entry (-n)))])) := by
    have hw : (bobHolds n).core.wallets.lookup 10 = some ⟨1, .btc, .merchant, none⟩ :=
      AList.lookup_insert _
    have hn' : numeric39 (-q) = some (-n) := by rw [numeric39_neg, hn]; rfl
    refine may_applyLedgerEntry hw rfl (fun h => ?_) hn' rfl
    exact absurd h (by simp only [transferOut]; linarith)
  have credit : May (S := satsPay publicApiExt)
      (AloneInTx (bobHolds n) ([.ext (.putQuota (3, 0) 1)] ++
        [.core (.addEntry ((transferOut 10 q "pubapi:3:k" "bob@example.com").entry (-n)))]))
      (applyLedgerEntry (transferIn 20 q "pubapi:3:k")) (.ok ())
      (AloneInTx (bobHolds n) (sendToBobWrites q n)) := by
    have hw : (bobHolds n).core.wallets.lookup 20 = some ⟨2, .btc, .personal, none⟩ :=
      (AList.lookup_insert_ne (by decide)).trans (AList.lookup_insert _)
    refine may_applyLedgerEntry hw rfl (fun _ => ?_) hn rfl
    show (0 : ℚ) ≤ ((0 + (-n + (1 + 0)) : ℤ) : ℚ) + q
    push_cast
    linarith
  have answer : May (S := satsPay publicApiExt) (AloneInTx (bobHolds n) (sendToBobWrites q n))
      (commit >>= fun _ => pure "pubapi:3:k" : PublicApi PublicApiError String)
      (.ok "pubapi:3:k") (Alone (viewOf (sendToBobWrites q n) (bobHolds n))) :=
    May.bind (may_commit (S := satsPay publicApiExt)) (may_ret _)
  exact lock.bind (existing.bind (clock.bind (reserve.bind
    ((debit.mapErr _).bind ((credit.mapErr _).bind answer)))))

theorem may_sendToBob {parseDecimal : String → Option ℚ} {amount : String} {q : ℚ} {n : ℤ}
    (hp : parseDecimal amount = some q) (hn : numeric39 q = some n) (h₀ : n < 0) :
    May (S := satsPay publicApiExt) (Alone (bobHolds n))
      (send parseDecimal (fun _ => "bob") 5 aliceKey (some (sendToBob amount)))
      (.ok (.sent "pubapi:3:k")) (Alone (viewOf (sendToBobWrites q n) (bobHolds n))) := by
  obtain ⟨rfl, -⟩ := numeric39_eq_some.1 hn
  have hq : q < 0 := by
    by_contra hq
    exact absurd (le_roundHalfAway (m := 0) (by push_cast; exact not_lt.1 hq)) (not_le.2 h₀)
  have find : May (S := satsPay publicApiExt) (Alone (bobHolds (roundHalfAway q)))
      (apiPool (.findUserIdByEmail "bob" "bob@example.com")) (.ok (some 2))
      (Alone (bobHolds (roundHalfAway q))) :=
    @may_extPool publicApiExt _ PublicApiError _ (.findUserIdByEmail "bob" "bob@example.com")
      (some 2) [] List.mem_cons_self
  have pick : pickWallet ((bobHolds (roundHalfAway q)).core.sendCandidates 1 .btc) q = some 10 := by
    have : q ≤ 0 := hq.le
    simp [pickWallet, bobHolds, Core.sendCandidates, Core.balance, this]
  have tx : May (S := satsPay publicApiExt) (AloneInTx (bobHolds (roundHalfAway q)) [])
      (sendTx 1 2 3 .btc "bob@example.com" q "pubapi:3:k" 5) (.ok "pubapi:3:k")
      (Alone (viewOf (sendToBobWrites q (roundHalfAway q)) (bobHolds (roundHalfAway q)))) := by
    have candidates : May (S := satsPay publicApiExt) (AloneInTx (bobHolds (roundHalfAway q)) [])
        (apiQuery (.sendCandidates 1 .btc))
        (.ok ((bobHolds (roundHalfAway q)).core.sendCandidates 1 .btc))
        (AloneInTx (bobHolds (roundHalfAway q)) []) :=
      @may_ext publicApiExt _ [] PublicApiError _ (.sendCandidates 1 .btc) _ []
        (List.mem_singleton_self _)
    have toWallet : May (S := satsPay publicApiExt) (AloneInTx (bobHolds (roundHalfAway q)) [])
        (coreQuery (.walletOf 2 .btc .personal) : PublicApi PublicApiError _) (.ok (some 20))
        (AloneInTx (bobHolds (roundHalfAway q)) []) :=
      may_coreRead (List.mem_singleton.2 rfl)
    refine candidates.bind (toWallet.bind ?_)
    rw [pick]
    exact may_sendBetween hn hq (sub_one_le_of_roundHalfAway hq)
  have sent : May (S := satsPay publicApiExt) (Alone (bobHolds (roundHalfAway q)))
      (sendToUser (fun _ => "bob") 1 3 .btc "bob@example.com" q "k" 5) (.ok "pubapi:3:k")
      (Alone (viewOf (sendToBobWrites q (roundHalfAway q)) (bobHolds (roundHalfAway q)))) :=
    find.bind (may_transaction tx)
  have hb : Coin.fromStr "BTC" = some .btc := Coin.fromStr_asStr .btc
  unfold send
  have hs : requireScope aliceKey "send" = .ok () := by simp [requireScope, aliceKey]
  rw [hs]
  dsimp only [sendToBob]
  rw [hb, hp]
  exact sent.attempt.bind (may_ret _)

/-- Bob had `1 - n` and now has 1. -/
theorem not_sendSafe {parseDecimal : String → Option ℚ} {amount : String} {q : ℚ} {n : ℤ}
    (hp : parseDecimal amount = some q) (hn : numeric39 q = some n) (h₀ : n < 0) :
    ¬ SendSafe parseDecimal amount := by
  intro h
  obtain ⟨s, hr, rfl⟩ := may_sendToBob hp hn h₀ _ rfl
  have hsafe := h (fun _ => "bob") 5 aliceKey (sendToBob amount) _ _ _ rfl hr
  have hbob := hsafe.recipient ⟨2, "bob@example.com", some "bob"⟩ List.mem_cons_self
    (by simp [User.matches]) (by decide) 20 ⟨2, .btc, .personal, none⟩
    ((AList.lookup_insert_ne (by decide)).trans (AList.lookup_insert _)) rfl
  have hbefore : (bobHolds n).core.balance 20 = 1 - n := by
    simp [bobHolds, Core.balance]; omega
  have hafter : (viewOf (sendToBobWrites q n) (bobHolds n)).core.balance 20 = 1 := by
    show n + (0 + (-n + (1 + 0))) = 1
    omega
  rw [hbefore, State.start, hafter] at hbob
  omega

/-- A send is safe exactly when its amount is not stored as a negative number. -/
theorem sendSafe_iff (parseDecimal : String → Option ℚ) (amount : String) :
    SendSafe parseDecimal amount ↔
      ∀ q, parseDecimal amount = some q → -(1 / 2) < q ∨ q ≤ -(10 ^ 39 - 1 / 2) := by
  constructor
  · intro h q hq
    by_contra hneg
    rw [← numeric39_nonneg_iff] at hneg
    push Not at hneg
    obtain ⟨n, hn, h₀⟩ := hneg
    exact not_sendSafe hq hn h₀ h
  · intro h
    exact sendSafe_of_nonneg fun q hq => (numeric39_nonneg_iff q).2 (h q hq)

/-- `BigDecimal::from_str` on integers without an exponent. -/
def parseInteger (s : String) : Option ℚ :=
  match s.toList with
  | '-' :: ds => (parseDigits ds).map fun n => -(n : ℚ)
  | ds => (parseDigits ds).map fun n => (n : ℚ)

theorem minusFive_not_safe : ¬ SendSafe parseInteger "-5" := by
  have hp : parseInteger "-5" = some ((-5 : ℤ) : ℚ) := by
    have hd : parseDigits ['5'] = some 5 := by decide
    have hl : "-5".toList = ['-', '5'] := rfl
    simp [parseInteger, hl, hd]
  exact not_sendSafe hp (numeric39_int_eq_some.2 ⟨rfl, by norm_num⟩) (by norm_num)

end SatsPay
