import SatsPay.Decimals
import SatsPay.DexSwapRuns
import SatsPay.LedgerRuns

/-!
# What the venues answer

The worker asks SwapKit and ChangeNOW how a swap goes, and credits what has come in. Of an
answer it reads a status, which can be any text, and an amount, if there is one.
-/

namespace SatsPay

open Interleave ReadCommitted

/-! ## Statuses -/

def textContains (needle s : String) : Bool := decide (needle.toList <:+: s.toList)

namespace TrackResponse

variable (E : DexEnv) (t : TrackResponse)

/-- `status`, or else `tracking_status`, in capitals. -/
def word : String := E.toUppercase ((t.status.or t.trackingStatus).getD "")

def isComplete : Bool :=
  ["COMPLETED", "COMPLETE", "SUCCESS", "DONE", "OUTBOUND", "SWAPPED"].contains (t.word E) ||
    textContains "COMPLETE" (t.word E) || textContains "SUCCESS" (t.word E)

def isFailed : Bool :=
  textContains "FAIL" (t.word E) || textContains "REFUND" (t.word E) ||
    textContains "ERROR" (t.word E) || t.word E == "REVERTED"

end TrackResponse

def toAsciiLowercase (s : String) : String := String.ofList (s.toList.map Char.toLower)

namespace ChangeNowStatus

variable (s : ChangeNowStatus)

/-- `from_value`; a number is printed by `format_float_trim`. -/
def fromValue (formatFloatTrim : Number → String) (value : Value) : ChangeNowStatus where
  status := ((value.get "status").bind Value.asStr).getD ""
  toAmountHuman := (value.get "amountTo" <|> value.get "toAmount").bind fun v => match v with
    | .string s => some s
    | .number n => some (formatFloatTrim n)
    | _ => none
  payoutHash := (value.get "payoutHash" <|> value.get "payinHash").bind Value.asStr

def isSuccess : Bool := ["finished", "completed", "success"].contains (toAsciiLowercase s.status)

def isFailed : Bool := ["failed", "refunded", "expired"].contains (toAsciiLowercase s.status)

end ChangeNowStatus

/-! ## Amounts -/

/-- `{:0<width$}` -/
def padZeros (width : ℕ) (s : List Char) : List Char := s ++ List.replicate (width - s.length) '0'

/-- SwapKit's amounts in ledger units, if they are amounts; no result where it panics. -/
def parseHumanToLedger (amount : String) : Option (Option ℕ) :=
  let s := trim amount.toList
  if s = [] then some none
  else
    let (whole, frac) := (splitOnce '.' s).getD (s, [])
    match parseU128 whole with
    | none => some none
    | some whole => (takeBytes 8 frac).map fun frac =>
      (parseU128 (padZeros 8 frac)).map fun n => saturate128 (saturate128 (whole * 10 ^ 8) + n)

def humanToLedger (human : String) : Option ℕ :=
  let s := (trim human.toList).filter (· != ',')
  if s = [] ∨ s.head? = some '-' then none
  else
    let (whole, frac) := (splitOnce '.' s).getD (s, [])
    if ¬ whole.all Char.isDigit ∨ ¬ frac.all Char.isDigit then none
    else do
      let whole ← if whole = [] then some 0 else parseU128 whole
      let frac ← parseU128 ((padZeros 8 frac).take 8)
      (some (whole * 10 ^ 8 + frac)).filter (· < 2 ^ 128)

def TrackResponse.toLedger (t : TrackResponse) : Option (Option ℕ) :=
  match t.outboundAmountHuman with
  | none => some none
  | some h => parseHumanToLedger h

def ChangeNowStatus.toLedger (s : ChangeNowStatus) : Option ℕ := s.toAmountHuman.bind humanToLedger

/-! ## The worker -/

section
variable (E : DexEnv) (id : Uuid)

/-- Credit what has come in, unless it is below the minimum. -/
def creditReceived (row : DexSwapRow) (toAmount : ℕ) (outboundTx : Option String) :
    DexSwaps String Unit :=
  if belowMin toAmount (row.minToAmount.bind fun s => parseU128 s.toList) then do
    let _ ← (markFailed id "slippage: received below minToAmount").attempt
    .throw "slippage"
  else (creditAndComplete id toAmount outboundTx).mapErr (DexSwapError.toText E)

/-- What `try_track_and_credit` does with an answer. -/
def creditTracked (row : DexSwapRow) (track : TrackResponse) : DexSwaps String Unit :=
  if !track.isComplete E then .throw "not complete"
  else match track.toLedger with
    | none => .throw "byte index 8 is not a char boundary"
    | some reported => match reported <|> parseU128 row.expectedToAmount.toList with
      | none => .throw "cannot resolve to_amount"
      | some toAmount => creditReceived E id row toAmount track.outboundTx

def tryTrackAndCredit : DexSwaps String Unit := do
  match ← (getById E id).mapErr (DexSwapError.toText E) with
  | none => .throw "not found"
  | some row => match row.inboundTx with
    | none => .throw "no inbound tx"
    | some hash => match ← (dexCall (.swapkitTrack id hash) : DexSwaps String _) with
      | .error e => .throw e
      | .ok track => creditTracked E id row track

/-- What `try_credit_changenow` does with an answer. -/
def creditExchanged (row : DexSwapRow) (status : ChangeNowStatus) : DexSwaps String Unit :=
  if status.isFailed then do
    let _ ← (markFailed id ("changenow status: " ++ status.status)).attempt
    .throw ("changenow failed: " ++ status.status)
  else if !status.isSuccess then .throw ("changenow status=" ++ status.status)
  else match status.toLedger <|> parseU128 row.expectedToAmount.toList with
    | none => .throw "cannot resolve changenow to_amount"
    | some toAmount => creditReceived E id row toAmount status.payoutHash

def exchangeId (row : DexSwapRow) (payload : Value) : Option String :=
  (payload.get "exchangeId").bind Value.asStr <|> row.quoteId

def tryCreditChangenow : DexSwaps String Unit :=
  if !E.changenowConfigured then .throw "changenow not configured"
  else do
    match ← (getById E id).mapErr (DexSwapError.toText E) with
    | none => .throw "not found"
    | some row =>
      if row.status ≠ .inFlight ∧ row.status ≠ .crediting then pure ()
      else match row.swapPayload with
        | none => .throw "missing swap_payload"
        | some payload => match exchangeId row payload with
          | none => .throw "missing exchangeId"
          | some exchangeId =>
            match ← (dexCall (.changenowStatus id exchangeId) : DexSwaps String _) with
            | .error e => .throw e
            | .ok status => creditExchanged E id row status

end

/-! ## What a credit has done -/

section
variable {ε α : Type} {id : Uuid} {toAmount : ℕ} {outboundTx : Option String}
variable {db db' : Db dexExt} {s s' : State (satsPay dexExt)}

theorem core_allowed : ∀ (_ : List (Did (sig (satsPay dexExt)))) (st : CoreStmt),
    LeavesStore (S := satsPay dexExt) (.tx (.core st)) := fun _ _ => trivial

theorem leaves_personalWallet (userId : Uuid) (coin : Coin) :
    (personalWallet userId coin).Free fun _ o => LeavesStore o := by
  refine (free_coreOf core_allowed _).bind fun w => ?_
  cases w with
  | none => exact .throw _
  | some id => exact .ret _

theorem leaves_setRow (id : Uuid) (u : DexSwapUpdate) :
    (setRow id u).Free fun _ o => LeavesStore o :=
  (free_query (S := satsPay dexExt) fun _ => trivial).bind fun _ => .ret _

theorem leaves_lockedRow (id : Uuid) : (lockedRow id).Free fun _ o => LeavesStore o := by
  refine (free_query (S := satsPay dexExt) fun _ => trivial).bind fun row => ?_
  cases row with
  | none => exact .throw _
  | some row => exact .ret _

theorem failsClean_creditAndComplete (id : Uuid) (toAmount : ℕ) (outboundTx : Option String) :
    FailsClean (creditAndComplete id toAmount outboundTx) := by
  refine .transaction (.bind (leaves_lockedRow id) fun row => ?_)
  split
  · exact .commit
  split
  · refine .bind (leaves_setRow _ _) fun _ => .bind (leaves_personalWallet _ _) fun w => ?_
    refine .bind ((free_lockWalletsOf core_allowed _).mapErr _) fun _ => ?_
    refine .bind ((free_applyOf core_allowed _).mapErr _) fun _ => ?_
    exact .bind (leaves_setRow _ _) fun _ => .commit
  · exact .throw _

theorem runs_lockedRow {v : Db dexExt} {row : DexSwap} (hs : Sees v s)
    (h : Prog.Runs (Exec 0) (lockedRow id) s (.ok row) s') :
    v.ext.dexSwaps.lookup id = some row ∧ Sees v s' := by
  obtain ⟨found, s₁, h₁, h⟩ := h.of_bind
  obtain ⟨ws, he, hs₁⟩ := runs_extQuery hs h₁
  cases List.mem_singleton.1 he
  cases hl : v.ext.dexSwaps.lookup id with
  | none =>
    rw [hl] at h
    cases h
  | some r =>
    rw [hl] at h
    cases h
    exact ⟨rfl, hs₁⟩

/-- An update leaves the shared tables. -/
theorem runs_setRow {v : Db dexExt} {u : DexSwapUpdate} {a : Unit} (hs : Sees v s)
    (h : Prog.Runs (Exec 0) (setRow id u) s (.ok a) s') :
    ∃ v', v'.core = v.core ∧ Sees v' s' := by
  obtain ⟨found, s₁, h₁, h⟩ := h.of_bind
  obtain ⟨ws, he, hs₁⟩ := runs_extQuery hs h₁
  cases h
  exact ⟨_, viewOf_ext_core ws v, hs₁⟩

theorem runs_personalWallet {v : Db dexExt} {userId w : Uuid} {coin : Coin} (hs : Sees v s)
    (h : Prog.Runs (Exec 0) (personalWallet userId coin) s (.ok w) s') :
    v.core.walletOf userId coin .personal = some w ∧ Sees v s' := by
  obtain ⟨found, s₁, h₁, h⟩ := h.of_bind
  obtain ⟨rfl, hs₁⟩ := runs_coreRead rfl hs h₁
  cases hw : v.core.walletOf userId coin .personal with
  | none =>
    rw [hw] at h
    cases h
  | some id =>
    rw [hw] at h
    cases h
    exact ⟨rfl, hs₁⟩

def CreditedWith (id : Uuid) (toAmount : ℕ) (db db' : Db dexExt) : Prop :=
  ∃ w, db'.core.ledger = (dexSwapIn w id toAmount).entry toAmount :: db.core.ledger

theorem runs_creditAndComplete {r : Except DexSwapError Unit}
    (h : Prog.Runs (Exec 0) (creditAndComplete id toAmount outboundTx) (.start db) r s) :
    s.db.core = db.core ∨ CreditedWith id toAmount db s.db := by
  cases r with
  | error e => exact .inl (congrArg Db.core (failsClean_creditAndComplete _ _ _ _ _ _ h))
  | ok a =>
    obtain ⟨s₁, s₂, hs₁, hbody, rfl⟩ := runs_transaction (fun h => h) h
    obtain ⟨row, s₃, h₁, h⟩ := hbody.of_bind
    obtain ⟨hrow, hs₃⟩ := runs_lockedRow hs₁ h₁
    split at h
    · obtain rfl := runs_commit (fun h => h) hs₃ h
      exact .inl rfl
    split at h
    · obtain ⟨_, s₄, h₂, h⟩ := h.of_bind
      obtain ⟨v₁, hv₁, hs₄⟩ := runs_setRow hs₃ h₂
      obtain ⟨w, s₅, h₃, h⟩ := h.of_bind
      obtain ⟨hw, hs₅⟩ := runs_personalWallet hs₄ h₃
      obtain ⟨_, s₆, h₄, h⟩ := h.of_bind
      have hs₆ := runs_lockWallets hs₅ (Prog.Runs.of_mapErr h₄)
      obtain ⟨_, s₇, h₅, h⟩ := h.of_bind
      obtain ⟨e, ⟨⟨n, hn, he⟩, -, -⟩, hs₇⟩ := runs_applyLedgerEntry hs₆ (Prog.Runs.of_mapErr h₅)
      obtain ⟨_, s₈, h₆, h⟩ := h.of_bind
      obtain ⟨v₂, hv₂, hs₈⟩ := runs_setRow hs₇ h₆
      obtain rfl := runs_commit (fun h => h) hs₈ h
      refine .inr ⟨w, ?_⟩
      obtain rfl : n = toAmount := numeric39_of_int (by simp [dexSwapIn]) hn
      show v₂.core.ledger = _
      rw [hv₂, he]
      show _ :: v₁.core.ledger = _
      rw [hv₁]
    · cases h

end

/-! ## Statuses that say two things -/

section
variable (E : DexEnv)

/-- The status denotes a swap that is completed, and not one that is refunded, failed,
unsuccessful or incomplete. -/
structure TrackResponse.Completed (t : TrackResponse) : Prop where
  complete : t.isComplete E
  notFailed : ¬ t.isFailed E
  notIncomplete : ¬ textContains "INCOMPLETE" (t.word E)
  notUnsuccessful : ¬ textContains "UNSUCCESS" (t.word E)

/-- The words that turn a word of success into its opposite. -/
def denials : List String := ["FAIL", "REFUND", "ERROR", "INCOMPLETE", "UNSUCCESS"]

/-- A word of success comes without any of failure, and is not part of one. -/
def Unambiguous (word : String) : Prop :=
  textContains "COMPLETE" word ∨ textContains "SUCCESS" word →
    ∀ denial ∈ denials, ¬ textContains denial word

def TrackedAs (track : TrackResponse) : (o : Op (satsPay dexExt)) → Op.Resp (satsPay dexExt) o → Prop
  | .call (.swapkitTrack _ _), r => r = .ok track
  | _, _ => True

def TrackRun (track : TrackResponse) (id : Uuid) (db db' : Db dexExt) : Prop :=
  ∃ r s, Prog.Runs (fun o s a s' => Exec 0 o s a s' ∧ TrackedAs track o a) (tryTrackAndCredit E id)
    (.start db) r s ∧ s.db = db'

/-- With these texts in the answer, what has failed is not complete, and nothing is credited but
what the status denotes as completed. -/
def CreditsOnlyCompleted (status trackingStatus : Option String) : Prop :=
  ∀ track : TrackResponse, track.status = status → track.trackingStatus = trackingStatus →
    (track.isFailed E → ¬ track.isComplete E) ∧
    ∀ id db db', TrackRun E track id db db' → db'.core.ledger ≠ db.core.ledger → track.Completed E

end

section
variable {E : DexEnv} {track : TrackResponse}

theorem completed_of_unambiguous (hw : Unambiguous (track.word E)) (h : track.isComplete E) :
    track.Completed E := by
  have hdeny : ∀ denial ∈ denials, ¬ textContains denial (track.word E) := by
    unfold TrackResponse.isComplete at h
    rw [Bool.or_eq_true, Bool.or_eq_true] at h
    rcases h with (h | h) | h
    · generalize track.word E = word at h hw ⊢
      simp only [List.contains_iff_mem, List.mem_cons, List.not_mem_nil, or_false] at h
      rcases h with rfl | rfl | rfl | rfl | rfl | rfl <;> decide
    · exact hw (.inl h)
    · exact hw (.inr h)
  have hreverted : track.word E ≠ "REVERTED" := by
    intro he
    unfold TrackResponse.isComplete at h
    rw [he] at h
    exact absurd h (by decide)
  refine ⟨h, ?_, hdeny _ (by decide), hdeny _ (by decide)⟩
  unfold TrackResponse.isFailed
  rw [Bool.or_eq_true, Bool.or_eq_true, Bool.or_eq_true, beq_iff_eq]
  rintro (((h | h) | h) | h)
  · exact hdeny _ (by decide) h
  · exact hdeny _ (by decide) h
  · exact hdeny _ (by decide) h
  · exact hreverted h

theorem leaves_getById (id : Uuid) :
    ((getById E id).mapErr (DexSwapError.toText E)).Free fun _ o => LeavesStore o := by
  have hread : ReadOnly (S := satsPay dexExt) (.ext (.getById id)) := by
    intro db a ws h
    obtain ⟨ws', he, rfl⟩ := ext_eval_ok h
    cases List.mem_singleton.1 he
    rfl
  exact ((free_poolQuery (S := satsPay dexExt) fun _ => hread).bind fun _ => .ret _).mapErr _

/-- Nothing is credited before SwapKit says that the swap is complete. -/
theorem complete_of_trackRun {id : Uuid} {db db' : Db dexExt} (h : TrackRun E track id db db')
    (hne : db'.core.ledger ≠ db.core.ledger) : track.isComplete E := by
  by_contra hc
  obtain ⟨r, s, h, rfl⟩ := h
  suffices hs : s.db = db from hne (congrArg (fun v : Db dexExt => v.core.ledger) hs)
  have leaves {α : Type} {c : DexSwaps String α} {s s' : State (satsPay dexExt)}
      {r : Except String α} (hc : c.Free fun _ o => LeavesStore o)
      (h : Prog.Runs (fun o s a s' => Exec 0 o s a s' ∧ TrackedAs track o a) c s r s') :
      s'.db = s.db := db_eq_of_free hc (h.mono fun h => h.1)
  rcases h.bind_cases with ⟨e, -, h⟩ | ⟨found, s₁, h₁, h⟩
  · exact leaves (leaves_getById id) h
  have hs₁ : s₁.db = db := leaves (leaves_getById id) h₁
  cases found with
  | none => cases h; exact hs₁
  | some row =>
    dsimp only at h
    cases hi : row.inboundTx with
    | none => rw [hi] at h; cases h; exact hs₁
    | some hash =>
      rw [hi] at h
      cases h with
      | @op _ _ _ s₂ _ answer r h hk =>
        obtain ⟨hexec, rfl⟩ := h
        have hs₂ : s₂.db = s₁.db := LeavesStore.db_eq (o := .call _) trivial hexec
        have hnot : creditTracked E id row track = .throw "not complete" :=
          if_pos (by simpa using hc)
        have hk : Prog.Runs (fun o s a s' => Exec 0 o s a s' ∧ TrackedAs track o a)
          (creditTracked E id row track) s₂ r s := hk
        rw [hnot] at hk
        cases hk
        exact hs₂.trans hs₁

end

/-! A swap into LTC of which the venue says that one has come in. -/

def awaitedSwap : DexSwap :=
  { userId := 7, fromCoin := .btc, toCoin := .ltc, fromAmount := 2, expectedToAmount := 3
    minToAmount := none, actualToAmount := none, status := .inFlight, provider := "THORCHAIN"
    providers := [], quoteId := none, platformFeeBps := 50, platformFeeAmount := 0, txHint := none
    inboundMemo := none, depositAddress := some "a", inboundTx := some "t", outboundTx := none
    swapPayload := none, error := none, idempotencyKey := "k", updatedAt := 0 }

def awaiting : Db dexExt :=
  { twoWallets with ext := ⟨(∅ : Table DexSwap).insert 9 awaitedSwap, []⟩ }

def oneLtc (status trackingStatus : Option String) : TrackResponse :=
  ⟨status, trackingStatus, none, some "1"⟩

theorem credit_awaiting : ∃ s, s.db.core.ledger ≠ awaiting.core.ledger ∧
    Prog.Runs (Exec 0) (creditAndComplete 9 100000000 none) (.start awaiting) (.ok ()) s := by
  have hrun : ((creditAndComplete 9 100000000 none).play
      (Runner.alone? (S := satsPay dexExt) nineAnswers) (.start awaiting)).map (fun x =>
        (x.1.toOption, x.2.db.core.ledger.length)) = some (some (), 2) := by
    decide +kernel
  obtain ⟨⟨r, s⟩, hplay, he⟩ := Option.map_eq_some_iff.1 hrun
  obtain ⟨hr, hlen⟩ := Prod.mk.inj he
  cases r with
  | error e => cases hr
  | ok _ =>
    refine ⟨s, fun h => ?_, Prog.runs_of_play (Runner.exec_of_alone? (S := satsPay dexExt))
      (fun _ _ => rfl) hplay⟩
    rw [show s.db.core.ledger = awaiting.core.ledger from h] at hlen
    exact absurd hlen (by decide)

def NoCall : Op (satsPay dexExt) → Prop
  | .call _ => False
  | _ => True

theorem noCall_creditAndComplete (id : Uuid) (toAmount : ℕ) (outboundTx : Option String) :
    (creditAndComplete id toAmount outboundTx).Free fun _ o => NoCall o := by
  have core : ∀ (_ : List (Did (sig (satsPay dexExt)))) (st : CoreStmt),
      NoCall (.tx (.core st)) := fun _ _ => trivial
  have wallet (userId : Uuid) (coin : Coin) :
      (personalWallet userId coin).Free fun _ o => NoCall o := by
    refine (free_coreOf core _).bind fun w => ?_
    cases w with
    | none => exact .throw _
    | some id => exact .ret _
  have update (u : DexSwapUpdate) : (setRow id u).Free fun _ o => NoCall o :=
    (free_query (S := satsPay dexExt) fun _ => trivial).bind fun _ => .ret _
  have commits : (commit : DexSwaps DexSwapError Unit).Free fun _ o => NoCall o :=
    free_commit fun _ => trivial
  refine free_transaction (fun _ => trivial) (fun _ => trivial) (.bind ?_ fun row => ?_)
  · refine (free_query (S := satsPay dexExt) fun _ => trivial).bind fun row => ?_
    cases row with
    | none => exact .throw _
    | some row => exact .ret _
  split
  · exact commits
  split
  · exact (update _).bind fun _ => (wallet _ _).bind fun w =>
      ((free_lockWalletsOf core _).mapErr _).bind fun _ =>
        ((free_applyOf core _).mapErr _).bind fun _ => (update _).bind fun _ => commits
  · exact .throw _

/-- It is credited, when SwapKit says so, whatever else the text says. -/
theorem trackRun_awaiting {E : DexEnv} (status trackingStatus : Option String)
    (hc : (oneLtc status trackingStatus).isComplete E) : ∃ db',
    TrackRun E (oneLtc status trackingStatus) 9 awaiting db' ∧
      db'.core.ledger ≠ awaiting.core.ledger := by
  obtain ⟨s, hne, hrun⟩ := credit_awaiting
  refine ⟨s.db, ⟨.ok (), s, ?_, rfl⟩, hne⟩
  have hcredit : Prog.Runs
      (fun o s a s' => Exec 0 o s a s' ∧ TrackedAs (oneLtc status trackingStatus) o a)
      (creditAndComplete 9 100000000 none) (.start awaiting) (.ok ()) s := by
    refine Prog.Runs.of_free (fun o s a s' ho h => ⟨h, ?_⟩) (noCall_creditAndComplete _ _ _) hrun
    cases o with
    | call c => exact ho.elim
    | _ => trivial
  have htracked : creditTracked E 9 (mapRow E 9 awaitedSwap) (oneLtc status trackingStatus) =
      (creditAndComplete 9 100000000 none).mapErr (DexSwapError.toText E) := by
    have hamount : (oneLtc status trackingStatus).toLedger = some (some 100000000) := by
      show parseHumanToLedger "1" = _
      decide +kernel
    unfold creditTracked
    rw [if_neg (by simpa using hc), hamount]
    show creditReceived E 9 (mapRow E 9 awaitedSwap) 100000000 none = _
    exact if_neg (by simp [mapRow, awaitedSwap, belowMin])
  have hget : Exec (S := satsPay dexExt) 0 (.pool (.ext (.getById 9))) (.start awaiting)
      (.ok (some awaitedSwap)) (.start awaiting) :=
    .pool_ok _ _ _ [] (free_start _ _ _) List.mem_cons_self
  have hask : Exec (S := satsPay dexExt) 0 (.call (.swapkitTrack 9 "t")) (.start awaiting)
      (.ok (oneLtc status trackingStatus)) (.start awaiting) := .call _ _ _
  refine Prog.Runs.op ⟨hget, trivial⟩ (Prog.Runs.op ⟨hask, rfl⟩ ?_)
  show Prog.Runs _ (creditTracked E 9 (mapRow E 9 awaitedSwap) (oneLtc status trackingStatus)) _ _ _
  rw [htracked]
  exact hcredit.mapErr _

/-- In the texts of an answer, nothing is credited but what is completed if and only if no word of
failure comes with one of success. -/
theorem creditsOnlyCompleted_iff (E : DexEnv) (status trackingStatus : Option String) :
    CreditsOnlyCompleted E status trackingStatus ↔
      Unambiguous (E.toUppercase ((status.or trackingStatus).getD "")) := by
  constructor
  · intro h hword denial hmem hdenial
    obtain ⟨hfailed, hcredits⟩ := h (oneLtc status trackingStatus) rfl rfl
    have hc : (oneLtc status trackingStatus).isComplete E := by
      unfold TrackResponse.isComplete
      rw [Bool.or_eq_true, Bool.or_eq_true]
      rcases hword with hword | hword
      · exact .inl (.inr hword)
      · exact .inr hword
    obtain ⟨db', hrun, hne⟩ := trackRun_awaiting _ _ hc
    have hdone := hcredits 9 awaiting db' hrun hne
    have hnot := hdone.notFailed
    unfold TrackResponse.isFailed at hnot
    rw [Bool.or_eq_true, Bool.or_eq_true, Bool.or_eq_true] at hnot
    simp only [denials, List.mem_cons, List.not_mem_nil, or_false] at hmem
    rcases hmem with rfl | rfl | rfl | rfl | rfl
    · exact hnot (.inl (.inl (.inl hdenial)))
    · exact hnot (.inl (.inl (.inr hdenial)))
    · exact hnot (.inl (.inr hdenial))
    · exact hdone.notIncomplete hdenial
    · exact hdone.notUnsuccessful hdenial
  · rintro hw track rfl rfl
    exact ⟨fun hf hc => (completed_of_unambiguous hw hc).notFailed hf,
      fun id db db' hrun hne => completed_of_unambiguous hw (complete_of_trackRun hrun hne)⟩

/-- What was refunded is complete all the same. -/
theorem refundCompleted_credited :
    ¬ CreditsOnlyCompleted plainDexEnv (some "REFUND COMPLETED") none := by
  intro h
  obtain ⟨db', hrun, hne⟩ := trackRun_awaiting (E := plainDexEnv)
    (some "REFUND COMPLETED") none (by decide +kernel)
  exact ((h (oneLtc _ _) rfl rfl).2 9 awaiting db' hrun hne).notFailed (by decide +kernel)

end SatsPay
