import SatsPay.DexTracking

/-!
# The platform's cut of an exchange

The output that is expected of a ChangeNOW exchange is stored without the platform's cut. What
the exchange reports is credited as it is, and the rate of the cut may come with the request.
-/

namespace SatsPay

open Interleave ReadCommitted

/-! ## Orders -/

def chainKey : Coin → Option String
  | .btc => some "BTC"
  | .ltc => some "LTC"
  | .doge => some "DOGE"
  | .bch => some "BCH"
  | .sol => some "SOL"
  | .pol | .usdt | .usdc => some "POL"
  | .dgb | .zer | .pepe => none

def isSameChain (fromCoin toCoin : Coin) : Bool :=
  match chainKey fromCoin, chainKey toCoin with
  | some a, some b => a == b
  | _, _ => false

def cnAsset : Coin → Option (String × String)
  | .btc => some ("btc", "btc")
  | .ltc => some ("ltc", "ltc")
  | .doge => some ("doge", "doge")
  | .bch => some ("bch", "bch")
  | .dgb => some ("dgb", "dgb")
  | .pol => some ("matic", "matic")
  | .usdt => some ("usdt", "matic")
  | .usdc => some ("usdc", "matic")
  | .sol => some ("sol", "sol")
  | .zer | .pepe => none

def supportsPair (fromCoin toCoin : Coin) : Bool :=
  fromCoin != toCoin && (cnAsset fromCoin).isSome && (cnAsset toCoin).isSome

structure ChangeNowExchange where
  id : String
  payinAddress : String
  payinExtraId : Option String
  fromAmountLedger : ℕ
  toAmountLedger : ℕ
  toAmountHuman : String
  raw : Value

def ChangeNowExchange.toSwapPayload (x : ChangeNowExchange) : Value :=
  .object [("provider", .string "CHANGENOW"), ("exchangeId", .string x.id),
    ("payinAddress", .string x.payinAddress),
    ("payinExtraId", (x.payinExtraId.map Value.string).getD .null),
    ("fromAmount", .string (toString x.fromAmountLedger)),
    ("toAmount", .string (toString x.toAmountLedger)),
    ("toAmountHuman", .string x.toAmountHuman), ("raw", x.raw)]

structure ExecuteRequest where
  idempotencyKey : String
  expectedToAmount : Option String
  platformFeeBps : Option UInt32

structure ErrorBody where
  status : ℕ
  error : String
  code : Option String
  deriving DecidableEq, Repr

structure ChangeNowWorld where
  configured : Bool
  feeBpsSame : UInt32
  feeBpsCross : UInt32
  resolveHotAddress : Coin → Except String String
  createExchange : (fromCoin toCoin : Coin) → (fromAmount : ℕ) → (destination source : String) →
    Except String ChangeNowExchange

/-- `platform_fee_bps`, for a provider that is on no one chain. -/
def ChangeNowWorld.platformFeeBps (W : ChangeNowWorld) (fromCoin toCoin : Coin) : UInt32 :=
  if isSameChain fromCoin toCoin then W.feeBpsSame else W.feeBpsCross

/-- `amount.saturating_mul(bps) / 10_000` -/
def cutOf (amount : ℕ) (bps : UInt32) : ℕ := saturate128 (amount * bps.toNat) / 10000

section
variable (W : ChangeNowWorld) (userId : Uuid) (fromCoin toCoin : Coin) (fromAmount : ℕ)
variable (minToAmount : Option ℕ) (body : ExecuteRequest)

def expectedOutput (x : ChangeNowExchange) : ℕ :=
  if 0 < x.toAmountLedger then x.toAmountLedger
  else (body.expectedToAmount.bind fun s => parseU128 s.toList).getD 0

/-- `execute_changenow` once the exchange is created: the order that is locked. -/
def exchangeOrder (x : ChangeNowExchange) : Except ErrorBody LockDexSwapInput :=
  let bps := body.platformFeeBps.getD (W.platformFeeBps fromCoin toCoin)
  let expected := expectedOutput body x - cutOf (expectedOutput body x) bps
  if expected = 0 then .error ⟨400, "changenow estimated output too small", none⟩
  else if belowMin expected minToAmount then
    .error ⟨400, "changenow output below minToAmount", some "SLIPPAGE"⟩
  else if x.payinExtraId.isSome then
    .error ⟨400, "changenow requires memo/extraId for this pair — not supported yet",
      some "CHANGENOW_MEMO_UNSUPPORTED"⟩
  else .ok
    { userId := userId, fromCoin := fromCoin, toCoin := toCoin, fromAmount := fromAmount
      expectedToAmount := expected, minToAmount := minToAmount, provider := "CHANGENOW"
      providers := ["CHANGENOW"], quoteId := some x.id, platformFeeBps := bps.toNat
      platformFeeAmount := cutOf fromAmount bps, txHint := some "simpleTransfer"
      swapPayload := some x.toSwapPayload, idempotencyKey := body.idempotencyKey }

def executeChangenow : Except ErrorBody LockDexSwapInput := do
  if !W.configured then
    .error ⟨503, "ChangeNOW not configured (set CHANGENOW_ENABLED + CHANGENOW_API_KEY)", none⟩
  else if !supportsPair fromCoin toCoin then
    .error ⟨400, "pair not supported on ChangeNOW", none⟩
  else do
    let source ← (W.resolveHotAddress fromCoin).mapError (⟨503, ·, none⟩)
    let destination ← (W.resolveHotAddress toCoin).mapError (⟨503, ·, none⟩)
    let x ← (W.createExchange fromCoin toCoin fromAmount destination source).mapError fun e =>
      ⟨400, "changenow: " ++ e, none⟩
    exchangeOrder W userId fromCoin toCoin fromAmount minToAmount body x

end

/-! ## The row of an order -/

/-- What the statements of the module make of the row that an order has inserted. -/
inductive DexSwap.StemsFrom (input : LockDexSwapInput) : DexSwap → Prop
  | inserted (key : String) (now : Time) : StemsFrom input (input.row key now)
  | updated {r : DexSwap} (h : StemsFrom input r) (u : DexSwapUpdate) (now : Time) :
      StemsFrom input (u.set now r)

theorem DexSwap.StemsFrom.kept {input : LockDexSwapInput} {r : DexSwap} (h : r.StemsFrom input) :
    r.expectedToAmount = input.expectedToAmount ∧
      r.platformFeeBps = asI32 input.platformFeeBps := by
  induction h with
  | inserted key now => exact ⟨rfl, rfl⟩
  | updated h u now ih => cases u <;> exact ih

theorem exchangeOrder_ok {W : ChangeNowWorld} {userId : Uuid} {fromCoin toCoin : Coin}
    {fromAmount : ℕ} {minToAmount : Option ℕ} {body : ExecuteRequest} {x : ChangeNowExchange}
    {input : LockDexSwapInput}
    (h : exchangeOrder W userId fromCoin toCoin fromAmount minToAmount body x = .ok input) :
    input.platformFeeBps = (body.platformFeeBps.getD (W.platformFeeBps fromCoin toCoin)).toNat ∧
    input.expectedToAmount = expectedOutput body x - cutOf (expectedOutput body x)
      (body.platformFeeBps.getD (W.platformFeeBps fromCoin toCoin)) ∧
    input.expectedToAmount ≠ 0 := by
  unfold exchangeOrder at h
  dsimp only at h
  split at h
  · cases h
  split at h
  · cases h
  split at h
  · cases h
  rename_i hne _ _
  cases h
  exact ⟨rfl, rfl, hne⟩

/-! ## What is credited of an exchange -/

def ExchangedAs (status : ChangeNowStatus) :
    (o : Op (satsPay dexExt)) → Op.Resp (satsPay dexExt) o → Prop
  | .call (.changenowStatus _ _), r => r = .ok status
  | _, _ => True

def ExchangeRun (E : DexEnv) (status : ChangeNowStatus) (id : Uuid) (db db' : Db dexExt) : Prop :=
  ∃ r s, Prog.Runs (fun o s a s' => Exec 0 o s a s' ∧ ExchangedAs status o a)
    (tryCreditChangenow E id) (.start db) r s ∧ s.db = db'

section
variable {E : DexEnv} {id : Uuid} {s s' : State (satsPay dexExt)} {db db' : Db dexExt}

theorem runs_getById {found : Option DexSwapRow}
    (h : Prog.Runs (Exec 0) ((getById E id).mapErr (DexSwapError.toText E)) s (.ok found) s') :
    s' = s ∧ found = (s.db.ext.dexSwaps.lookup id).map (mapRow E id) := by
  obtain ⟨row, s₁, h₁, h⟩ := (Prog.Runs.of_mapErr h).of_bind
  cases h
  cases h₁ with
  | @op _ _ _ _ _ a _ h hk =>
    cases a with
    | error e => cases hk
    | ok a =>
      cases hk
      cases h with
      | pool_ok _ _ _ ws hf he =>
        obtain ⟨ws', he, hws⟩ := ext_eval_ok he
        obtain ⟨rfl, rfl⟩ := Prod.mk.inj (Except.ok.inj (List.mem_singleton.1 he))
        subst hws
        exact ⟨rfl, rfl⟩

theorem leavesCore_markFailed {ε : Type} (error : String) :
    ((markFailed id error).attempt : DexSwaps ε _).Free fun _ o => LeavesCore o :=
  ((free_poolQuery (S := satsPay dexExt) fun _ => trivial).bind fun _ => .ret _).attempt

theorem runs_creditReceived {row : DexSwapRow} {toAmount : ℕ} {outboundTx : Option String}
    {r : Except String Unit}
    (h : Prog.Runs (Exec 0) (creditReceived E id row toAmount outboundTx) (.start db) r s) :
    s.db.core = db.core ∨ CreditedWith id toAmount db s.db := by
  unfold creditReceived at h
  split at h
  · refine .inl (core_eq_of_free (.bind (leavesCore_markFailed _) fun _ => .throw _) h)
  · obtain ⟨r', -, h⟩ := h.exists_of_mapErr
    exact runs_creditAndComplete h

/-- What is credited is what the exchange reports, or else what is expected. -/
theorem credited_of_exchangeRun {status : ChangeNowStatus} (h : ExchangeRun E status id db db') :
    db'.core = db.core ∨ ∃ row toAmount, db.ext.dexSwaps.lookup id = some row ∧
      (status.toLedger <|> parseU128 (E.numericText row.expectedToAmount).toList) = some toAmount ∧
      CreditedWith id toAmount db db' := by
  obtain ⟨r, s, h, rfl⟩ := h
  unfold tryCreditChangenow at h
  split at h
  · cases h; exact .inl rfl
  rcases h.bind_cases with ⟨e, -, h⟩ | ⟨found, s₁, h₁, h⟩
  · exact .inl (congrArg Db.core (db_eq_of_free (leaves_getById id) (h.mono fun h => h.1)))
  obtain ⟨rfl, rfl⟩ := runs_getById (h₁.mono fun h => h.1)
  cases hrow : (State.start (S := satsPay dexExt) db).db.ext.dexSwaps.lookup id with
  | none => rw [hrow] at h; cases h; exact .inl rfl
  | some row =>
    rw [hrow] at h
    dsimp only [Option.map_some] at h
    split at h
    · cases h; exact .inl rfl
    split at h
    · cases h; exact .inl rfl
    split at h
    · cases h; exact .inl rfl
    cases h with
    | @op _ _ _ s₂ _ answer r h hk =>
      obtain ⟨hexec, rfl⟩ := h
      cases hexec
      have hk : Prog.Runs (Exec 0) (creditExchanged E id (mapRow E id row) status) (.start db) r s :=
        hk.mono fun h => h.1
      unfold creditExchanged at hk
      split at hk
      · exact .inl (core_eq_of_free (.bind (leavesCore_markFailed _) fun _ => .throw _) hk)
      split at hk
      · cases hk; exact .inl rfl
      split at hk
      · cases hk; exact .inl rfl
      · rename_i toAmount hamount
        exact (runs_creditReceived hk).imp_right fun hc => ⟨row, toAmount, hrow, hamount, hc⟩

end

/-! ## When the credit is net of the cut -/

theorem asI32_inj {a b : UInt32} : asI32 a.toNat = asI32 b.toNat ↔ a = b := by
  constructor
  · intro h
    have hmod : ((a.toNat : ℤ)) % (2 ^ 32 : ℕ) = (b.toNat : ℤ) % (2 ^ 32 : ℕ) := by
      have := congrArg (· % ((2 ^ 32 : ℕ) : ℤ)) h
      unfold asI32 at this
      simpa only [Int.bmod_emod] using this
    have ha := a.toNat_lt
    have hb := b.toNat_lt
    exact UInt32.toNat_inj.1 (by omega)
  · rintro rfl
    rfl

/-- Nothing is taken off exactly when the cut rounds to nothing. -/
theorem sub_cutOf_eq_self_iff (n : ℕ) (bps : UInt32) :
    n = n - cutOf n bps ↔ n * bps.toNat < 10000 := by
  have hcut : cutOf n bps = 0 ↔ n * bps.toNat < 10000 := by
    unfold cutOf saturate128
    omega
  rcases Nat.eq_zero_or_pos n with rfl | hn
  · simp
  · rw [← hcut]
    omega

theorem CreditedWith.unique {id : Uuid} {m n : ℕ} {db db' : Db dexExt} (h : CreditedWith id m db db')
    (h' : CreditedWith id n db db') : m = n := by
  obtain ⟨w, hw⟩ := h
  obtain ⟨w', hw'⟩ := h'
  have he : (m : ℤ) = n := congrArg LedgerEntry.amount (List.cons.inj (hw.symm.trans hw')).1
  exact_mod_cast he

theorem CreditedWith.core_ne {id : Uuid} {n : ℕ} {db db' : Db dexExt} (h : CreditedWith id n db db') :
    db'.core ≠ db.core := by
  obtain ⟨w, hw⟩ := h
  intro he
  rw [he] at hw
  exact List.cons_ne_self _ _ hw.symm

/-- What ChangeNOW pays: what it reports, or else what it had in view. -/
def payoutOf (x : ChangeNowExchange) (status : ChangeNowStatus) : ℕ :=
  status.toLedger.getD x.toAmountLedger

/-- The rate is the server's; the cut of what is reported is nothing, or nothing is reported of an
exchange that had an output in view. -/
def CutFits (bps : UInt32) (body : ExecuteRequest) (x : ChangeNowExchange) (status : ChangeNowStatus) :
    Prop :=
  (body.platformFeeBps = none ∨ body.platformFeeBps = some bps) ∧
    match status.toLedger with
    | some n => n * bps.toNat < 10000
    | none => 0 < x.toAmountLedger

def PrintsNumbers (E : DexEnv) : Prop :=
  ∀ n m, parseU128 (E.numericText n).toList = some m → m = n

section
variable {W : ChangeNowWorld} {userId : Uuid} {fromCoin toCoin : Coin} {fromAmount : ℕ}
variable {minToAmount : Option ℕ} {body : ExecuteRequest} {x : ChangeNowExchange}
variable {input : LockDexSwapInput} {E : DexEnv} {r : DexSwap} {id : Uuid} {db db' : Db dexExt}
variable {formatFloatTrim : Number → String} {answer : Value} {credited : ℕ}

/-- Of an exchange that is credited, the credit is the payout without the cut at the server's rate,
which is the one recorded, if and only if the cut fits. -/
theorem credited_net_iff
    (horder : exchangeOrder W userId fromCoin toCoin fromAmount minToAmount body x = .ok input)
    (hr : r.StemsFrom input) (hrow : db.ext.dexSwaps.lookup id = some r) (hE : PrintsNumbers E)
    (hrun : ExchangeRun E (.fromValue formatFloatTrim answer) id db db')
    (hc : CreditedWith id credited db db') :
    (credited = payoutOf x (.fromValue formatFloatTrim answer) -
        cutOf (payoutOf x (.fromValue formatFloatTrim answer)) (W.platformFeeBps fromCoin toCoin) ∧
      r.platformFeeBps = asI32 (W.platformFeeBps fromCoin toCoin).toNat) ↔
    CutFits (W.platformFeeBps fromCoin toCoin) body x (.fromValue formatFloatTrim answer) := by
  generalize ChangeNowStatus.fromValue formatFloatTrim answer = status at hrun ⊢
  obtain ⟨hbps, hexpected, hne⟩ := exchangeOrder_ok horder
  obtain ⟨hkept, hfee⟩ := hr.kept
  generalize W.platformFeeBps fromCoin toCoin = bps at *
  have hrate : r.platformFeeBps = asI32 bps.toNat ↔
      body.platformFeeBps = none ∨ body.platformFeeBps = some bps := by
    rw [hfee, hbps, asI32_inj]
    cases body.platformFeeBps with
    | none => simp
    | some b => simp
  rcases credited_of_exchangeRun hrun with hsame | ⟨row, toAmount, hrow', hamount, hc'⟩
  · exact absurd hsame hc.core_ne
  obtain rfl := Option.some.inj (hrow.symm.trans hrow')
  obtain rfl := hc.unique hc'
  rw [hrate, and_comm]
  refine and_congr_right fun hserver => ?_
  unfold payoutOf
  cases hreport : status.toLedger with
  | some n =>
    rw [hreport] at hamount
    obtain rfl := Option.some.inj hamount
    exact sub_cutOf_eq_self_iff _ _
  | none =>
    rw [hreport] at hamount
    obtain rfl := hE _ _ hamount
    have hget : body.platformFeeBps.getD bps = bps := by
      rcases hserver with h | h <;> rw [h] <;> rfl
    rw [hget] at hexpected
    rw [Option.getD_none, hkept]
    by_cases hpos : 0 < x.toAmountLedger
    · refine iff_of_true ?_ hpos
      rw [hexpected, expectedOutput, if_pos hpos]
    · refine iff_of_false (fun h => hne ?_) hpos
      rw [h]
      omega

end

/-! An exchange with 1000000 in view, at a rate of 50, whose answer is empty or names the amount. -/

def paidExchange : ChangeNowExchange := ⟨"x", "p", none, 200000, 1000000, "0.01", .null⟩

def paidWorld : ChangeNowWorld where
  configured := true
  feeBpsSame := 50
  feeBpsCross := 50
  resolveHotAddress _ := .ok "a"
  createExchange _ _ _ _ _ := .ok paidExchange

def plainRequest : ExecuteRequest := ⟨"k", none, none⟩

def paidOrder : LockDexSwapInput :=
  { userId := 7, fromCoin := .btc, toCoin := .ltc, fromAmount := 200000, expectedToAmount := 995000
    minToAmount := none, provider := "CHANGENOW", providers := ["CHANGENOW"], quoteId := some "x"
    platformFeeBps := 50, platformFeeAmount := 1000, txHint := some "simpleTransfer"
    swapPayload := some paidExchange.toSwapPayload, idempotencyKey := "k" }

theorem paidOrder_eq : exchangeOrder paidWorld 7 .btc .ltc 200000 none plainRequest paidExchange =
    .ok paidOrder := rfl

def paidSwap : DexSwap :=
  (DexSwapUpdate.inFlight "t").set 0
    ((DexSwapUpdate.broadcasting "a" none .null).set 0 (paidOrder.row "k" 0))

theorem stemsFrom_paidSwap : paidSwap.StemsFrom paidOrder :=
  .updated (.updated (.inserted _ _) _ _) _ _

def paying : Db dexExt :=
  { twoWallets with ext := ⟨(∅ : Table DexSwap).insert 9 paidSwap, []⟩ }

def paidEnv : DexEnv := { plainDexEnv with numericText := fun n => storedText n }

theorem printsNumbers_paidEnv : PrintsNumbers paidEnv := by
  intro n m h
  have h : readStored n = some m := h
  rw [readStored_eq] at h
  split at h
  · exact (Option.some.inj h).symm
  · cases h

def finished (amount : List (String × Value)) : Value :=
  .object (("status", .string "finished") :: amount)

def exchangeAnswers (status : ChangeNowStatus) : (c : DexCall) → c.Reply
  | .newUuid => (9 : Nat)
  | .broadcast _ _ _ => .error ⟨"down", true⟩
  | .changenowStatus _ _ => .ok status
  | .relayStatus _ _ => .error "down"
  | .swapkitTrack _ _ => .error "down"

theorem exchangeRun_of_play {E : DexEnv} {status : ChangeNowStatus} {id : Uuid} {db : Db dexExt}
    {r : Except String Unit} {s : State (satsPay dexExt)}
    (h : (tryCreditChangenow E id).play
      (Runner.alone? (S := satsPay dexExt) (exchangeAnswers status)) (.start db) = some (r, s)) :
    ExchangeRun E status id db s.db := by
  refine ⟨r, s, Prog.runs_of_play (B := Bounded 1) (fun {o s a s'} hb h => ?_)
    (fun _ _ => rfl) h, rfl⟩
  obtain ⟨hexec, hb'⟩ := Runner.exec_of_alone? hb h
  refine ⟨⟨hexec, ?_⟩, hb'⟩
  cases o with
  | call c =>
    cases c with
    | changenowStatus i x => cases h; rfl
    | _ => trivial
  | _ => trivial

/-- What is reported is credited, or else what is expected. -/
theorem credited_paying (status : ChangeNowStatus) (n : ℕ)
    (hplay : ((tryCreditChangenow paidEnv 9).play
      (Runner.alone? (S := satsPay dexExt) (exchangeAnswers status)) (.start paying)).map
        (·.2.db.core.ledger.length) = some 2)
    (hamount : (status.toLedger <|> parseU128 (paidEnv.numericText 995000).toList) = some n) :
    ∃ db', ExchangeRun paidEnv status 9 paying db' ∧ CreditedWith 9 n paying db' := by
  obtain ⟨⟨r, s⟩, hplay, hlen⟩ := Option.map_eq_some_iff.1 hplay
  have hrun := exchangeRun_of_play hplay
  refine ⟨s.db, hrun, ?_⟩
  rcases credited_of_exchangeRun hrun with hsame | ⟨row, toAmount, hrow, hreported, hc⟩
  · have hlen : s.db.core.ledger.length = 2 := hlen
    rw [hsame] at hlen
    exact absurd hlen (by decide)
  · cases Option.some.inj (hrow.symm.trans (show paying.ext.dexSwaps.lookup 9 = some paidSwap from rfl))
    cases Option.some.inj (hreported.symm.trans hamount)
    exact hc

/-- Without an amount in the answer, the credit is what the exchange had in view, less the cut. -/
theorem unreported_net :
    ∃ db', ExchangeRun paidEnv (.fromValue (fun _ => "") (finished [])) 9 paying db' ∧
      CreditedWith 9 995000 paying db' ∧
      (995000 : ℕ) = 1000000 - cutOf 1000000 50 ∧ paidSwap.platformFeeBps = 50 := by
  obtain ⟨db', hrun, hc⟩ := credited_paying
    (.fromValue (fun _ => "") (finished [])) 995000 (by decide +kernel)
    (by decide +kernel)
  have hnone : (ChangeNowStatus.fromValue (fun _ => "") (finished [])).toLedger = none := by
    decide +kernel
  have hpayout : payoutOf paidExchange (.fromValue (fun _ => "") (finished [])) = 1000000 := by
    rw [payoutOf, hnone]
    rfl
  have hfits : CutFits (paidWorld.platformFeeBps .btc .ltc) plainRequest paidExchange
      (.fromValue (fun _ => "") (finished [])) := by
    rw [CutFits, hnone]
    exact ⟨.inl rfl, by decide⟩
  obtain ⟨hnet, hrate⟩ := (credited_net_iff paidOrder_eq stemsFrom_paidSwap rfl
    printsNumbers_paidEnv hrun hc).2 hfits
  rw [hpayout] at hnet
  exact ⟨db', hrun, hc, hnet, hrate.trans (by decide +kernel)⟩

/-- The amount in the answer is credited as it is, though the order has the cut taken. -/
theorem reported_gross : ∃ db',
    exchangeOrder paidWorld 7 .btc .ltc 200000 none plainRequest paidExchange = .ok paidOrder ∧
    paidSwap.StemsFrom paidOrder ∧ paying.ext.dexSwaps.lookup 9 = some paidSwap ∧
    ExchangeRun paidEnv (.fromValue (fun _ => "") (finished [("amountTo", .string "0.01")]))
      9 paying db' ∧
    CreditedWith 9 1000000 paying db' ∧ paidSwap.platformFeeBps = 50 ∧
    (1000000 : ℕ) ≠ 1000000 - cutOf 1000000 50 := by
  obtain ⟨db', hrun, hc⟩ := credited_paying
    (.fromValue (fun _ => "") (finished [("amountTo", .string "0.01")])) 1000000
    (by decide +kernel) (by decide +kernel)
  exact ⟨db', paidOrder_eq, stemsFrom_paidSwap, rfl, hrun, hc, by decide +kernel, by decide⟩

end SatsPay
