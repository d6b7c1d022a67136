import SatsPay.ChainClient
import SatsPay.Db

/-!
# Routes of a DEX swap

The row of a swap, the transaction that a provider's payload names, and what the worker
asks of the chain client for it.
-/

namespace SatsPay

/-! ## Swap rows -/

inductive DexSwapStatus where
  | quoted | locked | broadcasting | inFlight | crediting | completed | failed | refunding
  | refunded
  deriving DecidableEq, Repr

/-- `DexSwapRow`, whose amounts are printed. -/
structure DexSwapRow where
  id : Uuid
  userId : Uuid
  fromCoin : Coin
  toCoin : Coin
  fromAmount : String
  expectedToAmount : String
  minToAmount : Option String
  actualToAmount : Option String
  status : DexSwapStatus
  provider : String
  providers : List String
  quoteId : Option String
  txHint : Option String
  inboundMemo : Option String
  depositAddress : Option String
  inboundTx : Option String
  outboundTx : Option String
  swapPayload : Option Value
  error : Option String

/-! ## Payloads -/

/-- A decimal or a `0x` number, as text or as a JSON number. -/
def parseLoose (limit : ℕ) (v : Option Value) : Option ℕ :=
  v.bind fun v => match v.asU64 with
    | some n => some n
    | none => v.asStr.bind fun s => match trim s.toList with
      | '0' :: 'x' :: hex => fromStrRadix16 limit hex
      | '0' :: 'X' :: hex => fromStrRadix16 limit hex
      | s => (parseU128 s).filter (· < limit)

def parseU128Loose (v : Option Value) : Option ℕ := parseLoose (2 ^ 128) v
def parseU64Loose (v : Option Value) : Option ℕ := parseLoose (2 ^ 64) v

/-- Unsigned EVM transaction fields of a route with `txHint` `contractCall`. -/
structure ContractCallTx where
  toAddr : String
  data : String
  valueWei : ℕ
  gasLimit : Option ℕ
  gasPriceWei : Option ℕ
  fromAddr : Option String
  approvalAddress : Option String

def startsWith0x (s : String) : Bool := s.toList.take 2 == ['0', 'x']
def startsWith0X (s : String) : Bool := s.toList.take 2 == ['0', 'X']

def extractApprovalAddress (root : Value) : Option String :=
  (((root.get "meta").bind (Value.get "approvalAddress") <|> root.get "approvalAddress").bind
    Value.asStr).filter fun s => startsWith0x s && s.utf8ByteSize == 42

def extractContractCallTx (root : Value) : Option ContractCallTx := do
  let tx ← root.get "tx" <|> root.get "transaction" <|> root.get "evmTransaction"
  let toAddr ← ((tx.get "to").bind Value.asStr).filter fun s => s ≠ ""
  let data ← ((tx.get "data").bind Value.asStr).filter fun s => startsWith0x s || startsWith0X s
  pure
    { toAddr := toAddr, data := data
      valueWei := (parseU128Loose (tx.get "value")).getD 0
      gasLimit := parseU64Loose (tx.get "gas" <|> tx.get "gasLimit")
      gasPriceWei := parseU128Loose (tx.get "gasPrice")
      fromAddr := (tx.get "from").bind Value.asStr
      approvalAddress := extractApprovalAddress root }

/-- `SwapResponse`, as far as a contract call needs it. -/
structure SwapResponse where
  metaValue : Option Value
  extra : Value

/-- An `Option<String>` field, `none` where its value is neither. -/
def optString : Option Value → Option (Option String)
  | none => some none
  | some .null => some none
  | some (.string s) => some (some s)
  | some _ => none

def stringList : Option Value → Option (List String)
  | none => some []
  | some (.array xs) => xs.mapM Value.asStr
  | some _ => none

def swapResponseFields : List String :=
  ["routeId", "providers", "targetAddress", "inboundAddress", "memo", "txType", "txHint", "meta"]

/-- `serde_json::from_value::<SwapResponse>` -/
def SwapResponse.fromValue : Value → Option SwapResponse
  | .object fields => do
    let field (key : String) := (Value.object fields).get key
    let _ ← ["routeId", "targetAddress", "inboundAddress", "memo", "txType", "txHint"].mapM
      fun key => optString (field key)
    let _ ← stringList (field "providers")
    pure
      { metaValue := match field "meta" with
          | some .null => none
          | v => v
        extra := .object (fields.filter fun f => !swapResponseFields.contains f.1) }
  | _ => none

def SwapResponse.contractCallTx (s : SwapResponse) : Option ContractCallTx :=
  extractContractCallTx s.extra <|> s.metaValue.bind extractContractCallTx

def parseContractCallTx (payload : Value) : Option ContractCallTx :=
  extractContractCallTx payload <|>
    (SwapResponse.fromValue payload).bind SwapResponse.contractCallTx

/-! ## What the worker asks for -/

inductive BroadcastPlan where
  | stop (error : String)
  /-- The swap is failed and refunded first. -/
  | refuse (failed reason error : String)
  | solanaRelay (solanaTx : Value)
  | contractCall (call : EvmContractCall)
  | transfer (deposit : String) (amount : ℕ)

def tolerance (expected : ℕ) : ℕ := max (expected / 1000000) 1000000000

def absDiff (m n : ℕ) : ℕ := m - n + (n - m)

def valueMismatch (coin : Coin) (valueWei expected : ℕ) : Bool :=
  let delta := absDiff valueWei expected
  coin == .pol && decide (0 < valueWei) && decide (expected / 1000000 < delta) &&
    decide (1000000000 < delta)

def isErc20 : Coin → Bool
  | .usdt | .usdc | .pepe => true
  | _ => false

def evmCallOf (coin : Coin) (onchainAmount : ℕ) (payload : Value) (call : ContractCallTx) :
    EvmContractCall :=
  { toAddr := call.toAddr, dataHex := call.data, valueWei := call.valueWei
    gasLimitHint := call.gasLimit, gasPriceHint := call.gasPriceWei, fromHint := call.fromAddr
    erc20SellAmount := if isErc20 coin then some onchainAmount else none
    approvalAddress := call.approvalAddress <|> (payload.get "approvalAddress").bind Value.asStr }

def solanaRelayPlan (row : DexSwapRow) : BroadcastPlan :=
  match row.swapPayload with
  | none => .stop "missing swap_payload for solanaRelay"
  | some payload => match payload.get "solanaTx" with
    | none => .stop "swap_payload missing solanaTx"
    | some solanaTx => .solanaRelay solanaTx

def contractCallPlan (row : DexSwapRow) (onchainAmount : ℕ) : BroadcastPlan :=
  match row.swapPayload with
  | none => .stop "missing swap_payload for contractCall"
  | some payload => match parseContractCallTx payload with
    | none => .stop "swap_payload missing EVM tx for contractCall"
    | some call =>
      if valueMismatch row.fromCoin call.valueWei onchainAmount then
        .refuse s!"contractCall value mismatch: quote={call.valueWei} expected={onchainAmount}"
          "contractCall value mismatch — refunded" "contractCall value mismatch"
      else .contractCall (evmCallOf row.fromCoin onchainAmount payload call)

def transferPlan (row : DexSwapRow) (onchainAmount : ℕ) : BroadcastPlan :=
  let deposit := row.depositAddress.getD ""
  if deposit = "" then .stop "missing deposit address"
  else if row.inboundMemo.getD "" ≠ "" ∧ row.txHint = some "transferWithMemo" then
    .refuse "transferWithMemo not yet supported by hot wallet"
      "memo transfer unsupported — refunded" "transferWithMemo not supported"
  else .transfer deposit onchainAmount

/-- The branches of `process_broadcast` up to the chain client's call. -/
def broadcastPlan (row : DexSwapRow) : BroadcastPlan :=
  match parseU128 row.fromAmount.toList with
  | none => .stop "bad from_amount"
  | some fromAmount =>
    let onchainAmount := toOnchainAmount row.fromCoin fromAmount
    let txHint := row.txHint.getD "simpleTransfer"
    if txHint = "solanaRelay" then solanaRelayPlan row
    else if txHint = "contractCall" then contractCallPlan row onchainAmount
    else transferPlan row onchainAmount

/-! ## Units of a transfer -/

/-- The row makes `process_broadcast` send a plain transfer. -/
def DexSwapRow.SimpleTransfer (row : DexSwapRow) : Prop :=
  row.txHint ≠ some "solanaRelay" ∧ row.txHint ≠ some "contractCall" ∧
    row.depositAddress.getD "" ≠ "" ∧
    ¬ (row.inboundMemo.getD "" ≠ "" ∧ row.txHint = some "transferWithMemo")

/-- Wherever the hot wallet of ZER is at `hot`, the call for the swap sends what the call for a
withdrawal of the same amount sends, which is the amount in the smallest units on chain. -/
def UnitsAgree (hot : String) (row : DexSwapRow) : Prop :=
  ∀ fromAmount deposit amount, parseU128 row.fromAmount.toList = some fromAmount →
    broadcastPlan row = .transfer deposit amount → ∀ W : ChainWorld, W.HotAt hot →
    amountsSent (payWithdrawal W row.fromCoin deposit amount) =
      amountsSent (payWithdrawal W row.fromCoin deposit fromAmount) ∧
    ∀ n ∈ amountsSent (payWithdrawal W row.fromCoin deposit amount),
      n = toOnchainAmount row.fromCoin fromAmount

/-- Converting what is converted already changes nothing. -/
def ConvertsOnce (coin : Coin) (n : ℕ) : Prop :=
  coin.onchainDecimals = 8 ∨ n = 0 ∨ coin.onchainDecimals = 6 ∧ n < 100 ∨
    coin.onchainDecimals = 18 ∧ 2 ^ 128 - 1 ≤ n * 10 ^ 10

theorem transferPlan_eq {row : DexSwapRow} {onchainAmount : ℕ} {deposit : String} {amount : ℕ} :
    transferPlan row onchainAmount = .transfer deposit amount ↔
      row.depositAddress.getD "" ≠ "" ∧
      ¬ (row.inboundMemo.getD "" ≠ "" ∧ row.txHint = some "transferWithMemo") ∧
      deposit = row.depositAddress.getD "" ∧ amount = onchainAmount := by
  unfold transferPlan
  dsimp only
  split
  · rename_i hdeposit
    exact iff_of_false nofun fun h => h.1 hdeposit
  · rename_i hdeposit
    split
    · rename_i hmemo
      exact iff_of_false nofun fun h => h.2.1 hmemo
    · rename_i hmemo
      simp only [BroadcastPlan.transfer.injEq]
      exact ⟨fun ⟨hd, ha⟩ => ⟨hdeposit, hmemo, hd.symm, ha.symm⟩,
        fun ⟨_, _, hd, ha⟩ => ⟨hd.symm, ha.symm⟩⟩

theorem solanaRelayPlan_ne {row : DexSwapRow} {deposit : String} {amount : ℕ} :
    solanaRelayPlan row ≠ .transfer deposit amount := by
  unfold solanaRelayPlan
  split
  · simp
  · split <;> simp

theorem contractCallPlan_ne {row : DexSwapRow} {onchainAmount : ℕ} {deposit : String}
    {amount : ℕ} : contractCallPlan row onchainAmount ≠ .transfer deposit amount := by
  unfold contractCallPlan
  split
  · simp
  · split
    · simp
    · split <;> simp

theorem broadcastPlan_transfer {row : DexSwapRow} {fromAmount : ℕ} {deposit : String} {amount : ℕ}
    (hfrom : parseU128 row.fromAmount.toList = some fromAmount) :
    broadcastPlan row = .transfer deposit amount ↔
      row.SimpleTransfer ∧ deposit = row.depositAddress.getD "" ∧
      amount = toOnchainAmount row.fromCoin fromAmount := by
  unfold broadcastPlan DexSwapRow.SimpleTransfer
  rw [hfrom]
  dsimp only
  have hint : ∀ s, s ≠ "simpleTransfer" →
      (row.txHint.getD "simpleTransfer" = s ↔ row.txHint = some s) := by
    intro s hs
    cases row.txHint with
    | none => simp [Ne.symm hs]
    | some t => simp
  simp only [hint "solanaRelay" (by decide), hint "contractCall" (by decide)]
  split
  · rename_i hsol
    exact iff_of_false solanaRelayPlan_ne fun h => h.1.1 hsol
  · rename_i hsol
    split
    · rename_i hcall
      exact iff_of_false contractCallPlan_ne fun h => h.1.2.1 hcall
    · rename_i hcall
      rw [transferPlan_eq]
      exact ⟨fun ⟨hd, hm, h⟩ => ⟨⟨hsol, hcall, hd, hm⟩, h⟩, fun ⟨⟨_, _, hd, hm⟩, h⟩ => ⟨hd, hm, h⟩⟩

theorem toOnchainAmount_twice_iff {coin : Coin} {n : ℕ} (hn : n < 2 ^ 128) (hcoin : coin ≠ .sol) :
    toOnchainAmount coin (toOnchainAmount coin n) = toOnchainAmount coin n ↔
      ConvertsOnce coin n := by
  unfold ConvertsOnce toOnchainAmount saturate128
  cases coin <;> simp [Coin.onchainDecimals] at hcoin ⊢ <;> omega

theorem toOnchainAmount_eight {coin : Coin} {n : ℕ} (hn : n < 2 ^ 128)
    (h : coin.onchainDecimals = 8) : toOnchainAmount coin n = n := by
  unfold toOnchainAmount saturate128
  rw [h, if_pos le_rfl]
  omega

theorem lamports_cut {n : ℕ} (hlt : n * 10 < 2 ^ 64) (h : n * 10 * 10 % 2 ^ 64 = n * 10) : n = 0 := by
  have hdvd : 2 ^ 63 ∣ 45 * n := by
    have hq := Nat.div_add_mod (n * 10 * 10) (2 ^ 64)
    rw [h] at hq
    generalize n * 10 * 10 / 2 ^ 64 = q at hq
    exact ⟨q, by linarith⟩
  have hcoprime : Nat.Coprime (2 ^ 63) 45 := Nat.Coprime.pow_left 63 (by decide)
  have hn := hcoprime.dvd_of_dvd_mul_left hdvd
  exact Nat.eq_zero_of_dvd_of_lt hn (by linarith)

/-- Lamports are cut to 64 bits, so that converting twice never pays the same. -/
theorem lamports_twice {n : ℕ} (h : toOnchainAmount .sol (toOnchainAmount .sol n) % 2 ^ 64 =
    toOnchainAmount .sol n) : n = 0 := by
  rw [toOnchainAmount_sol, toOnchainAmount_sol] at h
  have hlt : saturate128 (n * 10) < 2 ^ 64 := by
    rw [← h]
    exact Nat.mod_lt _ (Nat.two_pow_pos 64)
  have hn : saturate128 (n * 10) = n * 10 := by
    clear h
    unfold saturate128 at hlt ⊢
    omega
  rw [hn] at h hlt
  have hmul : saturate128 (n * 10 * 10) = n * 10 * 10 := by
    clear h
    unfold saturate128
    omega
  rw [hmul] at h
  exact lamports_cut hlt h

/-- For a coin whose client pays the converted amount unless it is zero. -/
theorem nonzero_twice_iff {t u : ℕ} :
    ((if u = 0 then none else some u) = (if t = 0 then none else some t) ∧
      ∀ m, (if u = 0 then none else some u) = some m → m = t) ↔ u = t := by
  constructor
  · intro ⟨h, _⟩
    by_cases hu : u = 0
    · by_cases ht : t = 0
      · omega
      · simp [hu, ht] at h
    · by_cases ht : t = 0
      · simp [hu, ht] at h
      · simpa [hu, ht] using h
  · intro h
    subst h
    refine ⟨rfl, fun m hm => ?_⟩
    split at hm
    · cases hm
    · exact (Option.some.inj hm).symm

/-- What is paid for the converted amount is the converted amount, and is paid for the
amount itself too, exactly when converting twice is converting once. -/
theorem paidFor_converted {coin : Coin} {n : ℕ} (hn : n < 2 ^ 128) :
    (paidFor coin (toOnchainAmount coin n) = paidFor coin n ∧
      ∀ m, paidFor coin (toOnchainAmount coin n) = some m → m = toOnchainAmount coin n) ↔
      ConvertsOnce coin n := by
  cases coin with
  | btc | ltc | doge | bch | dgb | zer =>
    rw [toOnchainAmount_eight hn rfl]
    refine iff_of_true ⟨rfl, fun m hm => ?_⟩ (.inl rfl)
    dsimp only [paidFor] at hm
    split at hm
    · exact (Option.some.inj hm).symm
    · cases hm
  | pol =>
    rw [← toOnchainAmount_twice_iff hn (by decide)]
    simp only [paidFor, Option.some.injEq]
    exact ⟨And.left, fun h => ⟨h, fun m hm => by rw [← hm, h]⟩⟩
  | usdt | usdc | pepe =>
    rw [← toOnchainAmount_twice_iff hn (by decide)]
    exact nonzero_twice_iff
  | sol =>
    simp only [paidFor, ConvertsOnce, Coin.onchainDecimals]
    constructor
    · rintro ⟨-, h⟩
      by_cases hzero : toOnchainAmount .sol (toOnchainAmount .sol n) = 0
      · refine .inr (.inl ?_)
        simp only [toOnchainAmount_sol, saturate128] at hzero
        omega
      · exact .inr (.inl (lamports_twice (h _ (if_neg hzero))))
    · intro h
      have hn : n = 0 := by omega
      subst hn
      decide

/-- A payment of the converted amount is one of the amount itself. -/
theorem payWithdrawal_converted {W : ChainWorld} {coin : Coin} {deposit : String} {n : ℕ}
    (hn : n < 2 ^ 128) (h : ConvertsOnce coin n) :
    payWithdrawal W coin deposit (toOnchainAmount coin n) = payWithdrawal W coin deposit n := by
  by_cases hcoin : coin.onchainDecimals = 8
  · rw [toOnchainAmount_eight hn hcoin]
  · refine payWithdrawal_congr hcoin ?_
    by_cases hsol : coin = .sol
    · subst hsol
      have hzero : n = 0 := by
        simp only [ConvertsOnce, Coin.onchainDecimals] at h
        omega
      subst hzero
      decide
    · exact (toOnchainAmount_twice_iff hn hsol).2 h

theorem eq_of_toList_eq {α : Type} {a b : Option α} (h : a.toList = b.toList) : a = b := by
  cases a with
  | none =>
    cases b with
    | none => rfl
    | some b => cases h
  | some a =>
    cases b with
    | none => cases h
    | some b => cases h; rfl

theorem convertsOnce_of_unitsAgree {hot : String} {row : DexSwapRow} {n : ℕ}
    (h : UnitsAgree hot row) (hn : parseU128 row.fromAmount.toList = some n)
    (hrow : row.SimpleTransfer) : ConvertsOnce row.fromCoin n := by
  have hlt := parseU128_lt hn
  by_cases hzer : row.fromCoin = .zer
  · exact .inl (by rw [hzer]; rfl)
  have hne {P : Prop} : row.fromCoin = .zer → P := fun hc => absurd hc hzer
  have := h n _ _ hn ((broadcastPlan_transfer hn).2 ⟨hrow, rfl, rfl⟩) (willingWorld hot)
    (willingWorld_hotAt hot)
  rw [willingWorld_pays (toOnchainAmount_lt hlt _) hne, willingWorld_pays hlt hne] at this
  exact (paidFor_converted hlt).1
    ⟨eq_of_toList_eq this.1, fun m hm => this.2 m (by rw [hm]; exact List.mem_singleton_self m)⟩

theorem sentAway_of_unitsAgree {hot : String} {row : DexSwapRow} {n : ℕ}
    (h : UnitsAgree hot row) (hn : parseU128 row.fromAmount.toList = some n)
    (hrow : row.SimpleTransfer) : SentAway hot row.fromCoin (row.depositAddress.getD "") n := by
  refine sentAway_of_paid fun hzer W hW x hx => ?_
  have heq : toOnchainAmount row.fromCoin n = n :=
    toOnchainAmount_eight (parseU128_lt hn) (by rw [hzer]; rfl)
  have := (h n _ _ hn ((broadcastPlan_transfer hn).2 ⟨hrow, rfl, rfl⟩) W hW).2 x
  rw [heq, hzer] at this
  exact this hx

def polTransfer : DexSwapRow :=
  { id := 1, userId := 1, fromCoin := .pol, toCoin := .btc, fromAmount := "100000000"
    expectedToAmount := "1000", minToAmount := none, actualToAmount := none
    status := .broadcasting, provider := "CHANGENOW", providers := [], quoteId := none
    txHint := some "simpleTransfer", inboundMemo := none, depositAddress := some "0xd"
    inboundTx := none, outboundTx := none, swapPayload := none, error := none }

/-- What the spender is allowed once the approvals are through: what it was, where the
endpoint's reply covers the need, else everything. -/
def allowanceLeft (need allowed : ℕ) (r : AllowanceReplies) (spender : Address) : ℕ :=
  if need ≤ r.allowance.toOption.getD 0 then allowed else calldataAmount (approvalData spender none)

/-- `asks to data` is what the contract `to` pulls of the token when it is called with
`data`, if it is allowed to. -/
def SoldAtMostDebited (asks : String → String → ℕ) (row : DexSwapRow) : Prop :=
  ∀ fromAmount call, parseU128 row.fromAmount.toList = some fromAmount →
    broadcastPlan row = .contractCall call →
    let debited := toOnchainAmount row.fromCoin fromAmount
    ∀ W, ∀ t ∈ (callContract W row.fromCoin call).sent,
      (isErc20 row.fromCoin = false → t.tx.valueWei ≤ debited + tolerance debited) ∧
      (isErc20 row.fromCoin = true → t.tx.valueWei = 0 ∧ ∀ s i allowed spender,
        min (asks call.toAddr call.dataHex)
          (allowanceLeft (call.erc20SellAmount.getD 1) allowed (W.approvals s i) spender) ≤
          debited + tolerance debited)

/-- The route of an ERC-20 coin names no native value and asks for no more than is
debited. -/
def RouteFits (asks : String → String → ℕ) (row : DexSwapRow) : Prop :=
  ∀ fromAmount payload tx, parseU128 row.fromAmount.toList = some fromAmount →
    row.txHint = some "contractCall" → row.swapPayload = some payload →
    parseContractCallTx payload = some tx → isErc20 row.fromCoin = true →
    let debited := toOnchainAmount row.fromCoin fromAmount
    tx.valueWei = 0 ∧ asks tx.toAddr tx.data ≤ debited + tolerance debited

theorem contractCallPlan_eq {row : DexSwapRow} {onchainAmount : ℕ} {call : EvmContractCall} :
    contractCallPlan row onchainAmount = .contractCall call ↔
      ∃ payload tx, row.swapPayload = some payload ∧ parseContractCallTx payload = some tx ∧
      valueMismatch row.fromCoin tx.valueWei onchainAmount = false ∧
      call = evmCallOf row.fromCoin onchainAmount payload tx := by
  unfold contractCallPlan
  cases row.swapPayload with
  | none => simp
  | some payload =>
    dsimp only
    cases htx : parseContractCallTx payload with
    | none => simp [htx]
    | some tx =>
      dsimp only
      by_cases hm : valueMismatch row.fromCoin tx.valueWei onchainAmount
      · rw [if_pos hm]
        refine iff_of_false nofun fun ⟨payload', tx', hpayload, htx', hm', _⟩ => ?_
        cases hpayload
        cases htx.symm.trans htx'
        exact absurd hm (by rw [hm']; decide)
      · rw [if_neg hm, BroadcastPlan.contractCall.injEq]
        constructor
        · intro hcall
          exact ⟨payload, tx, rfl, htx, Bool.eq_false_of_not_eq_true hm, hcall.symm⟩
        · intro ⟨payload', tx', hpayload, htx', _, hcall⟩
          cases hpayload
          cases htx.symm.trans htx'
          exact hcall.symm

theorem transferPlan_ne {row : DexSwapRow} {onchainAmount : ℕ} {call : EvmContractCall} :
    transferPlan row onchainAmount ≠ .contractCall call := by
  unfold transferPlan
  dsimp only
  split
  · simp
  · split <;> simp

theorem broadcastPlan_contractCall {row : DexSwapRow} {fromAmount : ℕ} {call : EvmContractCall}
    (hfrom : parseU128 row.fromAmount.toList = some fromAmount) :
    broadcastPlan row = .contractCall call ↔
      row.txHint = some "contractCall" ∧
      contractCallPlan row (toOnchainAmount row.fromCoin fromAmount) = .contractCall call := by
  unfold broadcastPlan
  rw [hfrom]
  dsimp only
  cases hhint : row.txHint with
  | none => simpa using transferPlan_ne
  | some hint =>
    simp only [Option.getD_some, Option.some.injEq]
    by_cases hsol : hint = "solanaRelay"
    · subst hsol
      have : solanaRelayPlan row ≠ .contractCall call := by
        unfold solanaRelayPlan
        split
        · simp
        · split <;> simp
      simp [this]
    · by_cases hcall : hint = "contractCall"
      · simp [hcall]
      · simp [hsol, hcall, transferPlan_ne]

theorem le_of_valueMismatch {valueWei expected : ℕ}
    (h : valueMismatch .pol valueWei expected = false) : valueWei ≤ expected + tolerance expected := by
  by_contra hlt
  have htolerance : tolerance expected < absDiff valueWei expected := by
    unfold absDiff
    omega
  unfold tolerance at htolerance
  have hpos : 0 < valueWei := by omega
  simp [valueMismatch, hpos, lt_of_le_of_lt (le_max_left _ _) htolerance,
    lt_of_le_of_lt (le_max_right _ _) htolerance] at h

theorem calldataAmount_approvalData (spender : Address) :
    calldataAmount (approvalData spender none) = 2 ^ 256 - 1 := by
  unfold calldataAmount approvalData erc20ApproveMaxData
  rw [List.length_append, List.length_replicate, Nat.add_sub_cancel, List.drop_left]
  decide +kernel

theorem callContract_sends {W : ChainWorld} {coin : Coin} {call : EvmContractCall} :
    ∀ t ∈ (callContract W coin call).sent, t.tx.valueWei = call.valueWei := by
  intro t ht
  have hnone : ∀ e, t ∉ (⟨[], .error e⟩ : EvmCall).sent := fun e => List.not_mem_nil
  unfold callContract at ht
  cases coin with
  | pol | usdt | usdc | pepe =>
    dsimp only at ht
    split at ht
    · exact absurd ht (hnone _)
    · exact broadcastPolygonContractCall_sends _ _ _ _ _ _ _ t ht
  | _ => exact absurd ht (hnone _)

theorem callContract_coin {W : ChainWorld} {coin : Coin} {call : EvmContractCall}
    (h : (callContract W coin call).sent ≠ []) : coin = .pol ∨ isErc20 coin = true := by
  cases coin with
  | pol => exact .inl rfl
  | usdt | usdc | pepe => exact .inr rfl
  | _ => exact absurd rfl h

theorem tolerance_lt {expected : ℕ} (h : expected < 2 ^ 128) :
    expected + tolerance expected < 2 ^ 256 - 1 := by
  unfold tolerance
  omega

theorem soldAtMostDebited_of_routeFits {asks : String → String → ℕ} {row : DexSwapRow}
    (h : RouteFits asks row) : SoldAtMostDebited asks row := by
  intro fromAmount call hfrom hplan debited W t ht
  obtain ⟨hhint, hplan⟩ := (broadcastPlan_contractCall hfrom).1 hplan
  obtain ⟨payload, tx, hpayload, htx, hvalue, rfl⟩ := contractCallPlan_eq.1 hplan
  rw [callContract_sends t ht]
  constructor
  · intro herc
    have hpol : row.fromCoin = .pol := by
      rcases callContract_coin (List.ne_nil_of_mem ht) with hpol | h
      · exact hpol
      · rw [herc] at h; cases h
    rw [hpol] at hvalue
    have := le_of_valueMismatch hvalue
    rwa [← hpol] at this
  · intro herc
    obtain ⟨hzero, hasks⟩ := h fromAmount payload tx hfrom hhint hpayload htx herc
    exact ⟨hzero, fun s i allowed spender => le_trans (min_le_left _ _) hasks⟩

/-! ### A call that goes through -/

def HexData (tx : ContractCallTx) : Prop := startsWith0x tx.data || startsWith0X tx.data

theorem hexData_of_extract {root : Value} {tx : ContractCallTx}
    (h : extractContractCallTx root = some tx) : HexData tx := by
  unfold extractContractCallTx at h
  obtain ⟨v, -, h⟩ := Option.bind_eq_some_iff.1 h
  obtain ⟨toAddr, -, h⟩ := Option.bind_eq_some_iff.1 h
  obtain ⟨data, hdata, h⟩ := Option.bind_eq_some_iff.1 h
  cases h
  exact (Option.filter_eq_some_iff.1 hdata).2

theorem orElse_cases {α : Type} {x y : Option α} {a : α} (h : (x <|> y) = some a) :
    x = some a ∨ y = some a := by
  cases x with
  | none => exact .inr h
  | some b => exact .inl h

theorem hexData_of_parse {payload : Value} {tx : ContractCallTx}
    (h : parseContractCallTx payload = some tx) : HexData tx := by
  rcases orElse_cases h with h | h
  · exact hexData_of_extract h
  · obtain ⟨s, -, h⟩ := Option.bind_eq_some_iff.1 h
    rcases orElse_cases h with h | h
    · exact hexData_of_extract h
    · obtain ⟨v, -, h⟩ := Option.bind_eq_some_iff.1 h
      exact hexData_of_extract h

theorem rdropWhile_cons {p : Char → Bool} {c : Char} {l : List Char} (hc : p c = false) :
    (c :: l).rdropWhile p = c :: l.rdropWhile p := by
  unfold List.rdropWhile
  rw [List.reverse_cons, List.dropWhile_append]
  split
  · rename_i h
    simp [List.isEmpty_iff.1 h, hc]
  · rw [List.reverse_append]
    rfl

theorem trim_hex {x : Char} {l : List Char} (hx : isWhitespace x = false) :
    trim ('0' :: x :: l) = '0' :: x :: l.rdropWhile isWhitespace := by
  unfold trim
  rw [List.dropWhile_cons_of_neg (by decide), rdropWhile_cons (by decide), rdropWhile_cons hx]

theorem hexDigits_of_hexData {tx : ContractCallTx} (h : HexData tx) :
    ∃ digits, hexDigits (String.ofList (trim tx.data.toList)) = some digits := by
  unfold HexData startsWith0x startsWith0X at h
  obtain ⟨x, l, hl, hx⟩ : ∃ x l, tx.data.toList = '0' :: x :: l ∧ (x = 'x' ∨ x = 'X') := by
    rcases hdata : tx.data.toList with _ | ⟨a, _ | ⟨b, l⟩⟩
    · simp [hdata] at h
    · simp [hdata] at h
    · simp [hdata] at h
      rcases h with ⟨rfl, rfl⟩ | ⟨rfl, rfl⟩
      · exact ⟨_, _, rfl, .inl rfl⟩
      · exact ⟨_, _, rfl, .inr rfl⟩
  rcases hx with rfl | rfl
  · refine ⟨String.ofList (l.rdropWhile isWhitespace), ?_⟩
    unfold hexDigits
    rw [String.toList_ofList, hl, trim_hex (by decide)]
    rfl
  · refine ⟨String.ofList (l.rdropWhile isWhitespace), ?_⟩
    unfold hexDigits
    rw [String.toList_ofList, hl, trim_hex (by decide)]
    rfl

theorem foldlM_ok {ε α β : Type} {f : β → α → Except ε β} (h : ∀ b a, ∃ b', f b a = .ok b') :
    ∀ (l : List α) (b : β), ∃ b', l.foldlM f b = .ok b'
  | [], b => ⟨b, rfl⟩
  | a :: l, b => by
    obtain ⟨b₁, hb⟩ := h b a
    obtain ⟨b₂, hl⟩ := foldlM_ok h l b₁
    exact ⟨b₂, by rw [List.foldlM_cons, hb]; exact hl⟩

theorem approveSpenders_ok {ensure : String → ℕ → Except BroadcastError ℕ}
    (h : ∀ s i, ∃ fee, ensure s i = .ok fee) (spenders : List String) :
    ∃ fee, approveSpenders ensure spenders = .ok fee := by
  refine foldlM_ok (fun fee s => ?_) spenders.zipIdx 0
  obtain ⟨f, hf⟩ := h s.1 s.2
  exact ⟨saturate128 (fee + f), by rw [hf]⟩

theorem willing_contractTurn {C : EvmCrypto}
    (hsign : ∀ secret tx, C.signLegacyTx secret tx = .ok "0xf8") (T : ContractTransfer)
    (rpcUrl : String) : ∃ tx result, contractTurn C T rpcUrl willingReplies =
      .done (some ⟨tx, false⟩) result := by
  have hgas : ∀ n, ¬ 2 ^ 128 - 1 < saturate128 n := fun n =>
    not_lt.2 (Nat.le_sub_one_of_lt (saturate128_lt n))
  unfold contractTurn
  simp only [willingReplies, ask, submit, hsign, hgas, if_false]
  exact ⟨_, _, rfl⟩

theorem willing_allowance (token spender : String) (need chainId i : ℕ) :
    ∃ fee, ensureErc20Allowance (willingWorld "hot").evmCrypto
      (willingWorld "hot").config.evmRpcUrl approvalData [1] token spender need chainId ((willingWorld "hot").approvals i) = .ok fee := by
  by_cases hneed : need ≤ 0
  · exact ⟨0, if_pos hneed⟩
  · exact ⟨_, if_neg hneed⟩

theorem willing_contract {coin : Coin} (call : EvmContractCall) {digits : String}
    (hcoin : isErc20 coin = true)
    (hdigits : hexDigits (String.ofList (trim call.dataHex.toList)) = some digits) :
    (callContract (willingWorld "hot") coin call).sent ≠ [] := by
  obtain ⟨token, chainId, htoken, hchain, hready⟩ : ∃ token chainId,
      (paramsFor coin .mainnet).erc20Contract = some token ∧
      (paramsFor coin .mainnet).evmChainId = some chainId ∧
      callContract (willingWorld "hot") coin call =
        broadcastPolygonContractCall (willingWorld "hot").evmCrypto
          (willingWorld "hot").config.evmRpcUrl (paramsFor coin .mainnet)
          (willingWorld "hot").hotKeyMaterial approvalData call (willingWorld "hot").approvals
          (willingWorld "hot").evm := by
    cases coin with
    | usdt | usdc | pepe => exact ⟨_, _, rfl, rfl, rfl⟩
    | _ => cases hcoin
  rw [hready]
  obtain ⟨fee, hfee⟩ := approveSpenders_ok
    (fun spender s => willing_allowance token spender (call.erc20SellAmount.getD 1) chainId s)
    (dexSpenders call)
  obtain ⟨o, ho, hes, T, hturn⟩ : ∃ o, contractOffer (willingWorld "hot").evmCrypto
      (willingWorld "hot").config.evmRpcUrl (paramsFor coin .mainnet) (willingWorld "hot").hotKeyMaterial
      approvalData call (willingWorld "hot").approvals (willingWorld "hot").evm = .ok o ∧
      (∃ e es, o.endpoints = e :: es ∧ e.2 = willingReplies) ∧
      ∃ T, o.turn = contractTurn (willingWorld "hot").evmCrypto T := by
    have hfrom : checkFromHint (willingWorld "hot").evmCrypto call.fromHint [2]
        ("0x" ++ (willingWorld "hot").evmCrypto.hex [2]) = .ok () := by
      cases hint : call.fromHint with
      | none => rfl
      | some hint => rfl
    unfold contractOffer
    simp only [htoken, hchain, hdigits, okOr]
    show ∃ o, (checkFromHint (willingWorld "hot").evmCrypto call.fromHint [2] _ >>= fun _ =>
      (approveSpenders _ _ : Except BroadcastError ℕ) >>= _) = .ok o ∧ _
    rw [hfrom]
    show ∃ o, ((approveSpenders _ _ : Except BroadcastError ℕ) >>= _) = .ok o ∧ _
    rw [hfee]
    exact ⟨_, rfl, ⟨_, _, rfl, rfl⟩, _, rfl⟩
  obtain ⟨e, es, hes, he⟩ := hes
  obtain ⟨tx, result, htx⟩ := willing_contractTurn (C := (willingWorld "hot").evmCrypto)
    (fun _ _ => rfl) T e.1
  have hsent := broadcast_sent hes (by rw [hturn, he]; exact htx)
  unfold broadcastPolygonContractCall
  rw [ho, hsent]
  simp

theorem routeFits_of_soldAtMostDebited {asks : String → String → ℕ} {row : DexSwapRow}
    (h : SoldAtMostDebited asks row) : RouteFits asks row := by
  intro fromAmount payload tx hfrom hhint hpayload htx herc debited
  have hmatch : valueMismatch row.fromCoin tx.valueWei debited = false := by
    unfold valueMismatch
    cases hcoin : row.fromCoin <;> simp_all [isErc20]
  have hplan := (broadcastPlan_contractCall hfrom).2 ⟨hhint,
    contractCallPlan_eq.2 ⟨payload, tx, hpayload, htx, hmatch, rfl⟩⟩
  obtain ⟨digits, hdigits⟩ := hexDigits_of_hexData (hexData_of_parse htx)
  obtain ⟨t, ht⟩ := List.exists_mem_of_ne_nil _
    (willing_contract (evmCallOf row.fromCoin debited payload tx) herc hdigits)
  obtain ⟨hzero, hpulled⟩ := (h fromAmount _ hfrom hplan (willingWorld "hot") t ht).2 herc
  rw [callContract_sends t ht] at hzero
  refine ⟨hzero, ?_⟩
  have hall := hpulled 0 0 (2 ^ 256 - 1) []
  have hleft : ∀ need r, allowanceLeft need (2 ^ 256 - 1) r [] = 2 ^ 256 - 1 := by
    intro need r
    unfold allowanceLeft
    rw [calldataAmount_approvalData, ite_self]
  rw [hleft] at hall
  have hbound := tolerance_lt (toOnchainAmount_lt (parseU128_lt hfrom) row.fromCoin)
  rcases min_le_iff.1 hall with hall | hall
  · exact hall
  · exact absurd hall (not_le.2 hbound)

def usdcCall : DexSwapRow :=
  { id := 1, userId := 1, fromCoin := .usdc, toCoin := .pol, fromAmount := "100000000"
    expectedToAmount := "1000", minToAmount := none, actualToAmount := none
    status := .broadcasting, provider := "SWAPKIT", providers := ["ONEINCH"], quoteId := none
    txHint := some "contractCall", inboundMemo := none, depositAddress := some "0xd"
    inboundTx := none, outboundTx := none, error := none
    swapPayload := some (.object [("tx", .object [("to", .string "0xr"), ("data", .string "0x01"),
      ("value", .string "0x1")])]) }

end SatsPay
