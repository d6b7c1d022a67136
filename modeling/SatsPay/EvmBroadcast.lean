import SatsPay.Coins
import SatsPay.Failover
import SatsPay.Json

/-!
# Transfers on EVM chains

`broadcast_pol`, `broadcast_erc20` and `broadcast_polygon_contract_call`: one
transfer offered to several RPC endpoints, each of which is asked for the nonce
again.
-/

namespace SatsPay

open Failover

abbrev Address := List ℕ
abbrev Secret := List ℕ

structure LegacyTx where
  nonce : ℕ
  gasPriceWei : ℕ
  gasLimit : ℕ
  toAddr : Address
  valueWei : ℕ
  data : List ℕ
  chainId : ℕ

structure EvmCrypto where
  parseSecretKeyBytes : String → Except String Secret
  addressFromSecret : Secret → Except String Address
  parseAddress : String → Except String Address
  hex : List ℕ → String
  decodeHex : String → Except String (List ℕ)
  transferData : Address → ℕ → List ℕ
  signLegacyTx : Secret → LegacyTx → Except String String

/-- What `eth_sendRawTransaction` comes to. -/
inductive Send where
  | accepted (txid : String)
  | rejected (e : String)
  /-- Accepted, but the reply was lost. -/
  | lost (e : String)

structure EvmReplies where
  transactionCount : Except String ℕ
  gasPrice : Except String ℕ
  estimateGas : Except String ℕ
  simulateCall : Except String Unit
  balance : Except String ℕ
  erc20Balance : Except String ℕ
  send : Send
  receipt : Except String Bool

structure BroadcastResult where
  txHash : String
  feeAmount : ℕ

structure BroadcastError where
  message : String
  safeToReverse : Bool

abbrev EvmTurn := Turn LegacyTx BroadcastResult BroadcastError
abbrev EvmCall := Call LegacyTx BroadcastResult BroadcastError

/-- Certain that nothing left the wallet. -/
def certain (message : String) : BroadcastError := ⟨message, true⟩

def okOr {α : Type} (o : Option α) (message : String) : Except BroadcastError α :=
  match o with
  | some a => .ok a
  | none => .error (certain message)

def failIf (c : Prop) [Decidable c] (message : String) : Except BroadcastError Unit :=
  if c then .error (certain message) else .ok ()

/-- `scheme://host` of an RPC URL, without userinfo, path and query. -/
def rpcHost (url : String) : String :=
  let (scheme, rest) := match url.splitOn "://" with
    | scheme :: r :: rs => (scheme, "://".intercalate (r :: rs))
    | _ => ("", url)
  let authority := rest.toList.takeWhile fun c => c != '/' && c != '?' && c != '#'
  let host := String.ofList (authority.reverse.takeWhile (· != '@')).reverse
  if scheme.isEmpty then host else s!"{scheme}://{host}"

/-- A question to an endpoint; without an answer the next one is tried. -/
def ask {α : Type} (reply : Except String α) (error : String → String) (k : α → EvmTurn) :
    EvmTurn :=
  match reply with
  | .ok a => k a
  | .error e => .next (error e)

/-- Sign and send, then go on with the transaction's hash. -/
def submit (C : EvmCrypto) (secret : Secret) (tx : LegacyTx) (host : String) (send : Send)
    (k : String → EvmTurn) : EvmTurn :=
  match C.signLegacyTx secret tx with
  | .error e => .done none (.error (certain e))
  | .ok _ =>
    match send with
    | .accepted txid => k txid
    | .rejected e => .next s!"broadcast failed on {host}: {e}"
    | .lost e => .lost tx s!"broadcast failed on {host}: {e}"

def feeOf (gasPrice gasLimit : ℕ) : ℕ := saturate128 (gasPrice * gasLimit) / 10000000000

/-- A transfer that is ready to be offered: the endpoints, what each comes to, and
the error when all fail. -/
structure Offer where
  endpoints : List (String × EvmReplies)
  turn : String → EvmReplies → EvmTurn
  failed : String → BroadcastError

def Offer.turns (o : Offer) : List EvmTurn := o.endpoints.map fun e => o.turn e.1 e.2

def broadcast : Except BroadcastError Offer → EvmCall
  | .error e => ⟨[], .error e⟩
  | .ok o => tryAll o.failed o.turns ""

/-! ## POL -/

def polEndpoints (evmRpcUrl : String) : List String :=
  [evmRpcUrl, "https://polygon-bor-rpc.publicnode.com", "https://1rpc.io/matic",
    "https://polygon.drpc.org", "https://polygon-rpc.com"]

section
variable (C : EvmCrypto)

def polTurn (secret : Secret) (toAddr : Address) (amountWei chainId : ℕ) (rpcUrl : String)
    (r : EvmReplies) : EvmTurn :=
  let host := rpcHost rpcUrl
  ask r.transactionCount (fun e => s!"nonce failed on {host}: {e}") fun nonce =>
  ask r.gasPrice (fun e => s!"gas_price failed on {host}: {e}") fun g =>
  let gasPrice := max g 30000000000
  let gasLimit := match r.estimateGas with
    | .ok l => max l 21000
    | .error _ => 21000
  let tx : LegacyTx := ⟨nonce, gasPrice, gasLimit, toAddr, amountWei, [], chainId⟩
  submit C secret tx host r.send fun txid =>
  .done (some ⟨tx, false⟩) (.ok ⟨txid, feeOf gasPrice gasLimit⟩)

/-- `replies i` is what the `i`-th endpoint would reply. -/
def polOffer (evmRpcUrl : String) (chainId : Option ℕ) (wif toAddress : String)
    (amountInternal : ℕ) (replies : ℕ → EvmReplies) : Except BroadcastError Offer := do
  let amountWei := saturate128 (amountInternal * 10000000000)
  let secret ← (C.parseSecretKeyBytes wif).mapError certain
  let _from ← (C.addressFromSecret secret).mapError certain
  let toAddr ← (C.parseAddress toAddress).mapError certain
  pure ⟨(polEndpoints evmRpcUrl).zipIdx.map fun e => (e.1, replies e.2),
    polTurn C secret toAddr amountWei (chainId.getD 137),
    fun lastError => certain s!"EVM broadcast falhou em todos os RPCs: {lastError}"⟩

def broadcastPol (evmRpcUrl : String) (chainId : Option ℕ) (wif toAddress : String)
    (amountInternal : ℕ) (replies : ℕ → EvmReplies) : EvmCall :=
  broadcast (polOffer C evmRpcUrl chainId wif toAddress amountInternal replies)

/-! ## ERC-20 tokens -/

structure EvmConfig where
  evmRpcUrl : String
  bscRpcUrl : String

structure CoinParams where
  evmChainId : Option ℕ
  erc20Contract : Option String

def tokenRpcUrls (config : EvmConfig) (params : CoinParams) : List String :=
  let urls := if params.evmChainId = some 56 then
      [config.bscRpcUrl, "https://bsc-dataseed.binance.org", "https://bsc-rpc.publicnode.com",
        "https://1rpc.io/bnb"]
    else [config.evmRpcUrl, "https://polygon-bor-rpc.publicnode.com", "https://1rpc.io/matic",
      "https://polygon.drpc.org"]
  urls.foldl (fun out url =>
    let url := String.ofList (trim url.toList)
    if url.isEmpty || out.contains url then out else out ++ [url]) []

def minGasPriceWei (params : CoinParams) : ℕ :=
  if params.evmChainId = some 56 then 50000000 else 30000000000

def gasTokenLabel (params : CoinParams) : String :=
  if params.evmChainId = some 56 then "BNB" else "POL"

/-- What the token path has settled before it asks an endpoint. -/
structure Erc20Transfer where
  coin : Coin
  params : CoinParams
  secret : Secret
  fromHex : String
  tokenAddr : Address
  amountToken : ℕ
  data : List ℕ
  chainId : ℕ

def erc20Turn (T : Erc20Transfer) (rpcUrl : String) (r : EvmReplies) : EvmTurn :=
  let host := rpcHost rpcUrl
  let fromHex := T.fromHex
  let label := gasTokenLabel T.params
  ask r.erc20Balance (fun e => s!"balance check failed on {host}: {e}") fun bal =>
  if bal < T.amountToken then
    .done none (.error (certain s!"hot wallet {fromHex} has insufficient {T.coin.asStr}: have {bal} need {T.amountToken} (on-chain units)"))
  else
  ask r.transactionCount (fun e => s!"nonce failed on {host}: {e}") fun nonce =>
  ask r.gasPrice (fun e => s!"gas_price failed on {host}: {e}") fun g =>
  let gasPrice := max g (minGasPriceWei T.params)
  -- an estimate that fails means that the transfer would revert
  match r.estimateGas with
  | .error e => .done none (.error (certain s!"ERC-20 transfer would revert (estimateGas): {e}"))
  | .ok l =>
    let gasLimit := max l 65000
    let gasCost := saturate128 (gasPrice * gasLimit)
    ask r.balance (fun e => s!"native balance failed on {host}: {e}") fun native =>
    if native < gasCost then
      .done none (.error (certain s!"hot wallet {fromHex} sem {label} para taxa: tem {native} wei, precisa {gasCost} wei (gas_price {gasPrice} × gas_limit {gasLimit})"))
    else
    let tx : LegacyTx := ⟨nonce, gasPrice, gasLimit, T.tokenAddr, 0, T.data, T.chainId⟩
    submit C T.secret tx host r.send fun txid =>
    match r.receipt with
    | .ok true => .done (some ⟨tx, false⟩) (.ok ⟨txid, feeOf gasPrice gasLimit⟩)
    | .ok false =>
      .done (some ⟨tx, true⟩) (.error (certain s!"ERC-20 tx reverted on-chain: {txid}"))
    | .error e => .done (some ⟨tx, false⟩)
        (.error ⟨s!"ERC-20 broadcasted ({txid}) but receipt wait failed: {e}", false⟩)

def erc20Offer (config : EvmConfig) (coin : Coin) (params : CoinParams) (wif toAddress : String)
    (amountInternal : ℕ) (replies : ℕ → EvmReplies) : Except BroadcastError Offer := do
  let token ← okOr params.erc20Contract "missing ERC-20 contract"
  let amountToken := toOnchainAmount coin amountInternal
  failIf (amountToken = 0) "token amount too small after scale"
  let secret ← (C.parseSecretKeyBytes wif).mapError certain
  let fromAddr ← (C.addressFromSecret secret).mapError certain
  let toAddr ← (C.parseAddress toAddress).mapError certain
  let tokenAddr ← (C.parseAddress token).mapError certain
  let chainId ← okOr params.evmChainId
    s!"{coin.asStr} sem chain id EVM (testnet recusado ou params incompletos)"
  let urls := tokenRpcUrls config params
  failIf (urls = []) "nenhum RPC EVM configurado"
  let T : Erc20Transfer := ⟨coin, params, secret, "0x" ++ C.hex fromAddr, tokenAddr, amountToken,
    C.transferData toAddr amountToken, chainId⟩
  pure ⟨urls.zipIdx.map fun e => (e.1, replies e.2), erc20Turn C T,
    fun lastError => certain s!"ERC-20 broadcast falhou: {lastError}"⟩

def broadcastErc20 (config : EvmConfig) (coin : Coin) (params : CoinParams)
    (wif toAddress : String) (amountInternal : ℕ) (replies : ℕ → EvmReplies) : EvmCall :=
  broadcast (erc20Offer C config coin params wif toAddress amountInternal replies)

/-! ## Contract calls -/

structure EvmContractCall where
  toAddr : String
  dataHex : String
  valueWei : ℕ
  gasLimitHint : Option ℕ
  gasPriceHint : Option ℕ
  fromHint : Option String
  erc20SellAmount : Option ℕ
  approvalAddress : Option String

structure ApproveReplies where
  transactionCount : Except String ℕ
  gasPrice : Except String ℕ
  estimateGas : Except String ℕ
  send : Except String String
  receipt : Except String Bool

structure AllowanceReplies where
  allowance : Except String ℕ
  zero : ApproveReplies
  max : ApproveReplies

def contractEndpoints (evmRpcUrl : String) : List String :=
  [evmRpcUrl, "https://polygon-bor-rpc.publicnode.com", "https://1rpc.io/matic",
    "https://polygon.drpc.org", "https://polygon-mainnet.public.blastapi.io"].foldl
    (fun seen url => if url.isEmpty || seen.contains url then seen else seen ++ [url]) []

def broadcastErc20ApproveOnce (secret : Secret) (token : Address) (data : List ℕ) (chainId : ℕ)
    (host : String) (r : ApproveReplies) : Except BroadcastError ℕ := do
  let nonce ← r.transactionCount.mapError fun e => certain s!"approve nonce failed on {host}: {e}"
  let g ← r.gasPrice.mapError fun e => certain s!"approve gas_price failed on {host}: {e}"
  let gasPrice := max g 30000000000
  let gasLimit := max (r.estimateGas.toOption.getD 60000) 50000
  let _raw ← (C.signLegacyTx secret ⟨nonce, gasPrice, gasLimit, token, 0, data, chainId⟩).mapError
    certain
  let txid ← r.send.mapError fun e => certain s!"approve broadcast failed on {host}: {e}"
  match r.receipt with
  | .ok true => .ok (feeOf gasPrice gasLimit)
  | .ok false => .error (certain s!"approve reverted ({txid})")
  | .error e => .error ⟨s!"approve receipt wait failed ({txid}): {e}", false⟩

/-- `approveData spender n` is the calldata of an approval. -/
def approveLoop (secret : Secret) (token : Address) (approveData : Option ℕ → List ℕ)
    (need chainId : ℕ) : List (String × AllowanceReplies) → List String → Except BroadcastError ℕ
  | [], errors => .error (certain ("ERC-20 approve falhou: " ++ "; ".intercalate errors))
  | (rpcUrl, r) :: rest, errors =>
    let host := rpcHost rpcUrl
    let (allowance, errors) := match r.allowance with
      | .ok a => (a, errors)
      | .error e => (0, errors ++ [s!"allowance failed on {host}: {e}"])
    if need ≤ allowance then .ok 0
    else
      -- some tokens want the allowance set to zero first
      let zero := if 0 < allowance then
          broadcastErc20ApproveOnce C secret token (approveData (some 0)) chainId host r.zero
        else .ok 0
      match zero with
      | .error e => approveLoop secret token approveData need chainId rest
          (errors ++ [s!"{host}: {e.message}"])
      | .ok feeTotal =>
        match broadcastErc20ApproveOnce C secret token (approveData none) chainId host r.max with
        | .ok fee => .ok (saturate128 (feeTotal + fee))
        | .error e => approveLoop secret token approveData need chainId rest
            (errors ++ [s!"{host}: {e.message}"])

def ensureErc20Allowance (evmRpcUrl : String) (approveData : Address → Option ℕ → List ℕ)
    (secret : Secret) (token spender : String) (need chainId : ℕ)
    (replies : ℕ → AllowanceReplies) : Except BroadcastError ℕ := do
  let spenderBytes ← (C.parseAddress spender).mapError fun e =>
    certain s!"bad approve spender: {e}"
  let tokenAddr ← (C.parseAddress token).mapError fun e => certain s!"bad token: {e}"
  approveLoop C secret tokenAddr (approveData spenderBytes) need chainId
    ((contractEndpoints evmRpcUrl).zipIdx.map fun e => (e.1, replies e.2)) []

/-- The scan of the calldata only finds spenders that are in the list already. -/
def polygonDexSpenderCandidates : List String :=
  ["0x111111125421cA6dc452D289314280a0f8842A65", "0x1111111254EEB25477B68fb85Ed929f73A960582",
    "0x111116053f09d34a7eae8102887004445176ca11", "0x6131B5fae19EA4f9D964eAc0408E4408b66337b5",
    "0x1095692A6237d83C6a72F3F5eFEdb9A670C49223", "0xDef1C0ded9bec7F1a1670819833240f027b25EfF"]

def dexSpenders (call : EvmContractCall) : List String :=
  let add (spenders : List String) (s : String) :=
    if spenders.any fun x => eqIgnoreAsciiCase x s then spenders else spenders ++ [s]
  let approval := (call.approvalAddress.filter fun s => !s.isEmpty).toList
  let spenders := add approval call.toAddr
  if call.approvalAddress.isNone then polygonDexSpenderCandidates.foldl add spenders else spenders

def approveSpenders (ensure : String → ℕ → Except BroadcastError ℕ) (spenders : List String) :
    Except BroadcastError ℕ :=
  spenders.zipIdx.foldlM (fun fee s => match ensure s.1 s.2 with
    | .ok f => .ok (saturate128 (fee + f))
    | .error e => if s.2 = 0 then .error e else .ok fee) 0

/-- What the contract call has settled before it asks an endpoint. -/
structure ContractTransfer where
  call : EvmContractCall
  secret : Secret
  toAddr : Address
  data : List ℕ
  chainId : ℕ
  approveFee : ℕ

def contractTurn (T : ContractTransfer) (rpcUrl : String) (r : EvmReplies) : EvmTurn :=
  let host := rpcHost rpcUrl
  ask r.transactionCount (fun e => s!"nonce failed on {host}: {e}") fun nonce =>
  ask r.gasPrice (fun e => s!"gas_price failed on {host}: {e}") fun g =>
  let gasPrice := max (max g (T.call.gasPriceHint.getD 0)) 30000000000
  ask r.estimateGas (fun e => s!"estimateGas failed on {host}: {e}") fun l =>
  let gasLimit := max (max (saturate64 (l * 12) / 10) (T.call.gasLimitHint.getD 0)) 100000
  ask r.simulateCall (fun e => s!"eth_call simulation reverted on {host}: {e}") fun _ =>
  ask r.balance (fun e => s!"balance failed on {host}: {e}") fun bal =>
  let need := saturate128 (T.call.valueWei + saturate128 (gasPrice * gasLimit))
  if bal < need then
    .done none (.error (certain
      s!"hot wallet POL insuficiente para contractCall: bal={bal} need={need}"))
  else
  let tx : LegacyTx := ⟨nonce, gasPrice, gasLimit, T.toAddr, T.call.valueWei, T.data, T.chainId⟩
  submit C T.secret tx host r.send fun txid =>
  match r.receipt with
  | .ok true => .done (some ⟨tx, false⟩) (.ok ⟨txid, T.approveFee + feeOf gasPrice gasLimit⟩)
  | .ok false =>
    .done (some ⟨tx, true⟩) (.error (certain s!"contractCall reverted on-chain ({txid})"))
  | .error e => .done (some ⟨tx, false⟩)
      (.error ⟨s!"contractCall broadcasted ({txid}) but receipt wait failed: {e}", false⟩)

def hexDigits (dataHex : String) : Option String :=
  match dataHex.toList with
  | '0' :: 'x' :: ds => some (String.ofList ds)
  | '0' :: 'X' :: ds => some (String.ofList ds)
  | _ => none

def checkFromHint (hint : Option String) (fromAddr : Address) (fromHex : String) :
    Except BroadcastError Unit :=
  match hint with
  | none => .ok ()
  | some hint => do
    let hintBytes ← (C.parseAddress hint).mapError fun e => certain s!"bad from hint: {e}"
    failIf (hintBytes ≠ fromAddr) s!"contractCall from mismatch: quote={hint} hot={fromHex}"

/-- `hot` is the hot wallet's key material; `approvals s i` is what the `i`-th endpoint
would reply when the `s`-th spender is approved. -/
def contractOffer (evmRpcUrl : String) (params : CoinParams) (hot : Except String String)
    (approveData : Address → Option ℕ → List ℕ) (call : EvmContractCall)
    (approvals : ℕ → ℕ → AllowanceReplies) (replies : ℕ → EvmReplies) :
    Except BroadcastError Offer := do
  let chainId ← okOr params.evmChainId "missing EVM chain id"
  let wif ← hot.mapError certain
  let secret ← (C.parseSecretKeyBytes wif).mapError certain
  let fromAddr ← (C.addressFromSecret secret).mapError certain
  let fromHex := "0x" ++ C.hex fromAddr
  checkFromHint C call.fromHint fromAddr fromHex
  let toAddr ← (C.parseAddress call.toAddr).mapError fun e => certain s!"bad contract to: {e}"
  let digits ← okOr (hexDigits (String.ofList (trim call.dataHex.toList)))
    "contractCall data must be 0x-hex"
  let data ← (C.decodeHex digits).mapError fun e => certain s!"bad contractCall data: {e}"
  failIf (data = []) "contractCall data empty"
  let approveFee ← (match params.erc20Contract with
    | some token => approveSpenders (fun spender s =>
        ensureErc20Allowance C evmRpcUrl approveData secret token spender
          (call.erc20SellAmount.getD 1) chainId (approvals s)) (dexSpenders call)
    | none => .ok 0 : Except BroadcastError ℕ)
  let T : ContractTransfer := ⟨call, secret, toAddr, data, chainId, approveFee⟩
  pure ⟨(contractEndpoints evmRpcUrl).zipIdx.map fun e => (e.1, replies e.2), contractTurn C T,
    fun lastError => certain s!"EVM contractCall falhou em todos os RPCs: {lastError}"⟩

def broadcastPolygonContractCall (evmRpcUrl : String) (params : CoinParams)
    (hot : Except String String) (approveData : Address → Option ℕ → List ℕ)
    (call : EvmContractCall) (approvals : ℕ → ℕ → AllowanceReplies) (replies : ℕ → EvmReplies) :
    EvmCall :=
  broadcast (contractOffer C evmRpcUrl params hot approveData call approvals replies)

end

/-! ## One transfer, and honest errors -/

/-- Each endpoint's turn is honest, and so is the error when all fail. -/
def HonestOffer (x : Except BroadcastError Offer) : Prop :=
  ∀ o, x = .ok o → (∀ m, (o.failed m).safeToReverse = true) ∧
    ∀ rpcUrl r, (o.turn rpcUrl r).Honest BroadcastError.safeToReverse

theorem honestOffer_error {e : BroadcastError} : HonestOffer (.error e) := by
  intro o h
  cases h

theorem honestOffer_bind {α : Type} {x : Except BroadcastError α}
    {f : α → Except BroadcastError Offer} (h : ∀ a, HonestOffer (f a)) :
    HonestOffer (x >>= f) := by
  cases x with
  | error e => exact honestOffer_error
  | ok a => exact h a

theorem honest_ask {α : Type} {reply : Except String α} {error : String → String}
    {k : α → EvmTurn} (h : ∀ a, (k a).Honest BroadcastError.safeToReverse) :
    (ask reply error k).Honest BroadcastError.safeToReverse := by
  cases reply with
  | error e => trivial
  | ok a => exact h a

theorem honest_certain {m : String} :
    (.done none (.error (certain m)) : EvmTurn).Honest BroadcastError.safeToReverse :=
  ⟨_, rfl, rfl⟩

theorem honest_submit {C : EvmCrypto} {secret : Secret} {tx : LegacyTx} {host : String}
    {send : Send} {k : String → EvmTurn}
    (h : ∀ txid, (k txid).Honest BroadcastError.safeToReverse) :
    (submit C secret tx host send k).Honest BroadcastError.safeToReverse := by
  unfold submit
  cases C.signLegacyTx secret tx with
  | error e => exact honest_certain
  | ok raw =>
    cases send with
    | accepted txid => exact h txid
    | rejected e => trivial
    | lost e => trivial

section
variable {C : EvmCrypto}

theorem honest_polTurn (secret : Secret) (toAddr : Address) (amountWei chainId : ℕ)
    (rpcUrl : String) (r : EvmReplies) :
    (polTurn C secret toAddr amountWei chainId rpcUrl r).Honest BroadcastError.safeToReverse := by
  unfold polTurn
  refine honest_ask fun nonce => honest_ask fun g => honest_submit fun txid => ?_
  simp [Turn.Honest]

theorem honest_erc20Turn (T : Erc20Transfer) (rpcUrl : String) (r : EvmReplies) :
    (erc20Turn C T rpcUrl r).Honest BroadcastError.safeToReverse := by
  unfold erc20Turn
  refine honest_ask fun bal => ?_
  split
  · exact honest_certain
  · refine honest_ask fun nonce => honest_ask fun g => ?_
    dsimp only
    split
    · exact honest_certain
    · refine honest_ask fun native => ?_
      split
      · exact honest_certain
      · refine honest_submit fun txid => ?_
        split <;> simp [Turn.Honest, certain]

theorem honest_contractTurn (T : ContractTransfer) (rpcUrl : String) (r : EvmReplies) :
    (contractTurn C T rpcUrl r).Honest BroadcastError.safeToReverse := by
  unfold contractTurn
  refine honest_ask fun nonce => honest_ask fun g => honest_ask fun l => honest_ask fun _ =>
    honest_ask fun bal => ?_
  dsimp only
  split
  · exact honest_certain
  · refine honest_submit fun txid => ?_
    split <;> simp [Turn.Honest, certain]

theorem honest_polOffer (evmRpcUrl : String) (chainId : Option ℕ) (wif toAddress : String)
    (amountInternal : ℕ) (replies : ℕ → EvmReplies) :
    HonestOffer (polOffer C evmRpcUrl chainId wif toAddress amountInternal replies) := by
  unfold polOffer
  refine honestOffer_bind fun secret => honestOffer_bind fun _ => honestOffer_bind fun toAddr => ?_
  rintro o ⟨⟩
  exact ⟨fun _ => rfl, honest_polTurn _ _ _ _⟩

theorem honest_erc20Offer (config : EvmConfig) (coin : Coin) (params : CoinParams)
    (wif toAddress : String) (amountInternal : ℕ) (replies : ℕ → EvmReplies) :
    HonestOffer (erc20Offer C config coin params wif toAddress amountInternal replies) := by
  unfold erc20Offer
  refine honestOffer_bind fun token => honestOffer_bind fun _ => honestOffer_bind fun secret =>
    honestOffer_bind fun fromAddr => honestOffer_bind fun toAddr =>
    honestOffer_bind fun tokenAddr => honestOffer_bind fun chainId => honestOffer_bind fun _ => ?_
  rintro o ⟨⟩
  exact ⟨fun _ => rfl, honest_erc20Turn _⟩

theorem honest_contractOffer (evmRpcUrl : String) (params : CoinParams)
    (hot : Except String String) (approveData : Address → Option ℕ → List ℕ)
    (call : EvmContractCall) (approvals : ℕ → ℕ → AllowanceReplies) (replies : ℕ → EvmReplies) :
    HonestOffer (contractOffer C evmRpcUrl params hot approveData call approvals replies) := by
  unfold contractOffer
  refine honestOffer_bind fun chainId => honestOffer_bind fun wif => honestOffer_bind fun secret =>
    honestOffer_bind fun fromAddr => honestOffer_bind fun _ => honestOffer_bind fun toAddr =>
    honestOffer_bind fun digits => honestOffer_bind fun data => honestOffer_bind fun _ =>
    honestOffer_bind fun approveFee => ?_
  rintro o ⟨⟩
  exact ⟨fun _ => rfl, honest_contractTurn _⟩

/-! ## What the transfers of a call carry -/

/-- Every transfer that an endpoint's turn sends is one of `P`. -/
def OfferSends (P : LegacyTx → Prop) (x : Except BroadcastError Offer) : Prop :=
  ∀ o, x = .ok o → ∀ rpcUrl r, (o.turn rpcUrl r).Sends P

theorem broadcast_sends {P : LegacyTx → Prop} {x : Except BroadcastError Offer}
    (h : OfferSends P x) : ∀ t ∈ (broadcast x).sent, P t.tx := by
  cases x with
  | error e => intro t ht; cases ht
  | ok o =>
    refine tryAll_sends (fun t ht => ?_) ""
    obtain ⟨e, -, rfl⟩ := List.mem_map.1 ht
    exact h o rfl e.1 e.2

theorem offerSends_bind {P : LegacyTx → Prop} {α : Type} {x : Except BroadcastError α}
    {f : α → Except BroadcastError Offer} (h : ∀ a, x = .ok a → OfferSends P (f a)) :
    OfferSends P (x >>= f) := by
  cases x with
  | error e => intro o ho; cases ho
  | ok a => exact h a rfl

theorem failIf_eq_ok {c : Prop} [Decidable c] {message : String} {u : Unit}
    (h : failIf c message = .ok u) : ¬ c := by
  unfold failIf at h
  split at h
  · cases h
  · assumption

theorem sends_ask {P : LegacyTx → Prop} {α : Type} {reply : Except String α}
    {error : String → String} {k : α → EvmTurn} (h : ∀ a, (k a).Sends P) :
    (ask reply error k).Sends P := by
  cases reply with
  | error e => trivial
  | ok a => exact h a

theorem sends_certain {P : LegacyTx → Prop} {m : String} :
    (.done none (.error (certain m)) : EvmTurn).Sends P := by
  simp [Turn.Sends]

theorem sends_submit {P : LegacyTx → Prop} {secret : Secret} {tx : LegacyTx} {host : String}
    {send : Send} {k : String → EvmTurn} (htx : P tx) (h : ∀ txid, (k txid).Sends P) :
    (submit C secret tx host send k).Sends P := by
  unfold submit
  cases C.signLegacyTx secret tx with
  | error e => exact sends_certain
  | ok raw =>
    cases send with
    | accepted txid => exact h txid
    | rejected e => trivial
    | lost e => exact htx

theorem sends_polTurn {P : LegacyTx → Prop} {secret : Secret} {toAddr : Address}
    {amountWei chainId : ℕ} (rpcUrl : String) (r : EvmReplies)
    (h : ∀ nonce g l, P ⟨nonce, g, l, toAddr, amountWei, [], chainId⟩) :
    (polTurn C secret toAddr amountWei chainId rpcUrl r).Sends P := by
  unfold polTurn
  refine sends_ask fun nonce => sends_ask fun g => sends_submit (h _ _ _) fun txid => ?_
  simpa [Turn.Sends] using h _ _ _

theorem sends_erc20Turn {P : LegacyTx → Prop} {T : Erc20Transfer} (rpcUrl : String)
    (r : EvmReplies) (h : ∀ nonce g l, P ⟨nonce, g, l, T.tokenAddr, 0, T.data, T.chainId⟩) :
    (erc20Turn C T rpcUrl r).Sends P := by
  unfold erc20Turn
  refine sends_ask fun bal => ?_
  split
  · exact sends_certain
  · refine sends_ask fun nonce => sends_ask fun g => ?_
    dsimp only
    split
    · exact sends_certain
    · refine sends_ask fun native => ?_
      split
      · exact sends_certain
      · refine sends_submit (h _ _ _) fun txid => ?_
        split <;> simpa [Turn.Sends] using h _ _ _

theorem sends_contractTurn {P : LegacyTx → Prop} {T : ContractTransfer} (rpcUrl : String)
    (r : EvmReplies)
    (h : ∀ nonce g l, P ⟨nonce, g, l, T.toAddr, T.call.valueWei, T.data, T.chainId⟩) :
    (contractTurn C T rpcUrl r).Sends P := by
  unfold contractTurn
  refine sends_ask fun nonce => sends_ask fun g => sends_ask fun l => sends_ask fun _ =>
    sends_ask fun bal => ?_
  dsimp only
  split
  · exact sends_certain
  · refine sends_submit (h _ _ _) fun txid => ?_
    split <;> simpa [Turn.Sends] using h _ _ _

theorem broadcastPol_sends (evmRpcUrl : String) (chainId : Option ℕ) (wif toAddress : String)
    (amountInternal : ℕ) (replies : ℕ → EvmReplies) :
    ∀ t ∈ (broadcastPol C evmRpcUrl chainId wif toAddress amountInternal replies).sent,
      t.tx.valueWei = saturate128 (amountInternal * 10000000000) := by
  refine broadcast_sends (P := fun tx => tx.valueWei = saturate128 (amountInternal * 10000000000)) ?_
  unfold polOffer
  refine offerSends_bind fun secret _ => offerSends_bind fun _ _ => offerSends_bind fun toAddr _ => ?_
  intro o ho rpcUrl r
  cases ho
  exact sends_polTurn rpcUrl r fun _ _ _ => rfl

/-- The calldata transfers the converted amount, which is not zero. -/
theorem broadcastErc20_sends (config : EvmConfig) (coin : Coin) (params : CoinParams)
    (wif toAddress : String) (amountInternal : ℕ) (replies : ℕ → EvmReplies) :
    ∀ t ∈ (broadcastErc20 C config coin params wif toAddress amountInternal replies).sent,
      toOnchainAmount coin amountInternal ≠ 0 ∧
      ∃ toAddr, t.tx.data = C.transferData toAddr (toOnchainAmount coin amountInternal) := by
  refine broadcast_sends (P := fun tx => toOnchainAmount coin amountInternal ≠ 0 ∧
    ∃ toAddr, tx.data = C.transferData toAddr (toOnchainAmount coin amountInternal)) ?_
  unfold erc20Offer
  refine offerSends_bind fun token _ => offerSends_bind fun _ h => offerSends_bind fun secret _ =>
    offerSends_bind fun fromAddr _ => offerSends_bind fun toAddr _ =>
    offerSends_bind fun tokenAddr _ => offerSends_bind fun chainId _ =>
    offerSends_bind fun _ _ => ?_
  intro o ho rpcUrl r
  cases ho
  exact sends_erc20Turn rpcUrl r fun _ _ _ => ⟨failIf_eq_ok h, toAddr, rfl⟩

/-- The call goes out with the value, the target and the calldata that it names. -/
theorem broadcastPolygonContractCall_sends (evmRpcUrl : String) (params : CoinParams)
    (hot : Except String String) (approveData : Address → Option ℕ → List ℕ)
    (call : EvmContractCall) (approvals : ℕ → ℕ → AllowanceReplies) (replies : ℕ → EvmReplies) :
    ∀ t ∈ (broadcastPolygonContractCall C evmRpcUrl params hot approveData call approvals
        replies).sent,
      t.tx.valueWei = call.valueWei := by
  refine broadcast_sends (P := fun tx => tx.valueWei = call.valueWei) ?_
  unfold contractOffer
  refine offerSends_bind fun chainId _ => offerSends_bind fun wif _ =>
    offerSends_bind fun secret _ => offerSends_bind fun fromAddr _ => offerSends_bind fun _ _ =>
    offerSends_bind fun toAddr _ => offerSends_bind fun digits _ => offerSends_bind fun data _ =>
    offerSends_bind fun _ _ => offerSends_bind fun approveFee _ => ?_
  intro o ho rpcUrl r
  cases ho
  exact sends_contractTurn rpcUrl r fun _ _ _ => rfl

/-! ## One transfer, and honest errors, exactly when the replies come -/

/-- At most one transfer of the call succeeds on chain, and none after an error
with `safe_to_reverse`. -/
abbrev OutcomeSound (c : EvmCall) : Prop := Sound LegacyTx.nonce BroadcastError.safeToReverse c

/-- Every endpoint that is asked, takes the transfer and loses its reply is followed
by one that is asked, takes a transfer with the same nonce and replies. -/
def RepliesCome : Except BroadcastError Offer → Prop
  | .error _ => True
  | .ok o => Answered LegacyTx.nonce o.turns

theorem sound_broadcast_iff {x : Except BroadcastError Offer} (h : HonestOffer x) :
    OutcomeSound (broadcast x) ↔ RepliesCome x := by
  cases x with
  | error e => exact iff_of_true sound_nothing trivial
  | ok o =>
    obtain ⟨hfailed, hturn⟩ := h o rfl
    refine sound_iff hfailed (fun t ht => ?_) ""
    obtain ⟨e, -, rfl⟩ := List.mem_map.1 ht
    exact hturn e.1 e.2

/-- Each of the three paths is sound exactly when every lost reply is made up for. -/
theorem broadcasts_sound_iff (C : EvmCrypto) (config : EvmConfig) (coin : Coin)
    (params : CoinParams) (chainId : Option ℕ) (wif toAddress : String) (amountInternal : ℕ)
    (hot : Except String String) (approveData : Address → Option ℕ → List ℕ)
    (call : EvmContractCall) (approvals : ℕ → ℕ → AllowanceReplies) (replies : ℕ → EvmReplies) :
    (OutcomeSound (broadcastPol C config.evmRpcUrl chainId wif toAddress amountInternal replies) ↔
      RepliesCome (polOffer C config.evmRpcUrl chainId wif toAddress amountInternal replies)) ∧
    (OutcomeSound (broadcastErc20 C config coin params wif toAddress amountInternal replies) ↔
      RepliesCome (erc20Offer C config coin params wif toAddress amountInternal replies)) ∧
    (OutcomeSound (broadcastPolygonContractCall C config.evmRpcUrl params hot approveData call
        approvals replies) ↔
      RepliesCome (contractOffer C config.evmRpcUrl params hot approveData call approvals
        replies)) :=
  ⟨sound_broadcast_iff (honest_polOffer _ _ _ _ _ _),
    sound_broadcast_iff (honest_erc20Offer _ _ _ _ _ _ _),
    sound_broadcast_iff (honest_contractOffer _ _ _ _ _ _ _)⟩

end

/-! The first endpoint takes the transfer with nonce 5 and its reply is lost. The
second reports nonce 6 and takes the transfer once more. -/

def plainCrypto : EvmCrypto where
  parseSecretKeyBytes _ := .ok [1]
  addressFromSecret _ := .ok [2]
  parseAddress _ := .ok [3]
  hex _ := "02"
  decodeHex _ := .ok [4]
  transferData _ n := [n]
  signLegacyTx _ _ := .ok "0xf8"

def lostThenAccepted : ℕ → EvmReplies
  | 0 => ⟨.ok 5, .ok 30000000000, .ok 21000, .ok (), .ok 0, .ok 0, .lost "timeout", .ok true⟩
  | _ => ⟨.ok 6, .ok 30000000000, .ok 21000, .ok (), .ok 0, .ok 0, .accepted "0x6", .ok true⟩

theorem lostThenAccepted_twice : ¬ OutcomeSound
    (broadcastPol plainCrypto "https://rpc.example" (some 137) "wif" "0x3" 7 lostThenAccepted) := by
  intro h
  generalize hc : broadcastPol plainCrypto "https://rpc.example" (some 137) "wif" "0x3" 7
    lostThenAccepted = c at h
  have hsent : c.sent.map (fun t => (t.tx.nonce, t.reverted)) = [(5, false), (6, false)] := by
    subst hc
    decide +kernel
  have hboth : OnChain LegacyTx.nonce c.sent c.sent := by
    refine ⟨List.Sublist.refl _, ?_, ?_⟩
    · have hn := congrArg (List.map Prod.fst) hsent
      rw [List.map_map] at hn
      show (c.sent.map (Prod.fst ∘ fun t => (t.tx.nonce, t.reverted))).Nodup
      rw [hn]
      decide
    · intro t _ u hu _
      have := List.mem_map_of_mem (f := fun t => (t.tx.nonce, t.reverted)) hu
      rw [hsent] at this
      simp only [List.mem_cons, Prod.mk.injEq, List.not_mem_nil, or_false] at this
      rcases this with h | h <;> exact h.2
  have hlen := congrArg List.length hsent
  have := h.atMostOne _ hboth
  rw [List.length_map] at hlen
  rw [hlen] at this
  exact absurd this (by decide)

end SatsPay
