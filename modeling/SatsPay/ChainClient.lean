import SatsPay.EvmBroadcast
import SatsPay.Fallible
import SatsPay.ZerWithdrawals

/-!
# The chain client of a coin

`RealChainClient`: which path a withdrawal or a contract call takes, and the amounts
that it pays on chain, in the smallest units of the coin.
-/

namespace SatsPay

open Fallible

open Failover

inductive ChainNetwork where
  | mainnet | testnet
  deriving DecidableEq, Repr

def paramsFor : Coin → ChainNetwork → CoinParams
  | .pol, .mainnet => ⟨some 137, none⟩
  | .pol, .testnet => ⟨some 80002, none⟩
  | .usdt, .mainnet => ⟨some 137, some "0xc2132D05D31c914a87C6611C10748AEb04B58e8F"⟩
  | .usdt, .testnet => ⟨some 80002, some "0xc2132D05D31c914a87C6611C10748AEb04B58e8F"⟩
  | .usdc, .mainnet => ⟨some 137, some "0x3c499c542cEF5E3811e1192ce70d8cC03d5c3359"⟩
  | .usdc, .testnet => ⟨some 80002, some "0x41E94Eb019C0762f9Bfcf9Fb1E58725BfB0e7582"⟩
  | .pepe, .mainnet => ⟨some 56, some "0x25d887Ce7a35172C62FeBFD67a1856F20FaEbB00"⟩
  | _, _ => ⟨none, none⟩

/-! ## Calldata -/

/-- The last `k` bytes of `n`, the highest first. -/
def beBytes : ℕ → ℕ → List ℕ
  | 0, _ => []
  | k + 1, n => beBytes k (n / 256) ++ [n % 256]

def uintOf (bytes : List ℕ) : ℕ := bytes.foldl (fun n b => 256 * n + b) 0

/-- A 16-byte number in a 32-byte word. -/
def word128 (n : ℕ) : List ℕ := List.replicate 16 0 ++ beBytes 16 n

def erc20TransferData (toAddr : Address) (amount : ℕ) : List ℕ :=
  [0xa9, 0x05, 0x9c, 0xbb] ++ List.replicate 12 0 ++ toAddr ++ word128 amount

def erc20ApproveData (spender : Address) (amount : ℕ) : List ℕ :=
  [0x09, 0x5e, 0xa7, 0xb3] ++ List.replicate 12 0 ++ spender ++ word128 amount

def erc20ApproveMaxData (spender : Address) : List ℕ :=
  [0x09, 0x5e, 0xa7, 0xb3] ++ List.replicate 12 0 ++ spender ++ List.replicate 32 0xff

/-- An approval of `amount`, or of all there can be. -/
def approvalData (spender : Address) : Option ℕ → List ℕ
  | some amount => erc20ApproveData spender amount
  | none => erc20ApproveMaxData spender

/-- What a token contract reads as the amount: the last word of the calldata. -/
def calldataAmount (data : List ℕ) : ℕ := uintOf (data.drop (data.length - 32))

theorem uintOf_snoc (l : List ℕ) (b : ℕ) : uintOf (l ++ [b]) = 256 * uintOf l + b := by
  simp [uintOf]

theorem uintOf_zeros_append (k : ℕ) (l : List ℕ) : uintOf (List.replicate k 0 ++ l) = uintOf l := by
  unfold uintOf
  rw [List.foldl_append]
  have : List.foldl (fun n b => 256 * n + b) 0 (List.replicate k 0) = 0 := by
    induction k with
    | zero => rfl
    | succ k ih => simpa [List.replicate_succ] using ih
  rw [this]

@[simp] theorem length_beBytes (k n : ℕ) : (beBytes k n).length = k := by
  induction k generalizing n with
  | zero => rfl
  | succ k ih => simp [beBytes, ih]

theorem uintOf_beBytes {k n : ℕ} (h : n < 256 ^ k) : uintOf (beBytes k n) = n := by
  induction k generalizing n with
  | zero => simp at h; subst h; rfl
  | succ k ih =>
    have hdiv : n / 256 < 256 ^ k := by
      rw [Nat.div_lt_iff_lt_mul (by norm_num)]
      rwa [Nat.pow_succ] at h
    rw [beBytes, uintOf_snoc, ih hdiv]
    exact Nat.div_add_mod n 256

@[simp] theorem length_word128 (n : ℕ) : (word128 n).length = 32 := by simp [word128]

theorem calldataAmount_erc20TransferData (toAddr : Address) {amount : ℕ} (h : amount < 2 ^ 128) :
    calldataAmount (erc20TransferData toAddr amount) = amount := by
  unfold calldataAmount erc20TransferData
  rw [List.length_append, length_word128, Nat.add_sub_cancel, List.drop_left, word128,
    uintOf_zeros_append, uintOf_beBytes (by norm_num at h ⊢; exact h)]

/-! ## What a withdrawal pays -/

/-- A call on the chain; what it sent is given by the amounts paid out. -/
abbrev Payment := Call ℕ BroadcastResult BroadcastError

def payments {τ : Type} (paid : τ → ℕ) (c : Call τ BroadcastResult BroadcastError) : Payment :=
  ⟨c.sent.map fun t => ⟨paid t.tx, t.reverted⟩, c.result⟩

def amountsSent (c : Payment) : List ℕ := c.sent.map Transfer.tx

/-- A signed transaction is sent. `safe` says of a failure's text whether nothing left. -/
def sendSigned (send : Send) (safe : String → Bool) (amount fee : ℕ) : Payment :=
  match send with
  | .accepted txid => ⟨[⟨amount, false⟩], .ok ⟨txid, fee⟩⟩
  | .rejected e => ⟨[], .error ⟨e, safe e⟩⟩
  | .lost e => ⟨[⟨amount, false⟩], .error ⟨e, safe e⟩⟩

def sendPrepared (sent : ℕ → ℕ → Payment) (x : Except BroadcastError (ℕ × ℕ)) : Payment :=
  match x with
  | .error e => ⟨[], .error e⟩
  | .ok (amount, fee) => sent amount fee

/-- What `sendTransaction` comes to: a result that is no text is told as the error `text`. -/
inductive SolSend where
  | sent (s : Send)
  | unreadable (text : String)

structure SolReplies where
  decodes : String → Bool
  latestBlockhash : Except String Unit
  send : SolSend

def sendSol (send : SolSend) (amount fee : ℕ) : Payment :=
  match send with
  | .sent s => sendSigned s (fun _ => true) amount fee
  | .unreadable text => ⟨[⟨amount, false⟩], .error ⟨text, false⟩⟩

/-- `SolClient::broadcast_transfer`, whose amount in lamports is cut to 64 bits. -/
def solTransfer (r : SolReplies) (toAddress : String) (amountInternal : ℕ) :
    Except BroadcastError (ℕ × ℕ) := do
  let lamports := toOnchainAmount .sol amountInternal
  failIf (lamports = 0) "SOL amount too small after scale"
  failIf (!r.decodes toAddress) s!"invalid Solana address: {toAddress}"
  r.latestBlockhash.mapError certain
  pure (lamports % 2 ^ 64, 5000)

/-- What a node or an indexer answers on the way to a signed transaction of a coin
with unspent outputs: `utxos` are their values. -/
structure UtxoReplies where
  hotAddress : Except String String
  feePerByte : Except String ℕ
  utxos : Except String (List ℕ)
  scriptOf : String → Except String Unit
  sign : Except String Unit
  send : Send

/-- The values of a signed transaction's outputs, the recipient's first. -/
def buildAndSign (utxos : List ℕ) (amount fee : ℕ) (sign : Except String Unit) :
    Except String (List ℕ) :=
  let needed := amount + fee
  if utxos.sum < needed then .error s!"no UTXOs available to cover {needed} (smallest unit)"
  else
    let change := utxos.sum - amount - fee
    sign.map fun _ => amount :: if 0 < change then [change] else []

def estimatedSize (coin : Coin) (inputs : ℕ) : ℕ :=
  if coin = .bch then 10 + inputs * 148 + 2 * 34 else 11 + inputs * 68 + 2 * 31

/-- BTC, LTC, DOGE, BCH and DGB. -/
def utxoTransfer (coin : Coin) (r : UtxoReplies) (toAddress : String) (amount : ℕ) :
    Except BroadcastError (ℕ × ℕ) := do
  let hotAddress ← r.hotAddress.mapError certain
  let feePerByte ← r.feePerByte.mapError fun e =>
    certain (if coin = .dgb then e else s!"fee estimation failed: {e}")
  let utxos ← r.utxos.mapError certain
  let fee := estimatedSize coin utxos.length * feePerByte
  (r.scriptOf toAddress).mapError certain
  (r.scriptOf hotAddress).mapError certain
  failIf (2 ^ 64 ≤ amount) (if coin = .dgb then "amount exceeds u64" else
    "amount exceeds u64 range")
  let outputs ← (buildAndSign utxos amount fee r.sign).mapError certain
  pure (outputs.headD 0, fee)

/-- `sign` is the creation and the signature of the transaction that is asked for. -/
structure ZerReplies where
  validates : String → Bool
  hotAddress : Except String String
  sources : ZerSources
  sign : Except String Unit
  send : Send

def zerSafe (message : String) : Bool :=
  ["insufficient", "required", "method not found", "scantxoutset", "getaddressutxos", "disabled",
    "no spendable", "accepts only", "invalid", "missing inputs", "tx-expiring-soon",
    "expiryheight", "params must be an array"].any fun s =>
    decide (s.toList <:+: message.toList.map Char.toLower)

def zerError (message : String) : BroadcastError := ⟨message, zerSafe message⟩

/-- What the transaction that is asked for pays the recipient: the change, if that goes to the
same address. -/
def zerTransfer (r : ZerReplies) (toAddress : String) (amount : ℕ) :
    Except BroadcastError (ℕ × ℕ) := do
  failIf (!r.sources.rpcReady) "ZER_RPC_URL required for ZER withdraw (zerod signraw)"
  failIf (!r.validates toAddress) "ZER withdraw accepts only transparent t1 addresses"
  let hotAddress ← r.hotAddress.mapError certain
  failIf (2 ^ 64 ≤ amount) "ZER amount exceeds u64"
  let params ← (zerRequest r.sources toAddress (UInt64.ofNat amount) hotAddress).mapError zerError
  r.sign.mapError zerError
  pure (((askedTx params).map (·.paidTo toAddress)).getD 0, zerFee.toNat)

structure ChainWorld where
  crypto : EvmCrypto
  network : ChainNetwork
  config : EvmConfig
  hotKeyMaterial : Except String String
  evm : ℕ → EvmReplies
  approvals : ℕ → ℕ → AllowanceReplies
  sol : SolReplies
  utxo : UtxoReplies
  zer : ZerReplies

def ChainWorld.evmCrypto (W : ChainWorld) : EvmCrypto :=
  { W.crypto with transferData := erc20TransferData }

def pepeMainnetReady (coin : Coin) (network : ChainNetwork) : Except String Unit :=
  if coin ≠ .pepe then .ok ()
  else if network ≠ .mainnet ∨ (paramsFor coin network).evmChainId ≠ some 56 ∨
      (paramsFor coin network).erc20Contract = none then
    .error "PEPE só existe na BNB Smart Chain mainnet (BEP-20). Testnet recusado."
  else .ok ()

/-- `RealChainClient::broadcast_withdrawal` -/
def payWithdrawal (W : ChainWorld) (coin : Coin) (toAddress : String) (amount : ℕ) : Payment :=
  match W.hotKeyMaterial with
  | .error e => ⟨[], .error (certain s!"{e} ({coin.debug})")⟩
  | .ok wif =>
    let params := paramsFor coin W.network
    match coin with
    | .pol => payments LegacyTx.valueWei
        (broadcastPol W.evmCrypto W.config.evmRpcUrl params.evmChainId wif toAddress amount W.evm)
    | .usdt | .usdc | .pepe =>
      match pepeMainnetReady coin W.network with
      | .error e => ⟨[], .error (certain e)⟩
      | .ok _ => payments (fun tx => calldataAmount tx.data)
          (broadcastErc20 W.evmCrypto W.config coin params wif toAddress amount W.evm)
    | .sol => sendPrepared (sendSol W.sol.send) (solTransfer W.sol toAddress amount)
    | .zer => sendPrepared (sendSigned W.zer.send zerSafe) (zerTransfer W.zer toAddress amount)
    | coin => sendPrepared (sendSigned W.utxo.send fun _ => false)
        (utxoTransfer coin W.utxo toAddress amount)

/-- `RealChainClient::broadcast_evm_contract_call` -/
def callContract (W : ChainWorld) (coin : Coin) (call : EvmContractCall) : EvmCall :=
  match coin with
  | .pol | .usdt | .usdc | .pepe =>
    match pepeMainnetReady coin W.network with
    | .error e => ⟨[], .error (certain e)⟩
    | .ok _ => broadcastPolygonContractCall W.evmCrypto W.config.evmRpcUrl
        (paramsFor coin W.network) W.hotKeyMaterial approvalData call W.approvals W.evm
  | other => ⟨[], .error (certain s!"contractCall not supported for {other.asStr}")⟩

/-! ## Every withdrawal pays the amount asked for, converted once -/

theorem saturate128_lt (n : ℕ) : saturate128 n < 2 ^ 128 := by
  unfold saturate128
  omega

theorem toOnchainAmount_lt {n : ℕ} (h : n < 2 ^ 128) (coin : Coin) :
    toOnchainAmount coin n < 2 ^ 128 := by
  unfold toOnchainAmount
  split
  · exact saturate128_lt _
  · exact lt_of_le_of_lt (Nat.div_le_self _ _) h

theorem toOnchainAmount_pol (n : ℕ) :
    toOnchainAmount .pol n = saturate128 (n * 10000000000) := by
  simp [toOnchainAmount, Coin.onchainDecimals]

theorem toOnchainAmount_sol (n : ℕ) : toOnchainAmount .sol n = saturate128 (n * 10) := by
  simp [toOnchainAmount, Coin.onchainDecimals]

def paidFor (coin : Coin) (amount : ℕ) : Option ℕ :=
  match coin with
  | .pol => some (toOnchainAmount .pol amount)
  | .usdt | .usdc | .pepe =>
    if toOnchainAmount coin amount = 0 then none else some (toOnchainAmount coin amount)
  | .sol =>
    if toOnchainAmount .sol amount = 0 then none else some (toOnchainAmount .sol amount % 2 ^ 64)
  | _ => if amount < 2 ^ 64 then some amount else none

theorem mem_amountsSent_payments {τ : Type} {paid : τ → ℕ}
    {c : Call τ BroadcastResult BroadcastError} {n : ℕ} (h : n ∈ amountsSent (payments paid c)) :
    ∃ t ∈ c.sent, paid t.tx = n := by
  simpa [amountsSent, payments] using h

theorem mem_amountsSent_sendPrepared {sent : ℕ → ℕ → Payment}
    (hsent : ∀ amount fee, ∀ n ∈ amountsSent (sent amount fee), n = amount)
    {x : Except BroadcastError (ℕ × ℕ)} {n : ℕ} (h : n ∈ amountsSent (sendPrepared sent x)) :
    ∃ fee, x = .ok (n, fee) := by
  unfold sendPrepared at h
  cases x with
  | error e => cases h
  | ok p =>
    obtain ⟨amount, fee⟩ := p
    obtain rfl := hsent amount fee n h
    exact ⟨fee, rfl⟩

theorem amountsSent_sendSigned (send : Send) (safe : String → Bool) (amount fee : ℕ) :
    ∀ n ∈ amountsSent (sendSigned send safe amount fee), n = amount := by
  intro n h
  unfold sendSigned amountsSent at h
  cases send with
  | rejected e => cases h
  | accepted _ | lost _ => exact List.mem_singleton.1 h

theorem amountsSent_sendSol (send : SolSend) (amount fee : ℕ) :
    ∀ n ∈ amountsSent (sendSol send amount fee), n = amount := by
  intro n h
  cases send with
  | sent s => exact amountsSent_sendSigned s _ amount fee n h
  | unreadable text => exact List.mem_singleton.1 h

theorem solTransfer_pays {r : SolReplies} {toAddress : String} {amount n fee : ℕ}
    (h : solTransfer r toAddress amount = .ok (n, fee)) : paidFor .sol amount = some n := by
  unfold solTransfer at h
  obtain ⟨_, hzero, h⟩ := bind_eq_ok h
  obtain ⟨_, -, h⟩ := bind_eq_ok h
  obtain ⟨_, -, h⟩ := bind_eq_ok h
  cases h
  exact if_neg (failIf_eq_ok hzero)

theorem buildAndSign_head {utxos : List ℕ} {amount fee : ℕ} {sign : Except String Unit}
    {outputs : List ℕ} (h : buildAndSign utxos amount fee sign = .ok outputs) :
    outputs.headD 0 = amount := by
  unfold buildAndSign at h
  dsimp only at h
  split at h
  · cases h
  · cases sign with
    | error e => cases h
    | ok _ => cases h; rfl

theorem utxoTransfer_pays {coin : Coin} {r : UtxoReplies} {toAddress : String} {amount n fee : ℕ}
    (h : utxoTransfer coin r toAddress amount = .ok (n, fee)) : amount < 2 ^ 64 ∧ n = amount := by
  unfold utxoTransfer at h
  obtain ⟨_, -, h⟩ := bind_eq_ok h
  obtain ⟨_, -, h⟩ := bind_eq_ok h
  obtain ⟨_, -, h⟩ := bind_eq_ok h
  obtain ⟨_, -, h⟩ := bind_eq_ok h
  obtain ⟨_, -, h⟩ := bind_eq_ok h
  obtain ⟨_, hbig, h⟩ := bind_eq_ok h
  obtain ⟨outputs, hsign, h⟩ := bind_eq_ok h
  cases h
  exact ⟨not_le.1 (failIf_eq_ok hbig), buildAndSign_head (mapError_eq_ok hsign)⟩

def zerChange (total : UInt64) (amount : ℕ) : UInt64 := total - UInt64.ofNat amount - zerFee

/-- What the recipient is paid, where the change goes to `hot`. -/
def zerPaid (hot toAddress : String) (total : UInt64) (amount : ℕ) : ℕ :=
  if 0 < zerChange total amount ∧ hot = toAddress then (zerChange total amount).toNat else amount

theorem zerTransfer_sends {r : ZerReplies} {toAddress : String} {amount n fee : ℕ}
    (h : zerTransfer r toAddress amount = .ok (n, fee)) :
    amount < 2 ^ 64 ∧ ∃ hot total, r.hotAddress = .ok hot ∧
      saturatingAdd (UInt64.ofNat amount) zerFee ≤ total ∧ n = zerPaid hot toAddress total amount := by
  unfold zerTransfer at h
  obtain ⟨_, -, h⟩ := bind_eq_ok h
  obtain ⟨_, -, h⟩ := bind_eq_ok h
  obtain ⟨hot, hhot, h⟩ := bind_eq_ok h
  obtain ⟨_, hbig, h⟩ := bind_eq_ok h
  obtain ⟨params, hparams, h⟩ := bind_eq_ok h
  obtain ⟨_, -, h⟩ := bind_eq_ok h
  have hlt : amount < 2 ^ 64 := not_le.1 (failIf_eq_ok hbig)
  obtain ⟨utxos, -, henough, hasked⟩ := zerRequest_ok (mapError_eq_ok hparams)
  rw [hasked, Option.map_some, Option.getD_some, paidTo_zerFields,
    UInt64.toNat_ofNat_of_lt' hlt] at h
  cases h
  exact ⟨hlt, hot, totalIn utxos, mapError_eq_ok hhot, henough, rfl⟩

/-- The recipient is paid the amount, unless the change goes to the same address. -/
theorem zerTransfer_pays {r : ZerReplies} {toAddress : String} {amount n fee : ℕ}
    (hother : r.hotAddress ≠ .ok toAddress) (h : zerTransfer r toAddress amount = .ok (n, fee)) :
    amount < 2 ^ 64 ∧ n = amount := by
  obtain ⟨hlt, hot, total, hhot, -, rfl⟩ := zerTransfer_sends h
  refine ⟨hlt, if_neg fun hc => hother ?_⟩
  rw [hhot, hc.2]

/-- Whatever the endpoints reply. -/
theorem paidFor_of_sent {W : ChainWorld} {coin : Coin} {toAddress : String} {amount n : ℕ}
    (hamount : amount < 2 ^ 128) (hzer : coin = .zer → W.zer.hotAddress ≠ .ok toAddress)
    (h : n ∈ amountsSent (payWithdrawal W coin toAddress amount)) :
    paidFor coin amount = some n := by
  unfold payWithdrawal at h
  split at h
  · cases h
  rename_i wif _
  have herc20 : ∀ c params, n ∈ amountsSent (payments (fun tx => calldataAmount tx.data)
      (broadcastErc20 W.evmCrypto W.config c params wif toAddress amount W.evm)) →
      toOnchainAmount c amount ≠ 0 ∧ toOnchainAmount c amount = n := by
    intro c params h
    obtain ⟨t, ht, rfl⟩ := mem_amountsSent_payments h
    obtain ⟨hne, toAddr, hdata⟩ := broadcastErc20_sends _ _ _ _ _ _ _ t ht
    rw [hdata]
    exact ⟨hne, (calldataAmount_erc20TransferData _ (toOnchainAmount_lt hamount c)).symm⟩
  cases coin with
  | pol =>
    obtain ⟨t, ht, rfl⟩ := mem_amountsSent_payments h
    rw [broadcastPol_sends _ _ _ _ _ _ t ht, ← toOnchainAmount_pol]
    rfl
  | usdt | usdc | pepe =>
    dsimp only at h
    split at h
    · cases h
    · obtain ⟨hne, rfl⟩ := herc20 _ _ h
      exact if_neg hne
  | sol =>
    obtain ⟨fee, h⟩ := mem_amountsSent_sendPrepared (amountsSent_sendSol _) h
    exact solTransfer_pays h
  | zer =>
    obtain ⟨fee, h⟩ := mem_amountsSent_sendPrepared (amountsSent_sendSigned _ _) h
    obtain ⟨hlt, rfl⟩ := zerTransfer_pays (hzer rfl) h
    exact if_pos hlt
  | btc | ltc | doge | bch | dgb =>
    obtain ⟨fee, h⟩ := mem_amountsSent_sendPrepared (amountsSent_sendSigned _ _) h
    obtain ⟨hlt, rfl⟩ := utxoTransfer_pays h
    exact if_pos hlt

def ChainWorld.HotAt (W : ChainWorld) (hot : String) : Prop :=
  ∀ addr, W.zer.hotAddress = .ok addr → addr = hot

/-- ZER is not sent to the hot wallet, unless nothing can be left for the change or the amount is
out of range. -/
def SentAway (hot : String) (coin : Coin) (toAddress : String) (n : ℕ) : Prop :=
  coin = .zer → toAddress = hot → n = 2 ^ 64 - 10001 ∨ 2 ^ 64 ≤ n

/-- Where nothing can be left, what is paid is the amount. -/
theorem zerPaid_all {hot toAddress : String} {total : UInt64}
    (h : saturatingAdd (UInt64.ofNat (2 ^ 64 - 10001)) zerFee ≤ total) :
    zerPaid hot toAddress total (2 ^ 64 - 10001) = 2 ^ 64 - 10001 := by
  have htotal : total = UInt64.ofNat (2 ^ 64 - 1) := by
    have hneeded : saturatingAdd (UInt64.ofNat (2 ^ 64 - 10001)) zerFee =
        UInt64.ofNat (2 ^ 64 - 1) := by decide
    rw [hneeded, UInt64.le_iff_toNat_le] at h
    rw [← UInt64.toNat_inj]
    have := total.toNat_lt
    have : (UInt64.ofNat (2 ^ 64 - 1)).toNat = 2 ^ 64 - 1 := rfl
    omega
  subst htotal
  exact if_neg fun hc => absurd hc.1 (by decide)

theorem paidFor_of_sentAway {W : ChainWorld} {hot : String} {coin : Coin} {toAddress : String}
    {amount n : ℕ} (hamount : amount < 2 ^ 128) (haway : SentAway hot coin toAddress amount)
    (hW : W.HotAt hot) (h : n ∈ amountsSent (payWithdrawal W coin toAddress amount)) :
    paidFor coin amount = some n := by
  by_cases hself : coin = .zer ∧ toAddress = hot
  · obtain ⟨rfl, rfl⟩ := hself
    unfold payWithdrawal at h
    split at h
    · cases h
    obtain ⟨fee, h⟩ := mem_amountsSent_sendPrepared (amountsSent_sendSigned _ _) h
    obtain ⟨h64, _, total, -, henough, rfl⟩ := zerTransfer_sends h
    obtain rfl | hlarge := haway rfl rfl
    · rw [zerPaid_all henough]
      rfl
    · exact absurd h64 (not_lt.2 hlarge)
  · exact paidFor_of_sent hamount (fun hz he => hself ⟨hz, hW _ he⟩) h

/-- A client that converts asks for nothing but the converted amount. -/
theorem payWithdrawal_congr {W : ChainWorld} {coin : Coin} {toAddress : String} {a b : ℕ}
    (hcoin : coin.onchainDecimals ≠ 8) (h : toOnchainAmount coin a = toOnchainAmount coin b) :
    payWithdrawal W coin toAddress a = payWithdrawal W coin toAddress b := by
  unfold payWithdrawal
  cases coin with
  | pol =>
    rw [toOnchainAmount_pol, toOnchainAmount_pol] at h
    simp only [broadcastPol, polOffer, h]
  | usdt | usdc | pepe => simp only [broadcastErc20, erc20Offer, h]
  | sol => simp only [solTransfer, h]
  | zer | btc | ltc | doge | bch | dgb => exact absurd rfl hcoin

/-! ## A world in which every payment goes through -/

def openCrypto : EvmCrypto where
  parseSecretKeyBytes _ := .ok [1]
  addressFromSecret _ := .ok [2]
  parseAddress _ := .ok [2]
  hex _ := "02"
  decodeHex _ := .ok [4]
  transferData := erc20TransferData
  signLegacyTx _ _ := .ok "0xf8"

def willingReplies : EvmReplies :=
  ⟨.ok 0, .ok 0, .ok 0, .ok (), .ok (2 ^ 128 - 1), .ok (2 ^ 128 - 1), .accepted "0x1", .ok true⟩

def willingApproval : ApproveReplies := ⟨.ok 0, .ok 0, .ok 0, .ok "0x1", .ok true⟩

def richUtxo : Utxo := ⟨"ab", 0, UInt64.ofNat (2 ^ 64 - 1), "76a9"⟩

def willingConfig : EvmConfig :=
  ⟨"https://polygon-bor-rpc.publicnode.com", "https://bsc-dataseed.binance.org"⟩

theorem willing_urls (coin : Coin) : tokenRpcUrls willingConfig (paramsFor coin .mainnet) ≠ [] := by
  cases coin <;> decide +kernel

/-- Nothing is allowed yet and everything asked for succeeds; `hot` is the address of the hot
wallet of ZER. -/
def willingWorld (hot : String) : ChainWorld where
  crypto := openCrypto
  network := .mainnet
  config := willingConfig
  hotKeyMaterial := .ok "key"
  evm _ := willingReplies
  approvals _ _ := ⟨.ok 0, willingApproval, willingApproval⟩
  sol := ⟨fun _ => true, .ok (), .sent (.accepted "sig")⟩
  utxo := ⟨.ok "hot", .ok 0, .ok [2 ^ 64 - 1], fun _ => .ok (), .ok (), .accepted "txid"⟩
  zer := ⟨fun _ => true, .ok hot, ⟨true, .ok [richUtxo], .error "down", .error "down", .ok 0⟩, .ok (),
    .accepted "txid"⟩

theorem ask_ok {α : Type} (a : α) (error : String → String) (k : α → EvmTurn) :
    ask (.ok a) error k = k a := rfl

theorem willing_erc20Turn {C : EvmCrypto} (hsign : ∀ secret tx, C.signLegacyTx secret tx = .ok "0xf8")
    {T : Erc20Transfer} (hT : T.amountToken < 2 ^ 128) (rpcUrl : String) :
    ∃ tx result, erc20Turn C T rpcUrl willingReplies = .done (some ⟨tx, false⟩) result ∧
      tx.data = T.data := by
  have hgas : ¬ 2 ^ 128 - 1 < saturate128 (max 0 (minGasPriceWei T.params) * max 0 65000) :=
    not_lt.2 (Nat.le_sub_one_of_lt (saturate128_lt _))
  unfold erc20Turn
  rw [show willingReplies.erc20Balance = .ok (2 ^ 128 - 1) from rfl, ask_ok,
    if_neg (not_lt.2 (Nat.le_sub_one_of_lt hT)),
    show willingReplies.transactionCount = .ok 0 from rfl, ask_ok,
    show willingReplies.gasPrice = .ok 0 from rfl, ask_ok,
    show willingReplies.estimateGas = .ok 0 from rfl]
  dsimp only
  rw [show willingReplies.balance = .ok (2 ^ 128 - 1) from rfl, ask_ok, if_neg hgas]
  unfold submit
  rw [hsign]
  exact ⟨_, _, rfl, rfl⟩

theorem willing_polTurn {C : EvmCrypto} (hsign : ∀ secret tx, C.signLegacyTx secret tx = .ok "0xf8")
    (secret : Secret) (toAddr : Address) (amountWei chainId : ℕ) (rpcUrl : String) :
    ∃ tx result, polTurn C secret toAddr amountWei chainId rpcUrl willingReplies =
      .done (some ⟨tx, false⟩) result ∧ tx.valueWei = amountWei := by
  unfold polTurn
  simp only [willingReplies, ask, submit, hsign]
  exact ⟨_, _, rfl, rfl⟩

theorem broadcast_sent {o : Offer} {e : String × EvmReplies} {es : List (String × EvmReplies)}
    {tx : LegacyTx} {result : Except BroadcastError BroadcastResult} (hes : o.endpoints = e :: es)
    (hturn : o.turn e.1 e.2 = .done (some ⟨tx, false⟩) result) :
    (broadcast (.ok o)).sent = [⟨tx, false⟩] := by
  unfold broadcast
  dsimp only
  rw [Offer.turns, hes, List.map_cons, hturn]
  rfl

theorem willing_erc20 {coin : Coin} {params : CoinParams} {token : String} {chainId amount : ℕ}
    {hot toAddress : String} (htoken : params.erc20Contract = some token)
    (hchain : params.evmChainId = some chainId)
    (hurls : tokenRpcUrls (willingWorld hot).config params ≠ [])
    (hne : toOnchainAmount coin amount ≠ 0) (hlt : toOnchainAmount coin amount < 2 ^ 128) :
    amountsSent (payments (fun tx => calldataAmount tx.data)
      (broadcastErc20 (willingWorld hot).evmCrypto (willingWorld hot).config coin params "key"
        toAddress amount (willingWorld hot).evm)) =
      [toOnchainAmount coin amount] := by
  obtain ⟨url, urls, hurls⟩ := List.exists_cons_of_ne_nil hurls
  obtain ⟨o, ho, hes, T, hturn, hT, hdata⟩ : ∃ o, erc20Offer (willingWorld hot).evmCrypto
      (willingWorld hot).config coin params "key" toAddress amount (willingWorld hot).evm = .ok o ∧
      (∃ e es, o.endpoints = e :: es ∧ e.2 = willingReplies) ∧
      ∃ T, o.turn = erc20Turn (willingWorld hot).evmCrypto T ∧
        T.amountToken = toOnchainAmount coin amount ∧
        T.data = erc20TransferData [2] (toOnchainAmount coin amount) := by
    unfold erc20Offer
    simp only [htoken, hchain, hurls, okOr, failIf, hne, if_false]
    exact ⟨_, rfl, ⟨_, _, rfl, rfl⟩, _, rfl, rfl, rfl⟩
  obtain ⟨e, es, hes, he⟩ := hes
  obtain ⟨tx, result, htx, hd⟩ := willing_erc20Turn (C := (willingWorld hot).evmCrypto) (T := T)
    (fun _ _ => rfl) (by rw [hT]; exact hlt) e.1
  have hsent := broadcast_sent hes (by rw [hturn, he]; exact htx)
  unfold broadcastErc20 amountsSent payments
  rw [ho, hsent]
  simp [hd, hdata, calldataAmount_erc20TransferData _ hlt]

theorem willing_pol {hot toAddress : String} {amount : ℕ} :
    amountsSent (payments LegacyTx.valueWei (broadcastPol (willingWorld hot).evmCrypto
      (willingWorld hot).config.evmRpcUrl (some 137) "key" toAddress amount (willingWorld hot).evm)) =
      [toOnchainAmount .pol amount] := by
  obtain ⟨o, ho, e, es, hes, he, hturn⟩ : ∃ o, polOffer (willingWorld hot).evmCrypto
      (willingWorld hot).config.evmRpcUrl (some 137) "key" toAddress amount
        (willingWorld hot).evm = .ok o ∧
      ∃ e es, o.endpoints = e :: es ∧ e.2 = willingReplies ∧
        o.turn = polTurn (willingWorld hot).evmCrypto [1] [2] (toOnchainAmount .pol amount) 137 := by
    rw [toOnchainAmount_pol]
    exact ⟨_, rfl, _, _, rfl, rfl, rfl⟩
  obtain ⟨tx, result, htx, hvalue⟩ := willing_polTurn (C := (willingWorld hot).evmCrypto)
    (fun _ _ => rfl) [1] [2] (toOnchainAmount .pol amount) 137 e.1
  have hsent := broadcast_sent hes (by rw [hturn, he]; exact htx)
  unfold broadcastPol amountsSent payments
  rw [ho, hsent]
  simp [hvalue]

theorem willing_utxo {coin : Coin} {hot toAddress : String} {amount : ℕ} (h : amount < 2 ^ 64) :
    utxoTransfer coin (willingWorld hot).utxo toAddress amount = .ok (amount, 0) := by
  have hfunds : ¬ [2 ^ 64 - 1].sum < amount + 0 := by
    simp only [List.sum_singleton]
    omega
  have hsign : buildAndSign [2 ^ 64 - 1] amount 0 (.ok ()) =
      .ok (amount :: if 0 < 2 ^ 64 - 1 - amount - 0 then [2 ^ 64 - 1 - amount - 0] else []) :=
    if_neg hfunds
  simp only [utxoTransfer, failIf, not_le.2 h, if_false, willingWorld, Except.mapError]
  show (buildAndSign [2 ^ 64 - 1] amount 0 (.ok ())).mapError certain >>= _ = _
  rw [hsign]
  rfl

theorem amountsSent_of_forall {l : List ℕ} {o : Option ℕ} (h : ∀ n ∈ l, o = some n)
    (hsome : ∀ n, o = some n → l = [n]) : l = o.toList := by
  cases o with
  | some n => exact hsome n rfl
  | none =>
    cases l with
    | nil => rfl
    | cons n l => exact absurd (h n List.mem_cons_self) (by simp)

theorem saturatingAdd_le_max (a b : UInt64) : saturatingAdd a b ≤ UInt64.ofNat (2 ^ 64 - 1) := by
  rw [UInt64.le_iff_toNat_le]
  have := (saturatingAdd a b).toNat_lt
  have : (UInt64.ofNat (2 ^ 64 - 1)).toNat = 2 ^ 64 - 1 := rfl
  omega

theorem willing_zer {hot toAddress : String} {amount : ℕ} (h : amount < 2 ^ 64) :
    zerTransfer (willingWorld hot).zer toAddress amount =
      .ok (zerPaid hot toAddress (UInt64.ofNat (2 ^ 64 - 1)) amount, 10000) := by
  have htotal : totalIn [richUtxo] = UInt64.ofNat (2 ^ 64 - 1) := by decide
  obtain ⟨params, hparams⟩ : ∃ params, zerRequest (willingWorld hot).zer.sources toAddress
      (UInt64.ofNat amount) hot = .ok params := by
    have henough : ¬ totalIn [richUtxo] < saturatingAdd (UInt64.ofNat amount) zerFee := by
      rw [htotal]
      exact UInt64.not_lt.2 (saturatingAdd_le_max _ _)
    simp only [zerRequest, ZerSources.utxos, willingWorld, Bool.not_true, Bool.false_eq_true,
      if_false, bind, Except.bind, henough, pure, Except.pure]
    exact ⟨_, rfl⟩
  obtain ⟨utxos, hutxos, -, hasked⟩ := zerRequest_ok hparams
  obtain rfl : utxos = [richUtxo] := (Except.ok.inj hutxos).symm
  unfold zerTransfer
  rw [show (willingWorld hot).zer.hotAddress = .ok hot from rfl]
  simp only [failIf, not_le.2 h, if_false, willingWorld, Except.mapError, Bool.not_true,
    Bool.false_eq_true, bind, Except.bind, pure, Except.pure] at hparams ⊢
  rw [hparams]
  dsimp only
  rw [hasked, Option.map_some, Option.getD_some, paidTo_zerFields, htotal,
    UInt64.toNat_ofNat_of_lt' h]
  rfl

theorem willing_zer_sent {hot toAddress : String} {amount : ℕ} (h : amount < 2 ^ 64) :
    amountsSent (payWithdrawal (willingWorld hot) .zer toAddress amount) =
      [zerPaid hot toAddress (UInt64.ofNat (2 ^ 64 - 1)) amount] := by
  have hsend := @willing_zer hot toAddress amount h
  generalize zerPaid hot toAddress (UInt64.ofNat (2 ^ 64 - 1)) amount = paid at hsend ⊢
  exact congrArg (fun x => amountsSent (sendPrepared (sendSigned (.accepted "txid") zerSafe) x)) hsend

/-- The bound of `2 ^ 64` is what the client of a coin with outputs asks for. -/
theorem willingWorld_pays {coin : Coin} {hot toAddress : String} {amount : ℕ}
    (hamount : amount < 2 ^ 128) (hzer : coin = .zer → hot ≠ toAddress) :
    amountsSent (payWithdrawal (willingWorld hot) coin toAddress amount) =
      (paidFor coin amount).toList := by
  refine amountsSent_of_forall (fun n h => paidFor_of_sent hamount (fun hc he => ?_) h) fun n hn => ?_
  · exact hzer hc (Except.ok.inj he)
  have hlt := toOnchainAmount_lt hamount coin
  cases coin with
  | pol =>
    cases hn
    exact willing_pol
  | usdt | usdc | pepe =>
    simp only [paidFor] at hn
    split at hn
    · cases hn
    · rename_i hne
      cases hn
      exact willing_erc20 rfl rfl (willing_urls _) hne hlt
  | sol =>
    simp only [paidFor] at hn
    split at hn
    · cases hn
    · rename_i hne
      cases hn
      have : solTransfer (willingWorld hot).sol toAddress amount =
          .ok (toOnchainAmount .sol amount % 2 ^ 64, 5000) := by
        simp only [solTransfer, failIf, hne, if_false]
        rfl
      exact congrArg (fun x => amountsSent (sendPrepared (sendSol (.sent (.accepted "sig"))) x)) this
  | zer =>
    simp only [paidFor] at hn
    split at hn
    · rename_i h64
      cases hn
      have hpaid : zerPaid hot toAddress (UInt64.ofNat (2 ^ 64 - 1)) amount = amount :=
        if_neg fun hc => hzer rfl hc.2
      rw [willing_zer_sent h64, hpaid]
    · cases hn
  | btc | ltc | doge | bch | dgb =>
    simp only [paidFor] at hn
    split at hn
    · rename_i h64
      cases hn
      exact congrArg (fun x => amountsSent (sendPrepared (sendSigned (.accepted "txid")
        fun _ => false) x)) (willing_utxo h64)
    · cases hn

theorem willingWorld_hotAt (hot : String) : (willingWorld hot).HotAt hot :=
  fun _ h => (Except.ok.inj h).symm

/-- Whoever pays ZER to himself pays what he would have left. -/
theorem zerPaid_self {hot : String} {n : ℕ} (h : n < 2 ^ 64) :
    zerPaid hot hot (UInt64.ofNat (2 ^ 64 - 1)) n = n ↔ n = 2 ^ 64 - 10001 := by
  have hchange : (zerChange (UInt64.ofNat (2 ^ 64 - 1)) n).toNat =
      (2 ^ 64 - 1 + (2 ^ 64 - n) + (2 ^ 64 - 10000)) % 2 ^ 64 := by
    unfold zerChange
    rw [UInt64.toNat_sub, UInt64.toNat_sub, UInt64.toNat_ofNat_of_lt' h,
      show (UInt64.ofNat (2 ^ 64 - 1)).toNat = 2 ^ 64 - 1 from rfl,
      show zerFee.toNat = 10000 from rfl]
    omega
  have hpos : 0 < zerChange (UInt64.ofNat (2 ^ 64 - 1)) n ↔
      0 < (zerChange (UInt64.ofNat (2 ^ 64 - 1)) n).toNat := UInt64.lt_iff_toNat_lt
  unfold zerPaid
  split
  · rename_i hc
    have := hpos.1 hc.1
    omega
  · rename_i hc
    have : ¬ 0 < (zerChange (UInt64.ofNat (2 ^ 64 - 1)) n).toNat := fun h => hc ⟨hpos.2 h, rfl⟩
    omega

theorem sentAway_of_paid {hot : String} {coin : Coin} {toAddress : String} {n : ℕ}
    (h : coin = .zer → ∀ W : ChainWorld, W.HotAt hot →
      ∀ x ∈ amountsSent (payWithdrawal W .zer toAddress n), x = n) :
    SentAway hot coin toAddress n := by
  rintro rfl rfl
  by_cases h64 : n < 2 ^ 64
  · refine .inl ((@zerPaid_self toAddress n h64).1 ?_)
    refine h rfl _ (willingWorld_hotAt toAddress) _ ?_
    rw [willing_zer_sent h64]
    exact List.mem_singleton_self _
  · exact .inr (not_lt.1 h64)

end SatsPay
