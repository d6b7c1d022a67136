import SatsPay.ChainClient
import SatsPay.Doubles
import SatsPay.UtxoNodeRpc

/-!
# Where deposits are read

`MultiChainRpcClient`: which provider answers for an address of a coin, and how an
answer of each becomes deposits with a depth. An answer is given as it is decoded.
-/

namespace SatsPay

open Doubles

/-! ## Answers -/

structure MempoolUtxo where
  txid : String
  vout : ℕ
  value : ℕ
  blockHeight : Option ℤ

structure BlockcypherOutput where
  value : ℤ
  addresses : List String

structure BlockcypherTx where
  hash : String
  confirmations : ℤ
  outputs : List BlockcypherOutput

structure BitcoreCoinEntry where
  mintTxid : String
  mintIndex : ℕ
  mintHeight : ℤ
  value : ℤ

structure BlockscoutTxItem where
  hash : String
  toHash : Option String
  value : Option String
  status : Option String
  result : Option String
  confirmations : Option ℤ

structure BlockscoutTokenItem where
  transactionHash : Option String
  confirmations : Option ℕ
  tokenAddressHash : Option String
  toHash : Option String
  totalValue : Option String

/-- An entry of `eth_getLogs`. -/
structure TransferLog where
  transactionHash : Option String
  data : Option String
  blockNumber : Option String

structure InsightUtxo where
  txid : String
  vout : ℕ
  satoshis : Option ℕ
  /-- A double. -/
  amount : Option ℚ
  confirmations : Option ℕ

structure BlockbookUtxo where
  txid : String
  vout : ℕ
  value : String
  confirmations : Option ℕ

/-- `meta` and the account keys of a transaction; the balances by index. -/
structure SolanaTransfer where
  failed : Bool
  accountKeys : List String
  preBalances : List (Option ℕ)
  postBalances : List (Option ℕ)

/-- An entry of `getSignaturesForAddress` with what `getTransaction` then says of it. -/
structure SolanaSignature where
  signature : Option String
  failed : Bool
  confirmationStatus : Option String
  transaction : Except ChainError (Option ℕ × Option SolanaTransfer)

inductive Reply where
  | mempoolSpace (utxos : List MempoolUtxo) (tip : Option ℤ)
  | blockcypher (txs : List BlockcypherTx)
  | bitcore (coins : List BitcoreCoinEntry)
  -- a body that is not read (Blockchair, SoChain), or none at all
  | unread
  | blockscoutPolygon (items : List BlockscoutTxItem)
  | evmBalance (result : Option String)
  | blockscoutToken (items : List BlockscoutTokenItem)
  | transferLogs (tip : ℕ) (logs : List TransferLog)
  | node (scanned : List ScannedUtxo)
  | insight (utxos : List InsightUtxo)
  | blockbook (utxos : List BlockbookUtxo)
  | explorer (rows : List Value)
  | signatures (items : List SolanaSignature)

/-! ## Formats -/

/-- `as u128` of an `i64` -/
def asU128 (n : ℤ) : ℕ := (n % 2 ^ 128).toNat

/-- `max(0) as u32` -/
def asDepth (n : ℤ) : ℕ := n.toNat % 2 ^ 32

section
variable (address : String)

def mempoolSpaceTx (tip : Option ℤ) (u : MempoolUtxo) : OnchainTx :=
  let confs := match u.blockHeight with
    | some h => asDepth (tip.getD 0 - h + 1)
    | none => 0
  ⟨u.txid, u.vout, u.value, confs, address⟩

def blockcypherTxs (tx : BlockcypherTx) : List OnchainTx :=
  tx.outputs.zipIdx.filterMap fun (out, vout) =>
    if out.addresses.any (eqIgnoreAsciiCase · address) then
      some ⟨tx.hash, vout, asU128 out.value, asDepth tx.confirmations, address⟩
    else none

def bitcoreTx (c : BitcoreCoinEntry) : OnchainTx :=
  ⟨c.mintTxid, c.mintIndex, c.value.toNat, if 0 < c.mintHeight then 6 else 0, address⟩

def blockscoutPolygonTx (item : BlockscoutTxItem) : Option OnchainTx := do
  let toHash ← item.toHash
  if !eqIgnoreAsciiCase toHash address then none
  else if item.status ≠ some "ok" ∧ item.result ≠ some "success" then none
  else
    let rawWei := ((item.value.bind fun s => parseU128 s.toList)).getD 0
    if rawWei = 0 then none
    else some ⟨item.hash, 0, rawWei / 10 ^ 10, asDepth (item.confirmations.getD 30), address⟩

/-- `trim_start_matches("0x")` -/
def trimStart0x : List Char → List Char
  | '0' :: 'x' :: s => trimStart0x s
  | s => s

/-- The first sixteen bytes of the address stand for a transaction. -/
def balanceHash : String :=
  "evm_bal_" ++ String.ofList ((address.toUTF8.toList.take 16).flatMap fun b =>
    let hex := Nat.toDigits 16 b.toNat
    List.replicate (2 - hex.length) '0' ++ hex)

def evmBalanceTxs (result : Option String) : List OnchainTx :=
  match result.bind fun s => fromStrRadix16 (2 ^ 128) (trimStart0x s.toList) with
  | some rawWei => if 0 < rawWei then [⟨balanceHash address, 0, rawWei / 10 ^ 10, 30, address⟩] else []
  | none => []

def blockscoutTokenTx (coin : Coin) (token : String) (item : BlockscoutTokenItem) :
    Option OnchainTx :=
  if !eqIgnoreAsciiCase (item.tokenAddressHash.getD "") token then none
  else if !eqIgnoreAsciiCase (item.toHash.getD "") address then none
  else
    let raw := ((item.totalValue.bind fun s => parseU128 s.toList)).getD 0
    let amount := fromOnchainAmount coin raw
    if amount = 0 then none
    else some ⟨item.transactionHash.getD "", 0, amount, item.confirmations.getD 30, address⟩

def TransferLog.block (log : TransferLog) : Option ℕ :=
  log.blockNumber.bind fun s => fromStrRadix16 (2 ^ 64) (trimStart0x s.toList)

/-- `fetch_erc20_received`, whose amounts are in units of the token. -/
def transferLogTx (tip : ℕ) (log : TransferLog) : Option OnchainTx :=
  let amount := (fromStrRadix16 (2 ^ 128) (trimStart0x (log.data.getD "0x0").toList)).getD 0
  if amount = 0 then none
  else
    some ⟨log.transactionHash.getD "", 0, amount, (tip - log.block.getD tip + 1) % 2 ^ 32, address⟩

def receivedTx (coin : Coin) (tip : ℕ) (log : TransferLog) : Option OnchainTx :=
  ((transferLogTx address tip log).map fun t =>
    { t with amount := fromOnchainAmount coin t.amount }).filter fun t => 0 < t.amount

/-- `round() as u128` -/
def roundToU128 (q : ℚ) : ℕ := saturate128 (roundHalfAway q).toNat

/-- Coins as a double, in units: `(f * 100_000_000.0).round() as u128`. -/
def coinsToSats (f : ℚ) : ℕ := roundToU128 (nearest (f * 10 ^ 8))

def nodeTx (u : ScannedUtxo) : OnchainTx := ⟨u.txid, u.vout, u.valueSats, u.confirmations, address⟩

def insightTx (u : InsightUtxo) : OnchainTx :=
  ⟨u.txid, u.vout, u.satoshis.getD (coinsToSats (u.amount.getD 0)),
    u.confirmations.getD 0, address⟩

def blockbookTx (u : BlockbookUtxo) : OnchainTx :=
  ⟨u.txid, u.vout, (parseU128 u.value.toList).getD 0, u.confirmations.getD 0, address⟩

end

/-! ### The explorer of ZER -/

def Number.toRat : Number → ℚ
  | .posInt n => n
  | .negInt n => -n
  | .float neg digits exp =>
    (if neg then -1 else 1) * (Nat.ofDigitChars 10 digits 0 : ℚ) * 10 ^ exp

/-- `as_f64` -/
def Number.asF64 (n : Number) : ℚ := nearest n.toRat

def splitSign : List Char → Bool × List Char
  | '-' :: s => (true, s)
  | '+' :: s => (false, s)
  | s => (false, s)

def parseExponent : List Char → Option ℤ
  | [] => some 0
  | _ :: s =>
    let (neg, s) := splitSign s
    (parseDigits s).map fun n => if neg then -(n : ℤ) else n

/-- `parse::<f64>` of a text with a point. -/
def parsePointed (s : List Char) : Option ℚ :=
  let (neg, s) := splitSign s
  let isExp (c : Char) := c == 'e' || c == 'E'
  (splitOnce '.' (s.takeWhile (!isExp ·))).bind fun (int, frac) =>
    (parseDigits (int ++ frac)).bind fun n =>
      (parseExponent (s.dropWhile (!isExp ·))).map fun exp =>
        nearest ((if neg then -1 else 1) * (n : ℚ) * 10 ^ (exp - (frac.length : ℤ)))

/-- An integer from a million on is an amount of units; below it is one of coins. -/
def valueToSats : Value → Option ℕ
  | .number n =>
    match n with
    | .posInt u => some (if 1000000 ≤ u then u else coinsToSats n.asF64)
    | n => some (coinsToSats n.asF64)
  | .string s =>
    if s.toList.contains '.' then (parsePointed s.toList).map coinsToSats
    else parseU128 s.toList
  | _ => none

def explorerTx (address : String) (tx : Value) : Option OnchainTx := do
  let txHash ← ((tx.get "txid").or (tx.get "hash")).bind Value.asStr
  let confirmations := ((tx.get "confirmations").bind Value.asU64).getD 0 % 2 ^ 32
  let amount := (((tx.get "amount").bind valueToSats).or
    ((tx.get "value").bind valueToSats)).getD 0
  some ⟨txHash, (((tx.get "vout").bind Value.asU64).getD 0) % 2 ^ 32, amount, confirmations, address⟩

/-! ### Solana -/

/-- By the status of the signature, and by the slot where it has none. -/
def solanaDepth (status : Option String) (slot : ℕ) : ℕ :=
  match status with
  | some s => if s = "finalized" then 32 else if s = "confirmed" then 1 else 0
  | none => if 0 < slot then 32 else 0

def solanaCredit (address sig : String) (confs : ℕ) (t : SolanaTransfer) (key : String) (i : ℕ) :
    Option OnchainTx :=
  let before := ((t.preBalances[i]?).join).getD 0
  let after := ((t.postBalances[i]?).join).getD 0
  if !eqIgnoreAsciiCase key address ∨ after ≤ before then none
  else
    let amount := fromOnchainAmount .sol (after - before)
    if amount = 0 then none else some ⟨sig, i, amount, confs, address⟩

def solanaTxs (address : String) (item : SolanaSignature) : List OnchainTx :=
  match item.signature, item.transaction with
  | some sig, .ok (slot, some t) =>
    if item.failed ∨ t.failed then []
    else
      t.accountKeys.zipIdx.filterMap fun (key, i) =>
        solanaCredit address sig (solanaDepth item.confirmationStatus (slot.getD 0)) t key i
  | _, _ => []

def Reply.txs (coin : Coin) (address : String) : Reply → List OnchainTx
  | .mempoolSpace utxos tip => utxos.map (mempoolSpaceTx address tip)
  | .blockcypher txs => txs.flatMap (blockcypherTxs address)
  | .bitcore coins => coins.map (bitcoreTx address)
  | .unread => []
  | .blockscoutPolygon items => items.filterMap (blockscoutPolygonTx address)
  | .evmBalance result => evmBalanceTxs address result
  | .blockscoutToken items =>
    items.filterMap (blockscoutTokenTx address coin
      (((paramsFor coin .mainnet).erc20Contract).getD ""))
  | .transferLogs tip logs => logs.filterMap (receivedTx address coin tip)
  | .node scanned => scanned.map (nodeTx address)
  | .insight utxos => utxos.map (insightTx address)
  | .blockbook utxos => utxos.map (blockbookTx address)
  | .explorer rows => rows.filterMap (explorerTx address)
  | .signatures items => (items.take 25).flatMap (solanaTxs address)

/-! ## Cascades -/

/-- What each provider answers about one address, asked by its base, chain or URL. -/
structure Web where
  mempoolSpace : String → Except ChainError (List MempoolUtxo × Option ℤ)
  blockcypher : String → Except ChainError (List BlockcypherTx)
  bitcore : String → Except ChainError (List BitcoreCoinEntry)
  /-- the second time that BCH asks it, for the address without a prefix -/
  bitcoreAgain : Except ChainError (List BitcoreCoinEntry)
  blockchair : Except ChainError Unit
  sochain : Except ChainError Unit
  blockscoutPolygon : Except ChainError (List BlockscoutTxItem)
  evmBalance : String → Except ChainError (Option String)
  blockscoutToken : Except ChainError (List BlockscoutTokenItem)
  transferLogs : String → Except ChainError (ℕ × List TransferLog)
  /-- `scantxoutset`, where a node is configured -/
  node : Option (Except ChainError Value)
  insight : Except ChainError (List InsightUtxo)
  blockbook : Except ChainError (List BlockbookUtxo)
  explorer : Except ChainError (List Value)
  /-- `None` is what is no array. -/
  signatures : Except ChainError (Option (List SolanaSignature))

def orNext {α : Type} (x y : Except ChainError α) : Except ChainError α :=
  match x with
  | .ok a => .ok a
  | .error _ => y

def firstOf {α : Type} (last : Except ChainError α) : List (Except ChainError α) → Except ChainError α
  | [] => last
  | x :: xs => orNext x (firstOf last xs)

/-- An answer without a deposit is passed over. -/
def unlessEmpty (coin : Coin) (address : String) (x next : Except ChainError Reply) :
    Except ChainError Reply :=
  match x with
  | .ok r => if (r.txs coin address).isEmpty then next else .ok r
  | .error _ => next

section
variable (w : Web)

def fromMempool (baseUrl : String) : Except ChainError Reply :=
  (w.mempoolSpace baseUrl).map fun r => .mempoolSpace r.1 r.2

def fromBlockcypher (coinPath : String) : Except ChainError Reply :=
  (w.blockcypher coinPath).map .blockcypher

def fromBitcore (chain : String) : Except ChainError Reply := (w.bitcore chain).map .bitcore

def fromLogs (rpcUrl : String) : Except ChainError Reply :=
  (w.transferLogs rpcUrl).map fun r => .transferLogs r.1 r.2

def fetchBtcWithFallbacks : Except ChainError Reply :=
  firstOf (fromBlockcypher w "btc") [fromMempool w "https://mempool.space/api",
    fromMempool w "https://blockstream.info/api", fromBitcore w "btc"]

def fetchLtcWithFallbacks : Except ChainError Reply :=
  firstOf (.error (.rpc "All 3 LTC RPC providers failed"))
    [fromMempool w "https://litecoinspace.org/api", fromBlockcypher w "ltc", fromBitcore w "ltc"]

def fetchDogeWithFallbacks : Except ChainError Reply :=
  firstOf (.error (.rpc "All 3 DOGE RPC providers failed"))
    [fromBlockcypher w "doge", fromBitcore w "doge", w.sochain.map fun _ => .unread]

def fetchBchWithFallbacks : Except ChainError Reply :=
  firstOf (w.bitcoreAgain.map .bitcore) [fromBitcore w "bch", w.blockchair.map fun _ => .unread]

def polygonRpcs : List String :=
  ["https://polygon-bor-rpc.publicnode.com", "https://1rpc.io/matic", "https://polygon.drpc.org",
    "https://polygon.gateway.tenderly.co"]

def fetchEvmWithFallbacks (address : String) : Except ChainError Reply :=
  unlessEmpty .pol address (w.blockscoutPolygon.map .blockscoutPolygon)
    (firstOf (.error (.rpc "All Polygon EVM RPCs failed"))
      (polygonRpcs.map fun url => (w.evmBalance url).map .evmBalance))

def fetchErc20WithFallbacks (coin : Coin) (address : String) : Except ChainError Reply :=
  unlessEmpty coin address (w.blockscoutToken.map .blockscoutToken)
    (firstOf (.ok .unread) ((polygonRpcs.take 3).map (fromLogs w)))

/-- The scan of a node, read at once: one that cannot be read has failed. -/
def fromNode (r : Except ChainError Value) : Except ChainError Reply :=
  r.bind fun v => match parseScantxoutset v with
    | none => .error (.unreadable v)
    | some scanned => .ok (.node scanned)

def nodeFirst (next : Except ChainError Reply) : Except ChainError Reply :=
  match w.node with
  | some r => orNext (fromNode r) next
  | none => next

def fetchDgbWithFallbacks : Except ChainError Reply :=
  nodeFirst w (orNext (w.insight.map .insight) (w.blockbook.map .blockbook))

def fetchZerWithFallbacks : Except ChainError Reply := nodeFirst w (w.explorer.map .explorer)

def bscRpcs (configured : String) : List String :=
  configured :: ["https://bsc-dataseed.binance.org", "https://bsc-rpc.publicnode.com",
    "https://1rpc.io/bnb"].filter (· ≠ configured)

def fetchPepeBsc (network : ChainNetwork) (bscRpcUrl : String) : Except ChainError Reply :=
  match (paramsFor .pepe network).erc20Contract with
  | none => .error (.rpc "PEPE só existe na BNB Smart Chain mainnet (BEP-20). Testnet recusado.")
  | some _ =>
    if (paramsFor .pepe network).evmChainId ≠ some 56 then
      .error (.rpc "PEPE chain id ausente — recusado fora da BNB mainnet")
    else
      firstOf (.error (.rpc "PEPE deposit scan failed on every BSC RPC"))
        ((bscRpcs bscRpcUrl).map (fromLogs w))

def answering (network : ChainNetwork) (bscRpcUrl : String) (coin : Coin) (address : String) :
    Except ChainError Reply :=
  match coin with
  | .btc => fetchBtcWithFallbacks w
  | .ltc => fetchLtcWithFallbacks w
  | .doge => fetchDogeWithFallbacks w
  | .bch => fetchBchWithFallbacks w
  | .pol => fetchEvmWithFallbacks w address
  | .dgb => fetchDgbWithFallbacks w
  | .zer => fetchZerWithFallbacks w
  | .sol => w.signatures.map fun items => (items.map .signatures).getD .unread
  | .usdt => fetchErc20WithFallbacks w .usdt address
  | .usdc => fetchErc20WithFallbacks w .usdc address
  | .pepe => fetchPepeBsc w network bscRpcUrl

def fetchDeposits (network : ChainNetwork) (bscRpcUrl : String) (coin : Coin)
    (address : String) : Except ChainError (List OnchainTx) :=
  (answering w network bscRpcUrl coin address).map (·.txs coin address)

end

end SatsPay
