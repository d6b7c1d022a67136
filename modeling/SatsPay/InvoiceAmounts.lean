import SatsPay.DepositAmounts

/-!
# What an invoice asks for

The amounts that an invoice can be created or quoted with, and the scan of an address
that decides whether what arrived pays one. Every accepted amount is paid by the on-chain
amount shown for it exactly when that amount stands for it without a remainder.
-/

namespace SatsPay

/-! ## Amounts of a request -/

/-- Answered with 400. -/
structure Rejected where
  code : String
  message : String
  deriving DecidableEq, Repr

def invalidAmount : Rejected := ⟨"INVALID_AMOUNT", "invalid amount"⟩

def amountNotInteger : Rejected :=
  ⟨"AMOUNT_NOT_INTEGER",
    "amount must be an integer number of ledger units (1e-8). 25 USDT = \"2500000000\", " ++
      "not \"25.00\""⟩

def parseAmount (raw : String) (coin : Coin) : Except Rejected ℕ :=
  let raw := trim raw.toList
  let looksNumeric := raw.all fun c => c.isDigit || ['.', ',', 'e', 'E', '+', '-'].contains c
  if raw = [] then .error invalidAmount
  else if looksNumeric ∧ raw.any (['.', ',', 'e', 'E'].contains ·) then .error amountNotInteger
  else if !raw.all Char.isDigit ∨ 30 < raw.length then .error invalidAmount
  else match parseU128 raw with
    | none => .error invalidAmount
    | some units =>
      if units = 0 then .error ⟨"INVALID_AMOUNT", "amount must be greater than 0"⟩
      else if toOnchainAmount coin units = 0 then
        .error ⟨"AMOUNT_BELOW_MINIMUM",
          s!"amount is below the smallest {coin.asStr} unit payable on-chain"⟩
      else .ok units

def invalidUsd : Rejected :=
  ⟨"INVALID_AMOUNT_USD", "amountUsd must be a positive decimal like \"25.00\""⟩

/-- Dollars, in units of `10 ^ -decimals`. -/
def parseUsd (raw : String) (decimals : ℕ) : Except Rejected ℕ :=
  let t := (trim raw.toList).map fun c => if c = ',' then '.' else c
  if t = [] ∨ !(t.all fun c => c.isDigit || c == '.') ∨ 1 < t.count '.' then .error invalidUsd
  else
    let (whole, frac) := (splitOnce '.' t).getD (t, [])
    if decimals < frac.length then
      .error ⟨"INVALID_AMOUNT_USD", s!"amountUsd supports at most {decimals} decimal places"⟩
    else
      let digits := (if whole = [] then ['0'] else whole) ++ frac ++
        List.replicate (decimals - frac.length) '0'
      match parseDigits digits with
      | none => .error invalidUsd
      | some scaled =>
        if scaled = 0 then .error ⟨"INVALID_AMOUNT_USD", "amountUsd must be greater than 0"⟩
        else .ok scaled

/-! ## Quotes -/

/-- `with_scale(0)` -/
def truncate (q : ℚ) : ℤ := if 0 ≤ q then ⌊q⌋ else ⌈q⌉

def ceilToInteger (value : ℚ) : ℤ :=
  if (truncate value : ℚ) < value then truncate value + 1 else truncate value

/-- The quotient is exact: a `BigDecimal` keeps a hundred digits of it, and a price has
at most twenty. -/
def usdToLedgerUnits (priceUsdScaled coinPriceScaled : ℚ) : Option ℤ :=
  if coinPriceScaled ≤ 0 then none
  else some (ceilToInteger (priceUsdScaled * 10 ^ 8 / coinPriceScaled))

structure CoinOption where
  coin : Coin
  amount : ℤ
  priceScaled : ℕ

/-- `BigDecimal::to_u128` of an integer -/
def intToU128 (n : ℤ) : Option ℕ := if 0 ≤ n ∧ n < 2 ^ 128 then some n.toNat else none

/-- `price` is what `get_price` gives, with its decimals. -/
def priceOption {ε : Type} (priceUsdScaled : ℚ) (coin : Coin) (price : Except ε (ℕ × ℕ)) :
    Option CoinOption :=
  match price with
  | .error _ => none
  | .ok (price, _) => do
    let priceScaled := if price < 2 ^ 64 then price else 0
    let amount ← usdToLedgerUnits priceUsdScaled priceScaled
    if amount ≤ 0 then none
    else if (((intToU128 amount).map fun u => decide (toOnchainAmount coin u = 0))).getD true then none
    else some ⟨coin, amount, priceScaled⟩

def priceOptions {ε : Type} (getPrice : Coin → Except ε (ℕ × ℕ)) (coins : List Coin)
    (priceUsdScaled : ℚ) : List CoinOption :=
  coins.filterMap fun coin => priceOption priceUsdScaled coin (getPrice coin)

/-! ## The scan of an address -/

structure Scan where
  seen : ℕ
  confirmed : ℕ
  bestConfs : ℕ
  txHash : Option String

def Scan.add (minConfs : ℕ) (s : Scan) (tx : OnchainTx) : Scan where
  seen := s.seen + tx.amount
  confirmed := if minConfs ≤ tx.confirmations then s.confirmed + tx.amount else s.confirmed
  bestConfs := if s.bestConfs ≤ tx.confirmations then tx.confirmations else s.bestConfs
  txHash := s.txHash.or (some tx.txHash)

def scan (minConfs : ℕ) (deposits : List OnchainTx) : Scan :=
  deposits.foldl (Scan.add minConfs) ⟨0, 0, 0, none⟩

structure ScanReplies where
  invoicesAtAddress : Except String ℕ
  lockCoin : Except String Unit
  pointSelectionAt : Except String Unit
  markInvoiceDetected : Scan → Except String Unit
  confirmInvoice : Except String Unit

structure InvoiceAddress where
  coin : Coin
  address : String
  amount : ℚ

/-- True when it confirmed the invoice. -/
def scanInvoiceAddress (deposits : Except ChainError (List OnchainTx)) (invoiceCoin : Coin)
    (addr : InvoiceAddress) (r : ScanReplies) : Bool :=
  match deposits with
  | .error _ => false
  | .ok deposits =>
    let s := scan addr.coin.minConfirmations deposits
    if deposits.isEmpty then false
    else match r.invoicesAtAddress with
      | .error _ => false
      | .ok n =>
        if 1 < n then false
        else if !r.lockCoin.isOk then false
        else if invoiceCoin ≠ addr.coin ∧ !r.pointSelectionAt.isOk then false
        else if !(r.markInvoiceDetected s).isOk then false
        else if (s.confirmed : ℚ) < addr.amount then false
        else r.confirmInvoice.isOk

/-- No other invoice shares the address, and every statement goes through. -/
def ScanReplies.Good (r : ScanReplies) (invoiceCoin : Coin) (addr : InvoiceAddress) (s : Scan) :
    Prop :=
  (∃ n, r.invoicesAtAddress = .ok n ∧ n ≤ 1) ∧ r.lockCoin.isOk ∧
    (invoiceCoin ≠ addr.coin → r.pointSelectionAt.isOk) ∧ (r.markInvoiceDetected s).isOk ∧
      r.confirmInvoice.isOk

/-! ## There and back -/

/-- The smallest unit on chain divides the amount, and the on-chain amount has 128 bits. -/
def Representable (coin : Coin) (amount : ℕ) : Prop :=
  if 8 ≤ coin.onchainDecimals then amount * 10 ^ (coin.onchainDecimals - 8) < 2 ^ 128
  else 10 ^ (8 - coin.onchainDecimals) ∣ amount

instance (coin : Coin) (amount : ℕ) : Decidable (Representable coin amount) := by
  unfold Representable
  infer_instance

inductive Accepted (coin : Coin) (amount : ℕ) : Prop where
  | created {raw : String} (h : parseAmount raw coin = .ok amount)
  | quoted {ε : Type} {getPrice : Coin → Except ε (ℕ × ℕ)} {coins : List Coin} {usd : ℚ}
    {o : CoinOption} (h : o ∈ priceOptions getPrice coins usd) (hc : o.coin = coin)
    (ha : o.amount = amount)

theorem parseAmount_ok {raw : String} {coin : Coin} {units : ℕ}
    (h : parseAmount raw coin = .ok units) : units < 2 ^ 128 ∧ toOnchainAmount coin units ≠ 0 := by
  unfold parseAmount at h
  dsimp only at h
  split at h
  · cases h
  split at h
  · cases h
  split at h
  · cases h
  split at h
  · cases h
  rename_i n hn
  split at h
  · cases h
  split at h
  · cases h
  rename_i hz
  cases h
  exact ⟨parseU128_lt hn, hz⟩

theorem priceOption_some {ε : Type} {usd : ℚ} {coin : Coin} {price : Except ε (ℕ × ℕ)}
    {o : CoinOption} (h : priceOption usd coin price = some o) :
    o.coin = coin ∧ ∃ u, intToU128 o.amount = some u ∧ toOnchainAmount coin u ≠ 0 := by
  unfold priceOption at h
  split at h
  · cases h
  obtain ⟨a, -, h⟩ := Option.bind_eq_some_iff.1 h
  split at h
  · cases h
  split at h
  · cases h
  rename_i hz
  cases h
  refine ⟨rfl, ?_⟩
  cases hu : intToU128 a with
  | none => rw [hu] at hz; exact absurd rfl hz
  | some u => exact ⟨u, rfl, fun h0 => hz (by rw [hu, Option.map_some, Option.getD_some, h0]; rfl)⟩

theorem Accepted.bounds {coin : Coin} {amount : ℕ} (h : Accepted coin amount) :
    amount < 2 ^ 128 ∧ toOnchainAmount coin amount ≠ 0 := by
  cases h with
  | created h => exact parseAmount_ok h
  | quoted h hc ha =>
    obtain ⟨c, -, ho⟩ := List.mem_filterMap.1 h
    obtain ⟨rfl, u, hu, hz⟩ := priceOption_some ho
    rw [ha, intToU128] at hu
    split at hu
    · rename_i hlt
      cases hu
      rw [Int.toNat_natCast] at hz
      exact ⟨by exact_mod_cast hlt.2, hc ▸ hz⟩
    · cases hu

theorem le_fromOnchain_iff {coin : Coin} {amount : ℕ} (ha : amount < 2 ^ 128) :
    amount ≤ fromOnchainAmount coin (toOnchainAmount coin amount) ↔ Representable coin amount := by
  unfold Representable fromOnchainAmount toOnchainAmount
  split
  · generalize hk : 10 ^ (coin.onchainDecimals - 8) = k
    have hpos : 0 < k := hk ▸ by positivity
    rw [Nat.le_div_iff_mul_le hpos, saturate128]
    omega
  · generalize hk : 10 ^ (8 - coin.onchainDecimals) = k
    have hpos : 0 < k := hk ▸ by positivity
    have hle : amount / k * k ≤ amount := Nat.div_mul_le_self amount k
    rw [saturate128_of_lt (by omega)]
    constructor
    · intro h
      exact ⟨amount / k, by rw [Nat.mul_comm]; omega⟩
    · intro h
      rw [Nat.div_mul_cancel h]

theorem fromOnchain_ne_zero {coin : Coin} {amount : ℕ} (ha : amount < 2 ^ 128)
    (hz : toOnchainAmount coin amount ≠ 0) :
    fromOnchainAmount coin (toOnchainAmount coin amount) ≠ 0 := by
  unfold fromOnchainAmount
  unfold toOnchainAmount at hz ⊢
  split
  · rename_i h8
    rw [if_pos h8] at hz
    have hk : 10 ^ (coin.onchainDecimals - 8) ≤ 10 ^ 10 :=
      Nat.pow_le_pow_right (by norm_num) (by cases coin <;> decide)
    generalize 10 ^ (coin.onchainDecimals - 8) = k at hz hk
    have ham : amount ≠ 0 := by
      rintro rfl
      simp [saturate128] at hz
    have hle : k ≤ saturate128 (amount * k) := by
      have := Nat.mul_le_mul_right k (Nat.one_le_iff_ne_zero.2 ham)
      unfold saturate128
      omega
    rcases Nat.eq_zero_or_pos k with rfl | hpos
    · simp [saturate128] at hz
    · exact (Nat.div_pos hle hpos).ne'
  · rename_i h8
    rw [if_neg h8] at hz
    have hpos : 0 < 10 ^ (8 - coin.onchainDecimals) := by positivity
    have := Nat.mul_pos (Nat.pos_of_ne_zero hz) hpos
    unfold saturate128
    omega

/-! ## Paid exactly -/

theorem scan_single {minConfs : ℕ} {tx : OnchainTx} (h : minConfs ≤ tx.confirmations) :
    (scan minConfs [tx]).confirmed = tx.amount := by
  simp [scan, Scan.add, h]

theorem scanInvoiceAddress_iff {deposits : List OnchainTx} {invoiceCoin : Coin}
    {addr : InvoiceAddress} {r : ScanReplies} (hne : deposits ≠ []) :
    scanInvoiceAddress (.ok deposits) invoiceCoin addr r = true ↔
      r.Good invoiceCoin addr (scan addr.coin.minConfirmations deposits) ∧
        addr.amount ≤ (scan addr.coin.minConfirmations deposits).confirmed := by
  unfold scanInvoiceAddress ScanReplies.Good
  cases hn : r.invoicesAtAddress with
  | error e => simp [hne]
  | ok n =>
    simp only [List.isEmpty_iff, hne, if_false]
    by_cases hle : 1 < n
    · simp [hle, Nat.not_le.2 hle]
    by_cases hl : r.lockCoin.isOk <;> by_cases hc : invoiceCoin = addr.coin <;>
      by_cases hp : r.pointSelectionAt.isOk <;>
        by_cases hm : (r.markInvoiceDetected (scan addr.coin.minConfirmations deposits)).isOk <;>
          simp [hle, hl, hc, hp, hm, Nat.not_lt.1 hle, and_comm]

/-- What arrived is credited as what was shown, and the scan confirms the invoice with it. -/
def PaysExactly (coin : Coin) (amount : ℕ) (address : String) (reply : Reply) : Prop :=
  (reply.txs coin address).map OnchainTx.amount =
      [fromOnchainAmount coin (toOnchainAmount coin amount)] ∧
    ∀ (invoiceCoin : Coin) (r : ScanReplies),
      r.Good invoiceCoin ⟨coin, address, amount⟩
        (scan coin.minConfirmations (reply.txs coin address)) →
      scanInvoiceAddress (.ok (reply.txs coin address)) invoiceCoin ⟨coin, address, amount⟩ r = true

def quietScan : ScanReplies := ⟨.ok 1, .ok (), .ok (), fun _ => .ok (), .ok ()⟩

theorem quietScan_good (invoiceCoin : Coin) (addr : InvoiceAddress) (s : Scan) :
    quietScan.Good invoiceCoin addr s :=
  ⟨⟨1, rfl, le_rfl⟩, rfl, fun _ => rfl, rfl, rfl⟩

/-- An accepted amount is shown to the customer in units of the chain. When the whole of it
arrives, deep enough, it is credited and confirms the invoice if the amount is representable on
chain and is read as the provider writes it, and only then. -/
theorem paid_exactly_iff {shown : ℕ → ℕ} (hp : ShortestPrint shown) {coin : Coin} {amount : ℕ}
    (hacc : Accepted coin amount) {address : String} {reply : Reply}
    {w : Writing (toOnchainAmount coin amount)}
    (hshows : reply.Shows address shown (toOnchainAmount coin amount) coin w)
    (hdeep : ∀ tx ∈ reply.txs coin address, coin.minConfirmations ≤ tx.confirmations) :
    PaysExactly coin amount address reply ↔ Representable coin amount ∧ w.Exact shown := by
  obtain ⟨hlt, hz⟩ := hacc.bounds
  have hamounts := hshows.amounts_iff hp (toOnchainAmount_lt hlt coin) (fromOnchain_ne_zero hlt hz)
  unfold PaysExactly
  rw [hamounts, and_comm]
  refine and_congr_left fun hexact => ?_
  obtain ⟨tx, htx, hamount⟩ := List.map_eq_singleton_iff.1 (hamounts.2 hexact)
  rw [htx] at hdeep ⊢
  have hscan (invoiceCoin : Coin) (r : ScanReplies)
      (hgood : r.Good invoiceCoin ⟨coin, address, amount⟩ (scan coin.minConfirmations [tx])) :
      scanInvoiceAddress (.ok [tx]) invoiceCoin ⟨coin, address, amount⟩ r = true ↔
        Representable coin amount := by
    rw [scanInvoiceAddress_iff (List.cons_ne_nil _ _), and_iff_right hgood,
      scan_single (hdeep tx List.mem_cons_self), hamount, Nat.cast_le]
    exact le_fromOnchain_iff hlt
  exact ⟨fun h => (hscan coin quietScan (quietScan_good _ _ _)).1 (h _ _ (quietScan_good _ _ _)),
    fun h invoiceCoin r hgood => (hscan invoiceCoin r hgood).2 h⟩

def usdtTransfer (value : String) : Reply :=
  .blockscoutToken [⟨some "0xd1", some 64, some "0xc2132D05D31c914a87C6611C10748AEb04B58e8F",
    some "0xabc", some value⟩]

theorem shows_usdtTransfer {value : String} {v : ℕ} (h : value.toList = Nat.toDigits 10 v)
    (hne : (value != "0") = true) : (usdtTransfer value).Shows "0xabc" id v .usdt .units := by
  refine .blockscoutToken rfl (List.filter_cons_of_pos ?_) rfl h
  simp only [BlockscoutTokenItem.pays, Option.any_some, hne, Bool.and_true]
  decide +kernel

/-- An output of DGB whose value is a float, and the scan of a node that shows it. -/
def dgbOutput (sats : ℕ) : UnspentOutput := ⟨"aa", 0, sats, .float, none, some 1⟩

def dgbReply (credited : ℕ) : Reply := .node [⟨"aa", 0, credited, "", 100⟩]

theorem shows_dgbReply {sats credited : ℕ} (hlt : sats < 2 ^ 64)
    (h : parseScantxoutset (scanResult id 100 [dgbOutput sats]) =
      some [⟨"aa", 0, credited, "", 100⟩]) :
    (dgbReply credited).Shows "D1" id sats .dgb (.node (dgbOutput sats) rfl) :=
  .node rfl rfl hlt h

/-- 25 USDT by the token's explorer, and 0.12345678 DGB by a node. -/
theorem paid_exactly_first :
    PaysExactly .usdt 2500000000 "0xabc" (usdtTransfer "25000000") ∧
      PaysExactly .dgb 12345678 "D1" (dgbReply 12345678) := by
  have husdt : parseAmount "2500000000" .usdt = .ok 2500000000 := by decide +kernel
  have hdgb : parseAmount "12345678" .dgb = .ok 12345678 := by decide +kernel
  have h₁ : (usdtTransfer "25000000").Shows "0xabc" id (toOnchainAmount .usdt 2500000000) .usdt
      .units := shows_usdtTransfer (by decide +kernel) (by decide)
  have h₂ : (dgbReply 12345678).Shows "D1" id (toOnchainAmount .dgb 12345678) .dgb
      (.node (dgbOutput (toOnchainAmount .dgb 12345678)) rfl) :=
    shows_dgbReply (by decide +kernel) (by decide +kernel)
  have hread : (dgbOutput (toOnchainAmount .dgb 12345678)).PrintsBack id := by
    simp [dgbOutput, UnspentOutput.PrintsBack, toOnchainAmount, Coin.onchainDecimals, saturate128]
  exact ⟨(paid_exactly_iff shortestPrint_id (.created husdt) h₁ (by decide +kernel)).2
      ⟨by decide +kernel, trivial⟩,
    (paid_exactly_iff shortestPrint_id (.created hdgb) h₂ (by decide +kernel)).2
      ⟨by decide +kernel, hread⟩⟩

/-- An invoice over 150 units of USDT is accepted. Its payer is shown 1 unit on chain, which is
worth 100, and pays it: the invoice stays open. One over 999 units of DGB is credited with almost
ten coins. -/
theorem dust_invoice_unpaid :
    (parseAmount "150" .usdt = .ok 150 ∧ toOnchainAmount .usdt 150 = 1 ∧
      (usdtTransfer "1").Shows "0xabc" id 1 .usdt .units ∧
      (∀ tx ∈ (usdtTransfer "1").txs .usdt "0xabc", Coin.usdt.minConfirmations ≤ tx.confirmations) ∧
      scanInvoiceAddress (.ok ((usdtTransfer "1").txs .usdt "0xabc")) .usdt
        ⟨.usdt, "0xabc", (150 : ℕ)⟩ quietScan = false ∧
      ¬ PaysExactly .usdt 150 "0xabc" (usdtTransfer "1")) ∧
    parseAmount "999" .dgb = .ok 999 ∧ toOnchainAmount .dgb 999 = 999 ∧
      (dgbReply 999600000).Shows "D1" id 999 .dgb (.node (dgbOutput 999) rfl) ∧
      (∀ tx ∈ (dgbReply 999600000).txs .dgb "D1", Coin.dgb.minConfirmations ≤ tx.confirmations) ∧
      ¬ PaysExactly .dgb 999 "D1" (dgbReply 999600000) := by
  have hscan : scanInvoiceAddress (.ok ((usdtTransfer "1").txs .usdt "0xabc")) .usdt
      ⟨.usdt, "0xabc", (150 : ℕ)⟩ quietScan = false := by decide +kernel
  refine ⟨⟨by decide +kernel, by decide, shows_usdtTransfer (by decide +kernel) (by decide),
    by decide +kernel, hscan, fun h => ?_⟩, by decide +kernel, by decide,
    shows_dgbReply (by decide) (by decide +kernel), by decide +kernel, fun h => ?_⟩
  · have := h.2 .usdt quietScan (quietScan_good _ _ _)
    rw [hscan] at this
    cases this
  · exact absurd h.1 (by decide +kernel)

end SatsPay
