import SatsPay.DepositSources

/-!
# What an answer says was paid

The answers of the providers that show one payment to an address, with the amount in the format
of each, and which amounts are read as they are. Integers of units are. A node's coins are
read by the text their float is printed as, and those of the explorer of ZER by size.
-/

namespace SatsPay

open Doubles

/-! ## Digits -/

theorem fromHexDigit_digitChar {d : ℕ} (h : d < 16) : fromHexDigit (Nat.digitChar d) = some d := by
  interval_cases d <;> decide

theorem foldlM_hex (v : ℕ) :
    (Nat.toDigits 16 v).foldlM (fun n c => (fromHexDigit c).map (16 * n + ·)) 0 = some v := by
  induction v using Nat.strongRecOn with
  | ind v ih =>
    by_cases h : v < 16
    · rw [Nat.toDigits_of_lt_base h, List.foldlM_cons, fromHexDigit_digitChar h]
      simp
    · rw [Nat.toDigits_of_base_le (by norm_num) (by omega), List.foldlM_append, ih (v / 16) (by omega)]
      have hd := fromHexDigit_digitChar (Nat.mod_lt v (show 0 < 16 by norm_num))
      simp only [Option.bind_eq_bind, Option.bind_some, List.foldlM_cons, hd, Option.map_some,
        List.foldlM_nil]
      exact congrArg some (Nat.div_add_mod v 16)

theorem foldlM_zeros (k : ℕ) :
    (List.replicate k '0').foldlM (fun n c => (fromHexDigit c).map (16 * n + ·)) 0 = some 0 := by
  induction k with
  | zero => rfl
  | succ k ih =>
    rw [List.replicate_succ, List.foldlM_cons]
    exact ih

def paddedHex (k v : ℕ) : List Char := List.replicate k '0' ++ Nat.toDigits 16 v

theorem mem_paddedHex {k v : ℕ} {c : Char} (h : c ∈ paddedHex k v) : c ≠ 'x' ∧ c ≠ '+' := by
  rcases List.mem_append.1 h with h | h
  · rw [(List.mem_replicate.1 h).2]
    decide
  · induction v using Nat.strongRecOn with
    | ind v ih =>
      have hdigit {d : ℕ} (hd : d < 16) : Nat.digitChar d ≠ 'x' ∧ Nat.digitChar d ≠ '+' := by
        interval_cases d <;> decide
      by_cases hv : v < 16
      · rw [Nat.toDigits_of_lt_base hv, List.mem_singleton] at h
        exact h ▸ hdigit hv
      · rw [Nat.toDigits_of_base_le (by norm_num) (by omega), List.mem_append, List.mem_singleton] at h
        rcases h with h | rfl
        · exact ih (v / 16) (by omega) (List.mem_append_right _ h) h
        · exact hdigit (Nat.mod_lt _ (by norm_num))

theorem trimStart0x_eq_self {s : List Char} (h : ∀ c ∈ s, c ≠ 'x') : trimStart0x s = s := by
  unfold trimStart0x
  split
  · exact absurd rfl (h 'x' (by simp))
  · rfl

theorem fromStrRadix16_paddedHex {k v limit : ℕ} (hlt : v < limit) :
    fromStrRadix16 limit (trimStart0x ('0' :: 'x' :: paddedHex k v)) = some v := by
  rw [show trimStart0x ('0' :: 'x' :: paddedHex k v) = trimStart0x (paddedHex k v) from rfl,
    trimStart0x_eq_self fun c hc => (mem_paddedHex hc).1]
  have hne : paddedHex k v ≠ [] := by simp [paddedHex, Nat.toDigits_ne_nil]
  have hfold : (paddedHex k v).foldlM (fun n c => (fromHexDigit c).map (16 * n + ·)) 0 = some v := by
    unfold paddedHex
    rw [List.foldlM_append, foldlM_zeros]
    exact foldlM_hex v
  have hplus : ∀ c ∈ paddedHex k v, c ≠ '+' := fun c hc => (mem_paddedHex hc).2
  generalize paddedHex k v = ds at hne hfold hplus
  have hread : fromStrRadix16 limit ds =
      (ds.foldlM (fun n c => (fromHexDigit c).map (16 * n + ·)) 0).filter (· < limit) := by
    unfold fromStrRadix16
    split
    · exact absurd rfl (hplus '+' List.mem_cons_self)
    · exact if_neg hne
  rw [hread, hfold]
  exact Option.filter_some_pos (decide_eq_true hlt)

theorem parseU128_toDigits {v : ℕ} (hlt : v < 2 ^ 128) : parseU128 (Nat.toDigits 10 v) = some v := by
  have hd : ∀ c ∈ Nat.toDigits 10 v, c.isDigit := fun c hc =>
    Nat.isDigit_of_mem_toDigits (by norm_num) (by norm_num) hc
  rw [parseU128_digits Nat.toDigits_ne_nil hd (by rwa [Nat.ofDigitChars_ten_toDigits]),
    Nat.ofDigitChars_ten_toDigits]

/-! ## Answers that show a payment -/

/-- How an answer writes an amount of `v` units. -/
inductive Writing (v : ℕ) where
  -- an integer of units, in digits of one base or another
  | units
  -- the number of coins of a node
  | node (o : UnspentOutput) (h : o.sats = v)
  -- coins as a double
  | double
  -- a text of coins
  | coinText (s : String) (h : CoinText v s.toList)
  -- integers that are taken for units or for coins by their size
  | integerUnits
  | integerCoins (n : ℕ) (h : n * 10 ^ 8 = v)

def Writing.Exact (shown : ℕ → ℕ) {v : ℕ} : Writing v → Prop
  | .units => True
  | .node o _ => o.PrintsBack shown
  | .double => coinsToSats (nearest (v / 10 ^ 8)) = v
  | .coinText s _ => '.' ∈ s.toList ∧ coinsToSats (nearest (v / 10 ^ 8)) = v
  | .integerUnits => 1000000 ≤ v
  | .integerCoins n _ => n < 1000000

inductive Value.Writes (v : ℕ) : Value → Writing v → Prop
  | units (s : String) (hs : s.toList = Nat.toDigits 10 v) : Writes v (.string s) .units
  | double (neg : Bool) (digits : List Char) (exp : ℤ)
      (hd : (Number.float neg digits exp).asF64 = nearest (v / 10 ^ 8)) :
      Writes v (.number (.float neg digits exp)) .double
  | coinText (s : String) (h : CoinText v s.toList) : Writes v (.string s) (.coinText s h)
  | integerUnits : Writes v (.number (.posInt v)) .integerUnits
  | integerCoins (n : ℕ) (h : n * 10 ^ 8 = v) : Writes v (.number (.posInt n)) (.integerCoins n h)

section
variable (address : String)

def BlockcypherOutput.pays (out : BlockcypherOutput) : Bool :=
  out.addresses.any (eqIgnoreAsciiCase · address)

def BlockscoutTxItem.pays (item : BlockscoutTxItem) : Bool :=
  item.toHash.any (eqIgnoreAsciiCase · address) &&
    (item.status == some "ok" || item.result == some "success") &&
      item.value.any (· != "0")

def BlockscoutTokenItem.pays (token : String) (item : BlockscoutTokenItem) : Bool :=
  eqIgnoreAsciiCase (item.tokenAddressHash.getD "") token &&
    eqIgnoreAsciiCase (item.toHash.getD "") address && item.totalValue.any (· != "0")

/-- What cannot be read is nothing. -/
def BlockscoutTxItem.rawWei (item : BlockscoutTxItem) : ℕ :=
  (item.value.bind fun s => parseU128 s.toList).getD 0

def BlockscoutTokenItem.raw (item : BlockscoutTokenItem) : ℕ :=
  (item.totalValue.bind fun s => parseU128 s.toList).getD 0

def SolanaTransfer.before (t : SolanaTransfer) (i : ℕ) : ℕ := ((t.preBalances[i]?).join).getD 0

def SolanaTransfer.after (t : SolanaTransfer) (i : ℕ) : ℕ := ((t.postBalances[i]?).join).getD 0

/-- The account is another one, or gains nothing. -/
def SolanaTransfer.Passes (t : SolanaTransfer) (i : ℕ) : Prop :=
  ∀ key, t.accountKeys[i]? = some key → eqIgnoreAsciiCase key address → t.after i ≤ t.before i

def SolanaSignature.Idle (item : SolanaSignature) : Prop :=
  item.failed ∨ ∀ slot t, item.transaction = .ok (slot, some t) → t.failed ∨ ∀ i, t.Passes address i

/-- The answer shows one payment to the address, of `v` of the smallest units on chain. -/
inductive Reply.Shows (shown : ℕ → ℕ) (v : ℕ) : Coin → Reply → Writing v → Prop
  | mempoolSpace {coin : Coin} {u : MempoolUtxo} {tip : Option ℤ} (hc : coin.onchainDecimals = 8)
      (hv : u.value = v) : Shows shown v coin (.mempoolSpace [u] tip) .units
  | blockcypher {coin : Coin} {txs : List BlockcypherTx} {out : BlockcypherOutput}
      (hc : coin.onchainDecimals = 8)
      (ho : txs.flatMap (fun tx => tx.outputs.filter (·.pays address)) = [out]) (hv : out.value = v) :
      Shows shown v coin (.blockcypher txs) .units
  | bitcore {coin : Coin} {c : BitcoreCoinEntry} (hc : coin.onchainDecimals = 8)
      (hv : c.value = v) : Shows shown v coin (.bitcore [c]) .units
  | blockscoutPolygon {items : List BlockscoutTxItem} {item : BlockscoutTxItem} {text : String}
      (hi : items.filter (·.pays address) = [item]) (ht : item.value = some text)
      (hv : text.toList = Nat.toDigits 10 v) : Shows shown v .pol (.blockscoutPolygon items) .units
  | evmBalance {text : String} {k : ℕ} (hv : text.toList = '0' :: 'x' :: paddedHex k v) :
      Shows shown v .pol (.evmBalance (some text)) .units
  | blockscoutToken {coin : Coin} {items : List BlockscoutTokenItem} {item : BlockscoutTokenItem}
      {token text : String} (hk : (paramsFor coin .mainnet).erc20Contract = some token)
      (hi : items.filter (·.pays address token) = [item]) (ht : item.totalValue = some text)
      (hv : text.toList = Nat.toDigits 10 v) : Shows shown v coin (.blockscoutToken items) .units
  | transferLogs {coin : Coin} {tip : ℕ} {log : TransferLog} {text : String} {k : ℕ}
      (hd : log.data = some text) (hv : text.toList = '0' :: 'x' :: paddedHex k v) :
      Shows shown v coin (.transferLogs tip [log]) .units
  | node {coin : Coin} {o : UnspentOutput} {tip : ℕ} {scanned : List ScannedUtxo}
      (hc : coin.onchainDecimals = 8) (ho : o.sats = v) (hlt : o.sats < 2 ^ 64)
      (hs : parseScantxoutset (scanResult shown tip [o]) = some scanned) :
      Shows shown v coin (.node scanned) (.node o ho)
  | insight {coin : Coin} {u : InsightUtxo} (hc : coin.onchainDecimals = 8)
      (hv : u.satoshis = some v) : Shows shown v coin (.insight [u]) .units
  | insightCoins {coin : Coin} {u : InsightUtxo} (hc : coin.onchainDecimals = 8)
      (hn : u.satoshis = none) (hv : u.amount = some (nearest (v / 10 ^ 8))) :
      Shows shown v coin (.insight [u]) .double
  | blockbook {coin : Coin} {u : BlockbookUtxo} (hc : coin.onchainDecimals = 8)
      (hv : u.value.toList = Nat.toDigits 10 v) : Shows shown v coin (.blockbook [u]) .units
  | explorer {tx a : Value} {txid : String} {w : Writing v}
      (hid : ((tx.get "txid").or (tx.get "hash")).bind Value.asStr = some txid)
      (ha : tx.get "amount" = some a ∨ tx.get "amount" = none ∧ tx.get "value" = some a)
      (hw : a.Writes v w) : Shows shown v .zer (.explorer [tx]) w
  | signatures {items pre post : List SolanaSignature} {item : SolanaSignature} {sig key : String}
      {slot : Option ℕ} {t : SolanaTransfer} {i : ℕ} (hi : items.take 25 = pre ++ item :: post)
      (hidle : ∀ x ∈ pre ++ post, x.Idle address) (hs : item.signature = some sig)
      (hok : item.failed = false) (htx : item.transaction = .ok (slot, some t))
      (htok : t.failed = false) (hk : t.accountKeys[i]? = some key)
      (ha : eqIgnoreAsciiCase key address) (hv : t.after i = t.before i + v)
      (hothers : ∀ j, j ≠ i → t.Passes address j) : Shows shown v .sol (.signatures items) .units

end

/-! ## What is read -/

theorem fromOnchainAmount_eight {coin : Coin} (hc : coin.onchainDecimals = 8) (v : ℕ) :
    fromOnchainAmount coin v = v := by
  simp [fromOnchainAmount, hc]

theorem asU128_natCast {v : ℕ} (h : v < 2 ^ 128) : asU128 v = v := by
  unfold asU128
  omega

/-- Amounts of coins below 22 million are read back from their doubles. -/
theorem coinsToSats_nearest {v : ℕ} (h : v < 2 ^ 51) : coinsToSats (nearest (v / 10 ^ 8)) = v := by
  have hq : (0 : ℚ) ≤ v / 10 ^ 8 := by positivity
  have hd : (0 : ℚ) ≤ toDouble (v / 10 ^ 8) * 10 ^ 8 := mul_nonneg (toDouble_nonneg hq) (by norm_num)
  have hback := @abs_mul_back_lt v (10 ^ 8) (by norm_num) h
  unfold coinsToSats roundToU128
  rw [nearest_of_nonneg hq, nearest_of_nonneg hd]
  have hround : roundHalfAway (toDouble (toDouble (v / 10 ^ 8) * 10 ^ 8)) = v := by
    rw [abs_lt] at hback
    unfold roundHalfAway
    rw [if_pos (toDouble_nonneg hd), Int.floor_eq_iff]
    push_cast
    constructor <;> linarith [hback.1, hback.2]
  rw [hround, Int.toNat_natCast, saturate128_of_lt (by omega)]

/-- A small number of whole coins is one as a double. -/
theorem coinsToSats_whole {n : ℕ} (h : n < 1000000) : coinsToSats (Number.posInt n).asF64 = n * 10 ^ 8 := by
  have hn : (Number.posInt n).asF64 = n := by
    unfold Number.asF64 Number.toRat
    rw [nearest_of_nonneg (by positivity), toDouble_natCast (by omega)]
  unfold coinsToSats roundToU128
  rw [hn, show (n : ℚ) * 10 ^ 8 = ((n * 10 ^ 8 : ℕ) : ℚ) by push_cast; rfl,
    nearest_of_nonneg (Nat.cast_nonneg _), toDouble_natCast (by omega),
    show ((n * 10 ^ 8 : ℕ) : ℚ) = ((n * 10 ^ 8 : ℤ) : ℚ) by push_cast; rfl, roundHalfAway_int,
    saturate128_of_lt (by omega)]
  omega

theorem parsePointed_point {i f : List Char} {v : ℕ} (hd : ∀ c ∈ i ++ f, c.isDigit)
    (hne : i ++ f ≠ []) (hf : f.length ≤ 8)
    (hv : Nat.ofDigitChars 10 (i ++ f) 0 * 10 ^ (8 - f.length) = v) :
    parsePointed (i ++ '.' :: f) = some (nearest (v / 10 ^ 8)) := by
  have hchars : ∀ c ∈ i ++ '.' :: f, c.isDigit ∨ c = '.' := by
    intro c hc
    rcases List.mem_append.1 hc with hc | hc
    · exact .inl (hd c (List.mem_append_left _ hc))
    · rcases List.mem_cons.1 hc with rfl | hc
      · exact .inr rfl
      · exact .inl (hd c (List.mem_append_right _ hc))
  have hsign : splitSign (i ++ '.' :: f) = (false, i ++ '.' :: f) := by
    generalize i ++ '.' :: f = t at hchars
    unfold splitSign
    split
    · exact absurd (hchars _ List.mem_cons_self) (by decide)
    · exact absurd (hchars _ List.mem_cons_self) (by decide)
    · rfl
  have hexp : ∀ c ∈ i ++ '.' :: f, (!(c == 'e' || c == 'E')) = true := by
    intro c hc
    have hne : c ≠ 'e' ∧ c ≠ 'E' := by
      constructor <;> rintro rfl <;> exact absurd (hchars _ hc) (by decide)
    simp [hne.1, hne.2]
  have hdigits : parseDigits (i ++ f) = some (Nat.ofDigitChars 10 (i ++ f) 0) :=
    if_pos ⟨hne, List.all_eq_true.2 hd⟩
  have hvalue : (Nat.ofDigitChars 10 (i ++ f) 0 : ℚ) * 10 ^ (0 - (f.length : ℤ)) = v / 10 ^ 8 := by
    rw [← hv, zero_sub, zpow_neg, zpow_natCast, eq_div_iff (by norm_num), mul_assoc]
    have hten : ((10 : ℚ) ^ f.length)⁻¹ * 10 ^ 8 = 10 ^ (8 - f.length) := by
      rw [inv_mul_eq_iff_eq_mul₀ (by positivity), ← pow_add, Nat.add_sub_cancel' hf]
    rw [hten]
    push_cast
    rfl
  unfold parsePointed
  simp only [hsign, List.takeWhile_eq_self_iff.2 hexp, List.dropWhile_eq_nil_iff.2 hexp,
    splitOnce_point fun c hc => hd c (List.mem_append_left _ hc), Option.bind_some, hdigits,
    parseExponent, Option.map_some, Bool.false_eq_true, if_false, one_mul]
  exact congrArg (fun q => some (nearest q)) hvalue

/-- What the explorer writes is read as it is, or as something else. -/
theorem valueToSats_of_writes {v : ℕ} {a : Value} {w : Writing v} {shown : ℕ → ℕ}
    (h : a.Writes v w) (hv : 0 < v) (hlt : v < 2 ^ 128) :
    ∃ n, valueToSats a = some n ∧ (n = v ↔ w.Exact shown) := by
  cases h with
  | units s hs =>
    have hpoint : '.' ∉ Nat.toDigits 10 v := fun h =>
      absurd (Nat.isDigit_of_mem_toDigits (by norm_num) (by norm_num) h) (by decide)
    refine ⟨v, ?_, by simp [Writing.Exact]⟩
    simp only [valueToSats, hs]
    rw [if_neg (mt List.contains_iff_mem.1 hpoint)]
    exact parseU128_toDigits hlt
  | double neg digits exp hd =>
    refine ⟨coinsToSats (nearest (v / 10 ^ 8)), ?_, Iff.rfl⟩
    rw [← hd]
    rfl
  | coinText s h =>
    simp only [valueToSats, Writing.Exact]
    generalize s.toList = t at h
    cases h with
    | whole i hne hd hv' =>
      have hpoint : '.' ∉ t := fun h => absurd (hd _ h) (by decide)
      refine ⟨Nat.ofDigitChars 10 t 0, ?_, iff_of_false (by omega) fun h => hpoint h.1⟩
      rw [if_neg (mt List.contains_iff_mem.1 hpoint)]
      exact parseU128_digits hne hd (by omega)
    | point i f hd hf hv' =>
      have hpoint : '.' ∈ i ++ '.' :: f := List.mem_append_right _ List.mem_cons_self
      have hne : i ++ f ≠ [] := by
        intro h
        rw [h, Nat.ofDigitChars_nil, Nat.zero_mul] at hv'
        omega
      refine ⟨coinsToSats (nearest (v / 10 ^ 8)), ?_, by rw [and_iff_right hpoint]⟩
      rw [if_pos (List.contains_iff_mem.2 hpoint), parsePointed_point hd hne hf hv']
      rfl
  | integerUnits =>
    refine ⟨_, rfl, ?_⟩
    unfold Writing.Exact
    split
    · rename_i h
      exact ⟨fun _ => h, fun _ => rfl⟩
    · rename_i h
      rw [coinsToSats_whole (not_le.1 h)]
      exact iff_of_false (by omega) h
  | integerCoins n h =>
    refine ⟨_, rfl, ?_⟩
    unfold Writing.Exact
    split
    · rename_i hn
      exact iff_of_false (by omega) (not_lt.2 hn)
    · rename_i hn
      rw [coinsToSats_whole (not_le.1 hn)]
      exact iff_of_true h (not_le.1 hn)

/-! ## What is credited -/

section
variable {α β : Type} {f : α → Option β} {l : List α} {a : α} {b : β}

/-- One element passes the filter, and the others are dropped in any case. -/
theorem filterMap_of_filter {p : α → Bool} (h : l.filter p = [a]) (ha : f a = some b)
    (hnone : ∀ x ∈ l, p x = false → f x = none) : l.filterMap f = [b] := by
  have hcongr : l.filterMap f = (l.filter p).filterMap f := by
    rw [List.filterMap_filter]
    refine List.filterMap_congr fun x hx => ?_
    by_cases hp : p x
    · rw [if_pos hp]
    · rw [if_neg hp, hnone x hx (by simpa using hp)]
  rw [hcongr, h, List.filterMap_cons_some ha, List.filterMap_nil]

theorem filterMap_zipIdx_single {g : α × ℕ → Option β} {i n : ℕ} (ha : l[i]? = some a)
    (hg : g (a, n + i) = some b) (h : ∀ j x, l[j]? = some x → j ≠ i → g (x, n + j) = none) :
    (l.zipIdx n).filterMap g = [b] := by
  induction l generalizing i n with
  | nil => simp at ha
  | cons x l ih =>
    rw [List.zipIdx_cons]
    cases i with
    | zero =>
      obtain rfl := Option.some.inj ha
      have hhead : g (x, n) = some b := hg
      rw [List.filterMap_cons_some hhead, List.filterMap_eq_nil_iff.2]
      rintro ⟨y, m⟩ hy
      obtain ⟨j, rfl, hj⟩ : ∃ j, m = n + 1 + j ∧ l[j]? = some y := by
        obtain ⟨hle, hget⟩ := List.mem_zipIdx_iff_le_and_getElem?_sub.1 hy
        exact ⟨m - (n + 1), by omega, hget⟩
      have := h (j + 1) y hj (by omega)
      rwa [show n + 1 + j = n + (j + 1) by omega]
    | succ i =>
      have hhead : g (x, n) = none := h 0 x rfl (by omega)
      rw [List.filterMap_cons_none hhead]
      refine ih ha ?_ fun j y hj hne => ?_
      · rwa [show n + 1 + i = n + (i + 1) by omega]
      · rw [show n + 1 + j = n + (j + 1) by omega]
        exact h (j + 1) y hj (by omega)

theorem map_filterMap_zipIdx {γ : Type} {p : α → Bool} {g : α → ℕ → β} {amount : β → γ} {m : α → γ}
    (h : ∀ x i, amount (g x i) = m x) (n : ℕ) :
    ((l.zipIdx n).filterMap fun x => if p x.1 then some (g x.1 x.2) else none).map amount =
      (l.filter p).map m := by
  induction l generalizing n with
  | nil => rfl
  | cons x l ih =>
    rw [List.zipIdx_cons, List.filter_cons, List.filterMap_cons]
    by_cases hp : p x
    · simp only [if_pos hp, List.map_cons, ih, h]
    · simp only [if_neg hp, ih]

end

section
variable {address : String} {v : ℕ}

theorem blockcypherTxs_amounts (tx : BlockcypherTx) :
    (blockcypherTxs address tx).map OnchainTx.amount =
      (tx.outputs.filter (·.pays address)).map fun out => asU128 out.value :=
  map_filterMap_zipIdx
    (p := fun out : BlockcypherOutput => out.addresses.any (eqIgnoreAsciiCase · address))
    (g := fun out vout => (⟨tx.hash, vout, asU128 out.value, asDepth tx.confirmations, address⟩ : OnchainTx))
    (fun _ _ => rfl) 0

theorem evmBalanceTxs_of_read {text : String}
    (hv : fromStrRadix16 (2 ^ 128) (trimStart0x text.toList) = some v) (hpos : 0 < v) :
    evmBalanceTxs address (some text) = [⟨balanceHash address, 0, v / 10 ^ 10, 30, address⟩] := by
  unfold evmBalanceTxs
  rw [Option.bind_some, hv]
  exact if_pos hpos

theorem transferLogTx_of_read {tip : ℕ} {log : TransferLog} {text : String}
    (hd : log.data = some text)
    (hv : fromStrRadix16 (2 ^ 128) (trimStart0x text.toList) = some v) (hpos : v ≠ 0) :
    transferLogTx address tip log = some ⟨log.transactionHash.getD "", 0, v,
      (tip - log.block.getD tip + 1) % 2 ^ 32, address⟩ := by
  unfold transferLogTx
  rw [hd, Option.getD_some, hv, Option.getD_some]
  exact if_neg hpos

theorem parseU128_zero : parseU128 "0".toList = some 0 := by decide

theorem blockscoutPolygonTx_eq (item : BlockscoutTxItem) :
    blockscoutPolygonTx address item = if item.pays address = true ∧ item.rawWei ≠ 0 then
      some ⟨item.hash, 0, item.rawWei / 10 ^ 10, asDepth (item.confirmations.getD 30), address⟩
    else none := by
  unfold blockscoutPolygonTx BlockscoutTxItem.pays
  cases hdest : item.toHash with
  | none => rfl
  | some dest =>
    have hshown : item.rawWei ≠ 0 → item.value.any (· != "0") = true := by
      intro hne
      unfold BlockscoutTxItem.rawWei at hne
      cases hvalue : item.value with
      | none => exact absurd (by rw [hvalue]; rfl) hne
      | some text =>
        refine bne_iff_ne.2 fun htext => hne ?_
        rw [hvalue, htext, Option.bind_some, parseU128_zero, Option.getD_some]
    simp only [Option.bind_eq_bind, Option.bind_some, Option.any_some, Bool.and_eq_true,
      Bool.or_eq_true, beq_iff_eq, ne_eq, ← not_or]
    rw [show (item.value.bind fun s => parseU128 s.toList).getD 0 = item.rawWei from rfl]
    by_cases ha : eqIgnoreAsciiCase dest address <;>
      by_cases hok : item.status = some "ok" ∨ item.result = some "success" <;>
      by_cases hne : item.rawWei = 0 <;> simp [ha, hok, hne, hshown]

theorem blockscoutPolygonTx_of_not_pays {item : BlockscoutTxItem}
    (hp : item.pays address = false) : blockscoutPolygonTx address item = none := by
  rw [blockscoutPolygonTx_eq, if_neg fun h => Bool.false_ne_true (hp.symm.trans h.1)]

theorem fromOnchainAmount_zero (coin : Coin) : fromOnchainAmount coin 0 = 0 := by
  simp [fromOnchainAmount, saturate128]

theorem blockscoutTokenTx_eq (coin : Coin) (token : String) (item : BlockscoutTokenItem) :
    blockscoutTokenTx address coin token item =
      if item.pays address token = true ∧ fromOnchainAmount coin item.raw ≠ 0 then
        some ⟨item.transactionHash.getD "", 0, fromOnchainAmount coin item.raw,
          item.confirmations.getD 30, address⟩
      else none := by
  unfold blockscoutTokenTx BlockscoutTokenItem.pays
  have hshown : fromOnchainAmount coin item.raw ≠ 0 → item.totalValue.any (· != "0") = true := by
    intro hne
    unfold BlockscoutTokenItem.raw at hne
    cases hvalue : item.totalValue with
    | none => exact absurd (by rw [hvalue]; exact fromOnchainAmount_zero coin) hne
    | some text =>
      refine bne_iff_ne.2 fun htext => hne ?_
      rw [hvalue, htext, Option.bind_some, parseU128_zero, Option.getD_some, fromOnchainAmount_zero]
  rw [show (item.totalValue.bind fun s => parseU128 s.toList).getD 0 = item.raw from rfl]
  by_cases htoken : eqIgnoreAsciiCase (item.tokenAddressHash.getD "") token <;>
    by_cases ha : eqIgnoreAsciiCase (item.toHash.getD "") address <;>
    by_cases hne : fromOnchainAmount coin item.raw = 0 <;>
    simp_all

theorem blockscoutTokenTx_of_not_pays {coin : Coin} {token : String} {item : BlockscoutTokenItem}
    (hp : item.pays address token = false) : blockscoutTokenTx address coin token item = none := by
  rw [blockscoutTokenTx_eq, if_neg fun h => Bool.false_ne_true (hp.symm.trans h.1)]

theorem solanaTxs_of_idle {item : SolanaSignature} (h : item.Idle address) :
    solanaTxs address item = [] := by
  unfold solanaTxs
  split
  · rename_i sig slot t hs htx
    split
    · rfl
    rename_i hok
    rw [not_or] at hok
    have hpass : ∀ i, t.Passes address i := by
      rcases h with hf | h
      · exact absurd hf hok.1
      · exact (h slot t htx).resolve_left hok.2
    rw [List.filterMap_eq_nil_iff]
    rintro ⟨key, i⟩ hi
    obtain ⟨-, hget⟩ := List.mem_zipIdx_iff_le_and_getElem?_sub.1 hi
    refine if_pos ?_
    by_cases hkey : eqIgnoreAsciiCase key address
    · exact .inr (hpass i key hget hkey)
    · exact .inl (by simpa using hkey)
  · rfl

theorem solanaTxs_of_gain {item : SolanaSignature} {sig key : String} {slot : Option ℕ}
    {t : SolanaTransfer} {i : ℕ} (hs : item.signature = some sig) (hok : item.failed = false)
    (htx : item.transaction = .ok (slot, some t)) (htok : t.failed = false)
    (hk : t.accountKeys[i]? = some key) (ha : eqIgnoreAsciiCase key address)
    (hv : t.after i = t.before i + v) (hothers : ∀ j, j ≠ i → t.Passes address j) (hpos : v ≠ 0)
    (hz : fromOnchainAmount .sol v ≠ 0) :
    solanaTxs address item = [⟨sig, i, fromOnchainAmount .sol v,
      solanaDepth item.confirmationStatus (slot.getD 0), address⟩] := by
  unfold solanaTxs
  simp only [hs, htx, hok, htok, Bool.false_eq_true, or_self, if_false]
  refine filterMap_zipIdx_single hk ?_ fun j key' hj hne => ?_
  · rw [Nat.zero_add]
    have hgain : ¬ (!eqIgnoreAsciiCase key address ∨ t.after i ≤ t.before i) := by
      rintro (h | h)
      · rw [ha] at h
        cases h
      · omega
    refine (if_neg hgain).trans ?_
    rw [show ((t.postBalances[i]?).join).getD 0 - ((t.preBalances[i]?).join).getD 0 =
      t.after i - t.before i from rfl, hv, Nat.add_sub_cancel_left]
    exact if_neg hz
  · rw [Nat.zero_add]
    refine if_pos ?_
    by_cases hkey : eqIgnoreAsciiCase key' address
    · exact .inr (hothers j hne key' hj hkey)
    · exact .inl (by simpa using hkey)

theorem explorerTx_of_read {tx : Value} {txid : String} {n : ℕ}
    (hid : ((tx.get "txid").or (tx.get "hash")).bind Value.asStr = some txid)
    (hread : (((tx.get "amount").bind valueToSats).or ((tx.get "value").bind valueToSats)).getD 0 = n) :
    ∃ t, explorerTx address tx = some t ∧ t.amount = n := by
  unfold explorerTx
  simp only [Option.bind_eq_bind, hid, Option.bind_some]
  exact ⟨_, rfl, hread⟩

/-- The deposit that a node's scan of one output shows. -/
theorem parseScantxoutset_single {shown : ℕ → ℕ} {o : UnspentOutput} {tip : ℕ}
    {scanned : List ScannedUtxo} (h : parseScantxoutset (scanResult shown tip [o]) = some scanned) :
    ∃ u, scanned = [u] ∧ coinAmountToSats (o.amount.value shown) = some u.valueSats := by
  have hmap : ([o].map (·.toValue shown)).mapM (parseUnspent (some tip)) = some scanned := h
  rw [List.map_singleton, List.mapM_cons] at hmap
  obtain ⟨u, hu, hmap⟩ := Option.bind_eq_some_iff.1 hmap
  cases hmap
  exact ⟨u, rfl, (parseUnspent_toValue hu).2.2⟩

theorem blockscoutPolygonTxs_amounts {items : List BlockscoutTxItem} {item : BlockscoutTxItem}
    {text : String} (hi : items.filter (·.pays address) = [item]) (ht : item.value = some text)
    (hv : text.toList = Nat.toDigits 10 v) (hlt : v < 2 ^ 128) (hpos : v ≠ 0) :
    (items.filterMap (blockscoutPolygonTx address)).map OnchainTx.amount =
      [fromOnchainAmount .pol v] := by
  have hpays : item.pays address = true :=
    (List.mem_filter.1 (hi ▸ List.mem_singleton_self item)).2
  have hraw : item.rawWei = v := by
    rw [BlockscoutTxItem.rawWei, ht, Option.bind_some, hv, parseU128_toDigits hlt, Option.getD_some]
  have htx := (blockscoutPolygonTx_eq item).trans (if_pos ⟨hpays, hraw ▸ hpos⟩)
  rw [hraw] at htx
  rw [filterMap_of_filter hi htx fun x _ hx => blockscoutPolygonTx_of_not_pays hx]
  rfl

theorem blockscoutTokenTxs_amounts {coin : Coin} {items : List BlockscoutTokenItem}
    {item : BlockscoutTokenItem} {token text : String}
    (hi : items.filter (·.pays address token) = [item]) (ht : item.totalValue = some text)
    (hv : text.toList = Nat.toDigits 10 v) (hlt : v < 2 ^ 128) (hz : fromOnchainAmount coin v ≠ 0) :
    (items.filterMap (blockscoutTokenTx address coin token)).map OnchainTx.amount =
      [fromOnchainAmount coin v] := by
  have hpays : item.pays address token = true :=
    (List.mem_filter.1 (hi ▸ List.mem_singleton_self item)).2
  have hraw : item.raw = v := by
    rw [BlockscoutTokenItem.raw, ht, Option.bind_some, hv, parseU128_toDigits hlt, Option.getD_some]
  have htx := (blockscoutTokenTx_eq coin token item).trans (if_pos ⟨hpays, hraw ▸ hz⟩)
  rw [hraw] at htx
  rw [filterMap_of_filter hi htx fun x _ hx => blockscoutTokenTx_of_not_pays hx]
  rfl

theorem nodeTxs_amounts_iff {shown : ℕ → ℕ} (hp : ShortestPrint shown) {o : UnspentOutput} {tip : ℕ}
    {scanned : List ScannedUtxo} (ho : o.sats = v) (hlt : o.sats < 2 ^ 64)
    (hs : parseScantxoutset (scanResult shown tip [o]) = some scanned) :
    (scanned.map (nodeTx address)).map OnchainTx.amount = [v] ↔ o.PrintsBack shown := by
  subst ho
  obtain ⟨u, rfl, hu⟩ := parseScantxoutset_single hs
  have hone : (∀ n, coinAmountToSats (o.amount.value shown) = some n → n = o.sats) ↔
      u.valueSats = o.sats := by
    rw [hu]
    exact ⟨fun h => h _ rfl, fun h n hn => (Option.some.inj hn).symm.trans h⟩
  simp only [nodeTx, List.map_cons, List.map_nil, List.cons.injEq, and_true]
  rw [← hone]
  exact amount_exact_iff hp hlt

theorem explorerTxs_amounts_iff {shown : ℕ → ℕ} {tx a : Value} {txid : String} {w : Writing v}
    (hid : ((tx.get "txid").or (tx.get "hash")).bind Value.asStr = some txid)
    (ha : tx.get "amount" = some a ∨ tx.get "amount" = none ∧ tx.get "value" = some a)
    (hw : a.Writes v w) (hpos : 0 < v) (hlt : v < 2 ^ 128) :
    ([tx].filterMap (explorerTx address)).map OnchainTx.amount = [v] ↔ w.Exact shown := by
  obtain ⟨n, hn, hexact⟩ := @valueToSats_of_writes _ _ _ shown hw hpos hlt
  have hread : (((tx.get "amount").bind valueToSats).or ((tx.get "value").bind valueToSats)).getD 0 =
      n := by
    rcases ha with ha | ⟨hnone, ha⟩
    · rw [ha, Option.bind_some, hn, Option.some_or, Option.getD_some]
    · rw [hnone, ha, Option.bind_none, Option.none_or, Option.bind_some, hn, Option.getD_some]
  obtain ⟨t, ht, hamount⟩ := @explorerTx_of_read address _ _ _ hid hread
  simp only [List.filterMap_cons_some ht, List.filterMap_nil, List.map_cons, List.map_nil, hamount,
    List.cons.injEq, and_true]
  exact hexact

theorem signatureTxs_amounts {items pre post : List SolanaSignature} {item : SolanaSignature}
    (hi : items = pre ++ item :: post) (hidle : ∀ x ∈ pre ++ post, x.Idle address) {t : OnchainTx}
    (ht : solanaTxs address item = [t]) :
    (items.flatMap (solanaTxs address)).map OnchainTx.amount = [t.amount] := by
  have hnone (l : List SolanaSignature) (hl : ∀ x ∈ l, x.Idle address) :
      l.flatMap (solanaTxs address) = [] :=
    List.flatMap_eq_nil_iff.2 fun x hx => solanaTxs_of_idle (hl x hx)
  rw [hi, List.flatMap_append, List.flatMap_cons, ht,
    hnone _ fun x hx => hidle x (List.mem_append_left _ hx),
    hnone _ fun x hx => hidle x (List.mem_append_right _ hx), List.nil_append, List.append_nil]
  rfl

/-- What is shown is credited in units of the ledger, if and only if its writing is read as it
is. -/
theorem Reply.Shows.amounts_iff {shown : ℕ → ℕ} (hp : ShortestPrint shown) {coin : Coin} {r : Reply}
    {w : Writing v} (h : r.Shows address shown v coin w) (hlt : v < 2 ^ 128)
    (hz : fromOnchainAmount coin v ≠ 0) :
    (r.txs coin address).map OnchainTx.amount = [fromOnchainAmount coin v] ↔ w.Exact shown := by
  have hv₀ : v ≠ 0 := by
    rintro rfl
    exact hz (fromOnchainAmount_zero coin)
  cases h with
  | mempoolSpace hc hv =>
    exact iff_of_true (by simp [Reply.txs, mempoolSpaceTx, hv, fromOnchainAmount_eight hc]) trivial
  | @blockcypher _ txs out hc ho hv =>
    refine iff_of_true ?_ trivial
    simp only [Reply.txs, List.map_flatMap, blockcypherTxs_amounts]
    rw [← List.map_flatMap, ho, List.map_singleton, hv, asU128_natCast hlt, fromOnchainAmount_eight hc]
  | bitcore hc hv =>
    exact iff_of_true (by simp [Reply.txs, bitcoreTx, hv, fromOnchainAmount_eight hc]) trivial
  | blockscoutPolygon hi ht hv =>
    exact iff_of_true (blockscoutPolygonTxs_amounts hi ht hv hlt hv₀) trivial
  | evmBalance hv =>
    refine iff_of_true ?_ trivial
    simp only [Reply.txs, evmBalanceTxs_of_read (hv ▸ fromStrRadix16_paddedHex hlt)
      (Nat.pos_of_ne_zero hv₀), List.map_cons, List.map_nil]
    rfl
  | blockscoutToken hk hi ht hv =>
    refine iff_of_true ?_ trivial
    simp only [Reply.txs, hk, Option.getD_some]
    exact blockscoutTokenTxs_amounts hi ht hv hlt hz
  | transferLogs hd hv =>
    refine iff_of_true ?_ trivial
    simp [Reply.txs, receivedTx, transferLogTx_of_read hd (hv ▸ fromStrRadix16_paddedHex hlt) hv₀,
      Option.filter, Nat.pos_of_ne_zero hz]
  | node hc ho h64 hs =>
    rw [fromOnchainAmount_eight hc]
    exact nodeTxs_amounts_iff hp ho h64 hs
  | insight hc hv =>
    exact iff_of_true (by simp [Reply.txs, insightTx, hv, fromOnchainAmount_eight hc]) trivial
  | insightCoins hc hn hv =>
    simp [Reply.txs, insightTx, hn, hv, fromOnchainAmount_eight hc, Writing.Exact]
  | blockbook hc hv =>
    refine iff_of_true ?_ trivial
    simp [Reply.txs, blockbookTx, hv, parseU128_toDigits hlt, fromOnchainAmount_eight hc]
  | explorer hid ha hw =>
    rw [fromOnchainAmount_eight (show Coin.zer.onchainDecimals = 8 from rfl)]
    exact explorerTxs_amounts_iff hid ha hw (Nat.pos_of_ne_zero hv₀) hlt
  | signatures hi hidle hs hok htx htok hk ha hv hothers =>
    exact iff_of_true (signatureTxs_amounts hi hidle
      (solanaTxs_of_gain hs hok htx htok hk ha hv hothers hv₀ hz)) trivial

end

end SatsPay
