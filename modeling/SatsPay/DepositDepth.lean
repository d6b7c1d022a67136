import SatsPay.Deposits
import SatsPay.DepositAmounts

/-!
# How deep a deposit is said to be

A chain moves on while a provider is polled. What each format reports of a transaction
is compared with the confirmations that the transaction has at some moment of the poll.
-/

namespace SatsPay

/-- A state of the chain of a coin: its height, and the block of each transaction in it. -/
structure Chain where
  tip : ℕ
  minedAt : String → Option ℕ
  height_lt : tip + 1 < 2 ^ 32
  /-- A transaction is named in hexadecimal or in base 58. -/
  named : ∀ x h, minedAt x = some h → x ≠ "" ∧ '_' ∉ x.toList

def Chain.confirmations (c : Chain) (x : String) : ℕ :=
  match c.minedAt x with
  | some h => c.tip + 1 - h
  | none => 0

/-- The transaction is at least as far below the tip as `b` is below `t`. -/
def Chain.AsDeep (c : Chain) (x : String) (t b : ℕ) : Prop :=
  ∃ h, c.minedAt x = some h ∧ t + h ≤ c.tip + b

structure Poll where
  states : List Chain
  nonempty : states ≠ []

instance : Membership Chain Poll := ⟨fun p c => c ∈ p.states⟩

/-- At some moment the transaction has what is reported of it. -/
def OnchainTx.Deep (poll : Poll) (tx : OnchainTx) : Prop :=
  ∃ c ∈ poll, tx.confirmations ≤ c.confirmations tx.txHash

section
variable {c : Chain} {x : String} {b t : ℕ}

theorem Chain.confirmations_of_minedAt {h : ℕ} (hm : c.minedAt x = some h) :
    c.confirmations x = c.tip + 1 - h := by
  rw [Chain.confirmations, hm]

theorem Chain.le_confirmations_iff (h : b ≤ t) :
    t + 1 - b ≤ c.confirmations x ↔ c.AsDeep x t b := by
  unfold Chain.confirmations Chain.AsDeep
  cases hm : c.minedAt x with
  | none => simp; omega
  | some h' =>
    constructor
    · intro hle
      exact ⟨h', rfl, by dsimp only at hle; omega⟩
    · rintro ⟨_, ⟨⟩, hle⟩
      dsimp only
      omega

theorem Chain.confirmations_empty : c.confirmations "" = 0 := by
  unfold Chain.confirmations
  cases hm : c.minedAt "" with
  | none => rfl
  | some h => exact absurd rfl (c.named _ _ hm).1

theorem Poll.exists_mem (poll : Poll) : ∃ c, c ∈ poll :=
  List.exists_mem_of_ne_nil _ poll.nonempty

theorem OnchainTx.deep_of_zero (poll : Poll) {tx : OnchainTx} (h : tx.confirmations = 0) :
    tx.Deep poll := by
  obtain ⟨c, hc⟩ := poll.exists_mem
  exact ⟨c, hc, by omega⟩

end

/-! ## Answers that tell the truth -/

/-- A field that is given is right at one moment of the poll. -/
def Given (poll : Poll) (x : String) (n : Option ℕ) : Prop :=
  ∀ k, n = some k → ∃ c ∈ poll, k = c.confirmations x

def ScanTrue (c : Chain) (v : Value) : Prop :=
  (∀ t, (v.get "height").bind Value.asU64 = some t → t = c.tip) ∧
    ∀ us, (v.get "unspents").bind Value.asArray = some us → ∀ u ∈ us, ∀ x,
      (u.get "txid").bind Value.asStr = some x → ∃ b, b ≤ c.tip ∧ c.minedAt x = some b ∧
        ∀ h, (u.get "height").bind Value.asU64 = some h → h = b

/-- Each field of the answer that tells of depth is right, if it is there. -/
def Reply.Truthful (poll : Poll) : Reply → Prop
  | .mempoolSpace utxos tip =>
    (∃ c ∈ poll, ∀ u ∈ utxos, ∀ h, u.blockHeight = some h →
      ∃ b : ℕ, h = b ∧ b ≤ c.tip ∧ c.minedAt u.txid = some b) ∧
    ∀ t, tip = some t → ∃ c ∈ poll, t = (c.tip : ℤ)
  | .blockcypher txs => ∀ tx ∈ txs, ∃ c ∈ poll, tx.confirmations ≤ c.confirmations tx.hash
  | .bitcore coins => ∀ e ∈ coins, 0 < e.mintHeight →
    ∃ c ∈ poll, ∃ b : ℕ, e.mintHeight = b ∧ c.minedAt e.mintTxid = some b
  | .unread => True
  | .blockscoutPolygon items => ∀ item ∈ items, ∀ n, item.confirmations = some n →
    ∃ c ∈ poll, n = (c.confirmations item.hash : ℤ)
  | .evmBalance _ => True
  | .blockscoutToken items => ∀ item ∈ items, ∀ x, item.transactionHash = some x →
    Given poll x item.confirmations
  | .transferLogs tip logs =>
    (∃ c ∈ poll, tip = c.tip) ∧
    ∃ c ∈ poll, ∀ log ∈ logs, ∀ x, log.transactionHash = some x →
      ∃ b, b ≤ c.tip ∧ c.minedAt x = some b ∧ ∀ n, log.block = some n → n = b
  | .node scanned => ∃ v, parseScantxoutset v = some scanned ∧ ∃ c ∈ poll, ScanTrue c v
  | .insight utxos => ∀ u ∈ utxos, Given poll u.txid u.confirmations
  | .blockbook utxos => ∀ u ∈ utxos, Given poll u.txid u.confirmations
  | .explorer rows => ∀ row ∈ rows, ∀ x,
    ((row.get "txid").or (row.get "hash")).bind Value.asStr = some x →
      Given poll x ((row.get "confirmations").bind Value.asU64)
  -- finality is 32 blocks, and what is confirmed is in a block
  | .signatures items => ∀ item ∈ items, ∀ x, item.signature = some x →
    (item.confirmationStatus = some "finalized" → ∃ c ∈ poll, 32 ≤ c.confirmations x) ∧
      (item.confirmationStatus = some "confirmed" → ∃ c ∈ poll, 1 ≤ c.confirmations x)

def TransferLog.raw (log : TransferLog) : ℕ :=
  (fromStrRadix16 (2 ^ 128) (trimStart0x (log.data.getD "0x0").toList)).getD 0

def SolanaTransfer.Gains (address : String) (t : SolanaTransfer) : Prop :=
  ∃ i key, t.accountKeys[i]? = some key ∧ eqIgnoreAsciiCase key address = true ∧
    fromOnchainAmount .sol (t.after i - t.before i) ≠ 0

/-- What is not told is not taken for more than it is, transaction by transaction. -/
def Reply.Counted (poll : Poll) (coin : Coin) (address : String) : Reply → Prop
  -- no reorganisation between the list and the tip lifts the transaction
  | .mempoolSpace utxos tip => ∀ u ∈ utxos, ∀ b t : ℕ, u.blockHeight = some (b : ℤ) →
    tip = some (t : ℤ) → b ≤ t → ∃ c ∈ poll, c.AsDeep u.txid t b
  -- whatever is mined has six
  | .bitcore coins => ∀ e ∈ coins, 0 < e.mintHeight → ∃ c ∈ poll, 6 ≤ c.confirmations e.mintTxid
  -- whatever is listed without a depth has thirty
  | .blockscoutPolygon items => ∀ item ∈ items, item.pays address = true → item.rawWei ≠ 0 →
    item.confirmations = none → ∃ c ∈ poll, 30 ≤ c.confirmations item.hash
  -- a balance is of no transaction
  | .evmBalance result => ∀ text wei, result = some text →
    fromStrRadix16 (2 ^ 128) (trimStart0x text.toList) = some wei → wei = 0
  | .blockscoutToken items => ∀ item ∈ items,
    item.pays address (((paramsFor coin .mainnet).erc20Contract).getD "") = true →
      fromOnchainAmount coin item.raw ≠ 0 →
        match item.transactionHash, item.confirmations with
        | some x, none => ∃ c ∈ poll, 30 ≤ c.confirmations x
        | some _, some _ => True
        | none, n => n = some 0
  -- nor does one between the tip and the logs
  | .transferLogs tip logs => ∀ log ∈ logs, fromOnchainAmount coin log.raw ≠ 0 →
    ∃ x, log.transactionHash = some x ∧
      ∀ b, log.block = some b → b ≤ tip → ∃ c ∈ poll, c.AsDeep x tip b
  | .signatures items => ∀ item ∈ items.take 25, item.failed = false →
    item.confirmationStatus = none → ∀ x s t, item.signature = some x →
      item.transaction = .ok (some s, some t) → t.failed = false → t.Gains address → 0 < s →
        ∃ c ∈ poll, 32 ≤ c.confirmations x
  | _ => True

/-! ## Format by format -/

theorem asDepth_natCast {n : ℕ} (h : n < 2 ^ 32) : asDepth n = n := by
  unfold asDepth
  rw [Int.toNat_natCast]
  exact Nat.mod_eq_of_lt h

/-- The depth of a block below a tip. -/
theorem asDepth_below {t b : ℕ} (ht : t + 1 < 2 ^ 32) : asDepth ((t : ℤ) - b + 1) = t + 1 - b := by
  unfold asDepth
  rw [show ((t : ℤ) - b + 1).toNat = t + 1 - b by omega]
  exact Nat.mod_eq_of_lt (by omega)

theorem Chain.confirmations_lt (c : Chain) (x : String) : c.confirmations x < 2 ^ 32 := by
  have := c.height_lt
  unfold Chain.confirmations
  cases c.minedAt x with
  | none => norm_num
  | some h => dsimp only; omega

section
variable {poll : Poll} {coin : Coin} {address : String}

theorem deep_mempoolSpaceTx_iff {tip : Option ℤ} {u : MempoolUtxo} {c : Chain} (hc : c ∈ poll)
    (hu : ∀ h, u.blockHeight = some h → ∃ b : ℕ, h = b ∧ b ≤ c.tip ∧ c.minedAt u.txid = some b)
    (ht : ∀ t, tip = some t → ∃ c ∈ poll, t = (c.tip : ℤ)) :
    (mempoolSpaceTx address tip u).Deep poll ↔
      ∀ b t : ℕ, u.blockHeight = some (b : ℤ) → tip = some (t : ℤ) → b ≤ t →
        ∃ c ∈ poll, c.AsDeep u.txid t b := by
  cases hh : u.blockHeight with
  | none =>
    refine ⟨fun _ b t h => absurd h (by simp), fun _ => OnchainTx.deep_of_zero _ ?_⟩
    simp [mempoolSpaceTx, hh]
  | some h =>
    obtain ⟨b, rfl, hb, hm⟩ := hu h hh
    cases tip with
    | none =>
      refine ⟨fun _ b t _ h => absurd h (by simp), fun _ => ⟨c, hc, ?_⟩⟩
      -- without a tip only the first block has a depth
      have hconf : (mempoolSpaceTx address none u).confirmations =
          asDepth ((none : Option ℤ).getD 0 - b + 1) := by simp only [mempoolSpaceTx, hh]
      rw [hconf, Chain.confirmations_of_minedAt (x := (mempoolSpaceTx address none u).txHash) hm]
      have := asDepth_below (t := 0) (b := b) (by norm_num)
      simp only [Option.getD_none]
      rw [show (0 : ℤ) - b + 1 = ((0 : ℕ) : ℤ) - b + 1 by rfl, this]
      omega
    | some t =>
      obtain ⟨c₂, hc₂, rfl⟩ := ht t rfl
      have hconf : (mempoolSpaceTx address (some (c₂.tip : ℤ)) u).confirmations =
          c₂.tip + 1 - b := by
        simp only [mempoolSpaceTx, hh, Option.getD_some]
        exact asDepth_below c₂.height_lt
      unfold OnchainTx.Deep
      rw [hconf]
      by_cases hle : b ≤ c₂.tip
      · simp only [Chain.le_confirmations_iff hle]
        constructor
        · rintro h b' t' ⟨⟩ ⟨⟩ -
          exact h
        · intro h
          exact h b c₂.tip rfl rfl hle
      · refine ⟨fun _ b' t' hb' ht' hle' => ?_, fun _ => ⟨c, hc, by omega⟩⟩
        cases hb'
        cases ht'
        exact absurd hle' hle

theorem deep_blockcypherTxs {tx : BlockcypherTx}
    (h : ∃ c ∈ poll, tx.confirmations ≤ c.confirmations tx.hash) :
    ∀ t ∈ blockcypherTxs address tx, t.Deep poll := by
  obtain ⟨c, hc, hle⟩ := h
  intro t ht
  obtain ⟨⟨out, i⟩, -, hp⟩ := List.mem_filterMap.1 ht
  dsimp only at hp
  split at hp
  · cases hp
    refine ⟨c, hc, (Nat.mod_le _ _).trans ?_⟩
    exact Int.toNat_le.2 hle
  · cases hp

theorem deep_bitcoreTx_iff {e : BitcoreCoinEntry} :
    (bitcoreTx address e).Deep poll ↔
      (0 < e.mintHeight → ∃ c ∈ poll, 6 ≤ c.confirmations e.mintTxid) := by
  by_cases h : 0 < e.mintHeight
  · simp [OnchainTx.Deep, bitcoreTx, h]
  · refine ⟨fun _ hp => absurd hp h, fun _ => OnchainTx.deep_of_zero _ ?_⟩
    simp [bitcoreTx, h]

/-- A depth that is given, or thirty. -/
theorem deep_blockscoutPolygon_iff {item : BlockscoutTxItem}
    (ht : ∀ n, item.confirmations = some n → ∃ c ∈ poll, n = (c.confirmations item.hash : ℤ)) :
    (∀ t, blockscoutPolygonTx address item = some t → t.Deep poll) ↔
      (item.pays address = true → item.rawWei ≠ 0 → item.confirmations = none →
        ∃ c ∈ poll, 30 ≤ c.confirmations item.hash) := by
  rw [blockscoutPolygonTx_eq]
  split
  · rename_i h
    rw [forall_prop_of_true h.1, forall_prop_of_true h.2]
    simp only [Option.some.injEq, forall_eq']
    unfold OnchainTx.Deep
    cases hn : item.confirmations with
    | none => exact ⟨fun h _ => h, fun h => h rfl⟩
    | some n =>
      obtain ⟨c, hc, rfl⟩ := ht n hn
      refine ⟨fun _ h => (nomatch h), fun _ => ⟨c, hc, ?_⟩⟩
      rw [Option.getD_some, asDepth_natCast (c.confirmations_lt _)]
  · rename_i h
    exact ⟨fun _ hp hraw => absurd ⟨hp, hraw⟩ h, fun _ t ht => (nomatch ht)⟩

theorem not_mined_balanceHash (c : Chain) : c.confirmations (balanceHash address) = 0 := by
  unfold Chain.confirmations
  cases hm : c.minedAt (balanceHash address) with
  | none => rfl
  | some h =>
    refine absurd ?_ (c.named _ _ hm).2
    unfold balanceHash
    rw [String.toList_append]
    exact List.mem_append_left _ (by decide)

theorem deep_evmBalance_iff {result : Option String} :
    (∀ t ∈ evmBalanceTxs address result, t.Deep poll) ↔
      ∀ text wei, result = some text →
        fromStrRadix16 (2 ^ 128) (trimStart0x text.toList) = some wei → wei = 0 := by
  unfold evmBalanceTxs
  constructor
  · rintro h text wei rfl hwei
    rw [Option.bind_some, hwei] at h
    dsimp only at h
    by_contra hne
    rw [if_pos (Nat.pos_of_ne_zero hne)] at h
    obtain ⟨c, -, hle⟩ := h _ List.mem_cons_self
    rw [not_mined_balanceHash] at hle
    exact absurd hle (by norm_num)
  · intro h t htm
    split at htm
    · rename_i wei hwei
      obtain ⟨text, htext, hread⟩ := Option.bind_eq_some_iff.1 hwei
      rw [h text wei htext hread] at htm
      exact absurd htm List.not_mem_nil
    · exact absurd htm List.not_mem_nil

theorem deep_blockscoutToken_iff {token : String} {item : BlockscoutTokenItem}
    (ht : ∀ x, item.transactionHash = some x → Given poll x item.confirmations) :
    (∀ t, blockscoutTokenTx address coin token item = some t → t.Deep poll) ↔
      (item.pays address token = true → fromOnchainAmount coin item.raw ≠ 0 →
        match item.transactionHash, item.confirmations with
        | some x, none => ∃ c ∈ poll, 30 ≤ c.confirmations x
        | some _, some _ => True
        | none, n => n = some 0) := by
  rw [blockscoutTokenTx_eq]
  split
  · rename_i h
    rw [forall_prop_of_true h.1, forall_prop_of_true h.2]
    simp only [Option.some.injEq, forall_eq']
    unfold OnchainTx.Deep
    cases hx : item.transactionHash with
    | none =>
      obtain ⟨c₀, hc₀⟩ := poll.exists_mem
      simp only [Option.getD_none, Chain.confirmations_empty]
      cases item.confirmations with
      | none => simp
      | some n =>
        simp only [Option.getD_some, Option.some.injEq]
        exact ⟨fun ⟨c, _, h⟩ => by omega, fun h => ⟨c₀, hc₀, h.le⟩⟩
    | some x =>
      cases hn : item.confirmations with
      | none => simp only [Option.getD_some, Option.getD_none]
      | some n =>
        obtain ⟨c, hc, rfl⟩ := ht x hx n hn
        exact ⟨fun _ => trivial, fun _ => ⟨c, hc, le_rfl⟩⟩
  · rename_i h
    exact ⟨fun _ hp hraw => absurd ⟨hp, hraw⟩ h, fun _ t ht => (nomatch ht)⟩

theorem receivedTx_eq (tip : ℕ) (log : TransferLog) :
    receivedTx address coin tip log = if fromOnchainAmount coin log.raw ≠ 0 then
      some ⟨log.transactionHash.getD "", 0, fromOnchainAmount coin log.raw,
        (tip - log.block.getD tip + 1) % 2 ^ 32, address⟩
    else none := by
  unfold receivedTx transferLogTx
  rw [show (fromStrRadix16 (2 ^ 128) (trimStart0x (log.data.getD "0x0").toList)).getD 0 = log.raw from rfl]
  by_cases hraw : log.raw = 0
  · simp [hraw, fromOnchainAmount_zero]
  · simp [hraw, Option.filter, Nat.pos_iff_ne_zero]

theorem deep_receivedTx_iff {tip : ℕ} {log : TransferLog} {c : Chain} (hc : c ∈ poll)
    (htip : tip + 1 < 2 ^ 32)
    (ht : ∀ x, log.transactionHash = some x →
      ∃ b, b ≤ c.tip ∧ c.minedAt x = some b ∧ ∀ n, log.block = some n → n = b) :
    (∀ t, receivedTx address coin tip log = some t → t.Deep poll) ↔
      (fromOnchainAmount coin log.raw ≠ 0 → ∃ x, log.transactionHash = some x ∧
        ∀ b, log.block = some b → b ≤ tip → ∃ c ∈ poll, c.AsDeep x tip b) := by
  rw [receivedTx_eq, Nat.mod_eq_of_lt (show tip - log.block.getD tip + 1 < 2 ^ 32 by omega)]
  split
  · rename_i h
    rw [forall_prop_of_true h]
    simp only [Option.some.injEq, forall_eq']
    unfold OnchainTx.Deep
    cases hx : log.transactionHash with
    | none =>
      simp only [Option.getD_none, Chain.confirmations_empty]
      exact ⟨fun ⟨_, _, h⟩ => absurd h (by omega), fun ⟨_, h, _⟩ => (nomatch h)⟩
    | some x =>
      obtain ⟨b, hb, hm, hblock⟩ := ht x hx
      simp only [Option.getD_some, Option.some.injEq, exists_eq_left']
      have hreal := Chain.confirmations_of_minedAt hm
      cases hn : log.block with
      | none =>
        -- taken for the block at the tip: one confirmation, which what is mined has
        exact ⟨fun _ _ h => (nomatch h), fun _ => ⟨c, hc, by rw [Option.getD_none]; omega⟩⟩
      | some n =>
        obtain rfl := hblock n hn
        simp only [Option.getD_some, Option.some.injEq, forall_eq']
        by_cases hle : n ≤ tip
        · simp only [show tip - n + 1 = tip + 1 - n by omega, Chain.le_confirmations_iff hle]
          exact ⟨fun h _ => h, fun h => h hle⟩
        · exact ⟨fun _ h => absurd h hle, fun _ => ⟨c, hc, by omega⟩⟩
  · rename_i h
    exact ⟨fun _ hraw => absurd hraw h, fun _ t ht => (nomatch ht)⟩

theorem mapM_mem {α β : Type} {f : α → Option β} : ∀ {l : List α} {l' : List β},
    l.mapM f = some l' → ∀ b ∈ l', ∃ a ∈ l, f a = some b
  | [], _, h => by cases h; intro b hb; cases hb
  | a :: l, _, h => by
    rw [List.mapM_cons] at h
    obtain ⟨b, hb, h⟩ := Option.bind_eq_some_iff.1 h
    obtain ⟨bs, hbs, h⟩ := Option.bind_eq_some_iff.1 h
    cases h
    intro b' hb'
    rcases List.mem_cons.1 hb' with rfl | hb'
    · exact ⟨a, List.mem_cons_self, hb⟩
    · obtain ⟨a', ha', h'⟩ := mapM_mem hbs b' hb'
      exact ⟨a', List.mem_cons_of_mem _ ha', h'⟩

theorem parseUnspent_shape {tip : Option ℕ} {u : Value} {s : ScannedUtxo}
    (h : parseUnspent tip u = some s) :
    (u.get "txid").bind Value.asStr = some s.txid ∧
      s.confirmations = confirmationsOf tip ((u.get "height").bind Value.asU64) := by
  unfold parseUnspent at h
  obtain ⟨tv, htv, h⟩ := Option.bind_eq_some_iff.1 h
  obtain ⟨txid, htxid, h⟩ := Option.bind_eq_some_iff.1 h
  obtain ⟨vv, -, h⟩ := Option.bind_eq_some_iff.1 h
  obtain ⟨vout, -, h⟩ := Option.bind_eq_some_iff.1 h
  obtain ⟨av, -, h⟩ := Option.bind_eq_some_iff.1 h
  obtain ⟨value, -, h⟩ := Option.bind_eq_some_iff.1 h
  cases h
  exact ⟨by rw [htv]; exact htxid, rfl⟩

/-- A node reads its height and the outputs at once. -/
theorem deep_nodeTx {v : Value} {scanned : List ScannedUtxo} {c : Chain} (hc : c ∈ poll)
    (hv : parseScantxoutset v = some scanned) (ht : ScanTrue c v) :
    ∀ u ∈ scanned, (nodeTx address u).Deep poll := by
  unfold parseScantxoutset at hv
  obtain ⟨uv, huv, hv⟩ := Option.bind_eq_some_iff.1 hv
  obtain ⟨us, hus, hv⟩ := Option.bind_eq_some_iff.1 hv
  intro s hs
  obtain ⟨u, hu, hp⟩ := mapM_mem hv s hs
  obtain ⟨htxid, hconf⟩ := parseUnspent_shape hp
  obtain ⟨b, hb, hm, hheight⟩ := ht.2 us (by rw [huv]; exact hus) u hu _ htxid
  have hreal := Chain.confirmations_of_minedAt hm
  have hlt := c.height_lt
  refine ⟨c, hc, ?_⟩
  show s.confirmations ≤ c.confirmations s.txid
  rw [hconf]
  unfold confirmationsOf
  split
  · rename_i t h htip hh
    rw [ht.1 t htip, hheight h hh]
    omega
  · omega

/-- A depth that is given, or none. -/
theorem deep_of_given {t : OnchainTx} {n : Option ℕ} (hn : t.confirmations ≤ n.getD 0)
    (h : Given poll t.txHash n) : t.Deep poll := by
  cases n with
  | none => exact OnchainTx.deep_of_zero _ (Nat.le_zero.1 hn)
  | some k =>
    obtain ⟨c, hc, rfl⟩ := h k rfl
    exact ⟨c, hc, hn⟩

theorem deep_explorerTx {row : Value}
    (h : ∀ x, ((row.get "txid").or (row.get "hash")).bind Value.asStr = some x →
      Given poll x ((row.get "confirmations").bind Value.asU64)) :
    ∀ t, explorerTx address row = some t → t.Deep poll := by
  intro t ht
  unfold explorerTx at ht
  obtain ⟨x, hx, ht⟩ := Option.bind_eq_some_iff.1 ht
  cases ht
  exact deep_of_given (Nat.mod_le _ _) (h x hx)

theorem solanaTxs_shape {item : SolanaSignature} {t : OnchainTx} (h : t ∈ solanaTxs address item) :
    ∃ x slot m, item.signature = some x ∧ item.failed = false ∧
      item.transaction = .ok (slot, some m) ∧ m.failed = false ∧ m.Gains address ∧
        t.txHash = x ∧ t.confirmations = solanaDepth item.confirmationStatus (slot.getD 0) := by
  unfold solanaTxs at h
  split at h
  · rename_i x slot m hx hm
    split at h
    · cases h
    rename_i hok
    rw [not_or, Bool.not_eq_true, Bool.not_eq_true] at hok
    obtain ⟨⟨key, i⟩, hi, hp⟩ := List.mem_filterMap.1 h
    obtain ⟨-, hkey⟩ := List.mem_zipIdx_iff_le_and_getElem?_sub.1 hi
    unfold solanaCredit at hp
    dsimp only at hp
    split at hp
    · cases hp
    rename_i ha
    rw [not_or, Bool.not_eq_true, Bool.not_eq_false'] at ha
    split at hp
    · cases hp
    · rename_i hne
      cases hp
      exact ⟨x, slot, m, hx, hok.1, hm, hok.2, ⟨i, key, hkey, ha.1, hne⟩, rfl, rfl⟩
  · cases h

theorem solanaTxs_ne_nil {item : SolanaSignature} {x : String} {slot : Option ℕ} {m : SolanaTransfer}
    (hx : item.signature = some x) (hok : item.failed = false)
    (hm : item.transaction = .ok (slot, some m)) (hmok : m.failed = false) (hg : m.Gains address) :
    solanaTxs address item ≠ [] := by
  obtain ⟨i, key, hkey, ha, hne⟩ := hg
  have hgain : ¬ (!eqIgnoreAsciiCase key address ∨ m.after i ≤ m.before i) := by
    rw [ha]
    rintro (h | h)
    · cases h
    · rw [Nat.sub_eq_zero_of_le h] at hne
      exact hne (fromOnchainAmount_zero .sol)
  unfold solanaTxs
  simp only [hx, hm, hok, hmok, Bool.false_eq_true, or_self, if_false]
  have hcredit (sig : String) (confs : ℕ) : solanaCredit address sig confs m key i =
      some ⟨sig, i, fromOnchainAmount .sol (m.after i - m.before i), confs, address⟩ :=
    (if_neg hgain).trans (if_neg hne)
  have hmem : (key, i) ∈ m.accountKeys.zipIdx :=
    List.mem_zipIdx_iff_le_and_getElem?_sub.2 ⟨Nat.zero_le _, hkey⟩
  exact List.ne_nil_of_mem (List.mem_filterMap.2 ⟨(key, i), hmem, hcredit _ _⟩)

theorem deep_solanaTxs_iff {item : SolanaSignature}
    (ht : ∀ x, item.signature = some x →
      (item.confirmationStatus = some "finalized" → ∃ c ∈ poll, 32 ≤ c.confirmations x) ∧
        (item.confirmationStatus = some "confirmed" → ∃ c ∈ poll, 1 ≤ c.confirmations x)) :
    (∀ t ∈ solanaTxs address item, t.Deep poll) ↔
      (item.failed = false → item.confirmationStatus = none → ∀ x s m,
        item.signature = some x → item.transaction = .ok (some s, some m) → m.failed = false →
          m.Gains address → 0 < s → ∃ c ∈ poll, 32 ≤ c.confirmations x) := by
  constructor
  · intro h hok hstatus x s m hx hm hmok hg hs
    obtain ⟨t, htm⟩ := List.exists_mem_of_ne_nil _ (solanaTxs_ne_nil hx hok hm hmok hg)
    obtain ⟨x', slot, m', hx', -, hm', -, -, hhash, hconf⟩ := solanaTxs_shape htm
    rw [hx] at hx'
    rw [hm] at hm'
    cases hx'
    cases hm'
    obtain ⟨c, hc, hle⟩ := h t htm
    refine ⟨c, hc, ?_⟩
    rw [hhash, hconf, hstatus] at hle
    simpa [solanaDepth, hs] using hle
  · intro h t htm
    obtain ⟨x, slot, m, hx, hok, hm, hmok, hg, hhash, hconf⟩ := solanaTxs_shape htm
    unfold OnchainTx.Deep
    rw [hhash, hconf]
    obtain ⟨c₀, hc₀⟩ := poll.exists_mem
    cases hstatus : item.confirmationStatus with
    | none =>
      unfold solanaDepth
      cases slot with
      | none => exact ⟨c₀, hc₀, Nat.zero_le _⟩
      | some s =>
        by_cases hs : 0 < s
        · simpa [hs] using h hok hstatus x s m hx hm hmok hg hs
        · exact ⟨c₀, hc₀, by simp [hs]⟩
    | some status =>
      unfold solanaDepth
      dsimp only
      split
      · rename_i hf
        exact (ht x hx).1 (hf ▸ hstatus)
      split
      · rename_i hf
        exact (ht x hx).2 (hf ▸ hstatus)
      · exact ⟨c₀, hc₀, Nat.zero_le _⟩

/-! ## All formats -/

theorem deep_txs_iff {r : Reply} (ht : r.Truthful poll) :
    (∀ t ∈ r.txs coin address, t.Deep poll) ↔ r.Counted poll coin address := by
  cases r with
  | mempoolSpace utxos tip =>
    obtain ⟨⟨c, hc, hlisted⟩, htip⟩ := ht
    simp only [Reply.txs, List.forall_mem_map]
    exact forall₂_congr fun u hu => deep_mempoolSpaceTx_iff hc (hlisted u hu) htip
  | blockcypher txs =>
    refine ⟨fun _ => trivial, fun _ t hm => ?_⟩
    obtain ⟨tx, htx, hm⟩ := List.mem_flatMap.1 hm
    exact deep_blockcypherTxs (ht tx htx) t hm
  | bitcore coins =>
    simp only [Reply.txs, List.forall_mem_map]
    exact forall₂_congr fun e _ => deep_bitcoreTx_iff
  | unread => exact ⟨fun _ => trivial, fun _ t hm => by cases hm⟩
  | blockscoutPolygon items =>
    simp only [Reply.txs, List.forall_mem_filterMap]
    exact forall₂_congr fun item hm => deep_blockscoutPolygon_iff (ht item hm)
  | evmBalance result => exact deep_evmBalance_iff
  | blockscoutToken items =>
    simp only [Reply.txs, List.forall_mem_filterMap]
    exact forall₂_congr fun item hm => deep_blockscoutToken_iff (ht item hm)
  | transferLogs tip logs =>
    obtain ⟨⟨c₁, -, rfl⟩, c, hc, hlogs⟩ := ht
    simp only [Reply.txs, List.forall_mem_filterMap]
    exact forall₂_congr fun log hm => deep_receivedTx_iff hc c₁.height_lt (hlogs log hm)
  | node scanned =>
    obtain ⟨v, hv, c, hc, hscan⟩ := ht
    simp only [Reply.txs, List.forall_mem_map]
    exact ⟨fun _ => trivial, fun _ => deep_nodeTx hc hv hscan⟩
  | insight utxos =>
    simp only [Reply.txs, List.forall_mem_map]
    exact ⟨fun _ => trivial, fun _ u hu => deep_of_given le_rfl (ht u hu)⟩
  | blockbook utxos =>
    simp only [Reply.txs, List.forall_mem_map]
    exact ⟨fun _ => trivial, fun _ u hu => deep_of_given le_rfl (ht u hu)⟩
  | explorer rows =>
    refine ⟨fun _ => trivial, fun _ t hm => ?_⟩
    obtain ⟨row, hrow, hm⟩ := List.mem_filterMap.1 hm
    exact deep_explorerTx (ht row hrow) t hm
  | signatures items =>
    simp only [Reply.txs, List.forall_mem_flatMap]
    exact forall₂_congr fun item hm => deep_solanaTxs_iff (ht item (List.mem_of_mem_take hm))

end

/-! ## Credits -/

/-- What the watcher hands to `credit_deposit`. -/
def observe (walletId : Uuid) (coin : Coin) (t : OnchainTx) : Observation :=
  ⟨walletId, coin, ⟨t.txHash, asI32 t.vout⟩, t.credited, asI32 t.confirmations⟩

theorem asI32_le (n : ℕ) : asI32 n ≤ n := by
  have h : (n : ℤ) % (2 ^ 32 : ℕ) ≤ n := by
    rw [← Int.natCast_emod]
    exact_mod_cast Nat.mod_le _ _
  unfold asI32
  rw [Int.bmod_def]
  split
  · exact h
  · exact (Int.sub_le_self _ (by norm_num)).trans h

theorem confirmed_of_observe {walletId : Uuid} {coin : Coin} {t : OnchainTx}
    (h : (observe walletId coin t).confirmed = true) : coin.minConfirmations ≤ t.confirmations := by
  have hle : (coin.minConfirmations : ℤ) ≤ asI32 t.confirmations := of_decide_eq_true h
  exact_mod_cast hle.trans (asI32_le _)

open Interleave ReadCommitted Prog in
/-- Whatever the store answers, a deposit is credited by a call that saw enough confirmations. -/
theorem confirmed_of_newlyCredited {O : Outside} {numericText : ℚ → String} {x : Observation}
    {S : Type} {exec : (o : (sig (satsPay (depositsExt O))).Op) → S →
      (sig (satsPay (depositsExt O))).Resp o → S → Prop} {s s' : S}
    (h : Runs exec (creditDeposit (O := O) numericText x) s (.ok .newlyCredited) s') :
    x.confirmed = true := by
  obtain ⟨_, _, -, h⟩ := h.of_bind
  obtain ⟨r, _, hr, h⟩ := h.of_bind
  obtain ⟨_, _, -, h⟩ := h.of_bind
  obtain ⟨r', hr', hbody⟩ := hr.of_attempt
  cases hr'
  cases r with
  | error e => cases h
  | ok outcome =>
    obtain ⟨rfl, -⟩ := h.of_ret
    obtain ⟨_, _, -, hbody⟩ := hbody.of_bind
    obtain ⟨existing, _, -, hbody⟩ := hbody.of_bind
    split at hbody
    · exact nomatch hbody.of_ret.1
    obtain ⟨depositId, _, -, hbody⟩ := hbody.of_bind
    split at hbody
    · assumption
    · obtain ⟨_, _, -, hbody⟩ := hbody.of_bind
      exact nomatch hbody.of_ret.1

open Interleave ReadCommitted Prog in
/-- Whoever credits what is reported of the transaction, it has the confirmations that the coin
asks for at some moment of the poll. -/
def OnchainTx.CreditedDeep (poll : Poll) (coin : Coin) (t : OnchainTx) : Prop :=
  ∀ (O : Outside) (numericText : ℚ → String) (walletId : Uuid) (S : Type)
    (exec : (o : (sig (satsPay (depositsExt O))).Op) → S →
      (sig (satsPay (depositsExt O))).Resp o → S → Prop) (s s' : S),
    Runs exec (creditDeposit (O := O) numericText (observe walletId coin t)) s
      (.ok .newlyCredited) s' → ∃ c ∈ poll, coin.minConfirmations ≤ c.confirmations t.txHash

theorem OnchainTx.Deep.credited {poll : Poll} {coin : Coin} {t : OnchainTx} (h : t.Deep poll) :
    t.CreditedDeep poll coin := by
  intro O numericText walletId S exec s s' hrun
  obtain ⟨c, hc, hle⟩ := h
  exact ⟨c, hc, (confirmed_of_observe (confirmed_of_newlyCredited hrun)).trans hle⟩

/-- If the answer that counts tells the truth in the fields it has, all that is reported from it
is as deep as it is said to be, and credited only when it is deep enough, exactly when what the
answer leaves open is not counted for more than it is. -/
theorem depth_reported_iff {poll : Poll} {w : Web} {network : ChainNetwork} {bscRpcUrl : String}
    {coin : Coin} {address : String}
    (hw : ∀ r, answering w network bscRpcUrl coin address = .ok r → r.Truthful poll) :
    (∀ txs, fetchDeposits w network bscRpcUrl coin address = .ok txs →
        ∀ t ∈ txs, t.Deep poll ∧ t.CreditedDeep poll coin) ↔
      ∀ r, answering w network bscRpcUrl coin address = .ok r → r.Counted poll coin address := by
  unfold fetchDeposits
  cases hr : answering w network bscRpcUrl coin address with
  | error e => simp [Except.map]
  | ok r =>
    have hiff := @deep_txs_iff poll coin address r (hw r hr)
    simp only [Except.map, Except.ok.injEq, forall_eq']
    rw [← hiff]
    exact ⟨fun h t ht => (h t ht).1, fun h t ht => ⟨h t ht, (h t ht).credited⟩⟩

/-! ### A transaction in the last block -/

def youngChain : Chain where
  tip := 100
  minedAt x := if x = "f00d" then some 100 else none
  height_lt := by norm_num
  named x h hx := by
    split at hx
    · subst x
      exact ⟨by decide, by decide⟩
    · cases hx

def youngPoll : Poll := ⟨[youngChain], List.cons_ne_nil _ _⟩

def silentWeb : Web :=
  let down {α : Type} : Except ChainError α := .error (.rpc "HTTP 503")
  ⟨fun _ => down, fun _ => down, fun _ => down, down, down, down, down, fun _ => down, down,
    fun _ => down, none, down, down, down, down⟩

def mempoolWeb : Web :=
  { silentWeb with mempoolSpace := fun _ => .ok ([⟨"f00d", 0, 5000, some 100⟩], some 100) }

def bitcoreWeb : Web :=
  { silentWeb with bitcore := fun _ => .ok [⟨"f00d", 0, 100, 5000⟩] }

theorem depth_reported_first :
    ∃ txs, fetchDeposits mempoolWeb .mainnet "" .btc "bc1q" = .ok txs ∧
      ∀ t ∈ txs, t.Deep youngPoll ∧ t.CreditedDeep youngPoll .btc := by
  refine ⟨_, rfl, (@depth_reported_iff youngPoll mempoolWeb .mainnet "" .btc "bc1q" ?_).2 ?_ _ rfl⟩
  · rintro r ⟨⟩
    refine ⟨⟨youngChain, List.mem_cons_self, ?_⟩, ?_⟩
    · rintro u hu h hh
      obtain rfl := List.mem_singleton.1 hu
      cases hh
      exact ⟨100, rfl, le_rfl, rfl⟩
    · rintro t ⟨⟩
      exact ⟨youngChain, List.mem_cons_self, rfl⟩
  · rintro r ⟨⟩ u hu b t hb ht -
    obtain rfl := List.mem_singleton.1 hu
    cases hb
    cases ht
    exact ⟨youngChain, List.mem_cons_self, 100, rfl, le_rfl⟩

/-- Bitcore says in which block it is, and it is said to have six confirmations. It has one, of
the two that the coin asks for. -/
theorem bitcore_depth_invented :
    (∀ r, answering bitcoreWeb .mainnet "" .btc "bc1q" = .ok r → r.Truthful youngPoll) ∧
      ∃ t, fetchDeposits bitcoreWeb .mainnet "" .btc "bc1q" = .ok [t] ∧
        (∀ walletId, (observe walletId .btc t).confirmed = true) ∧
        ∀ c ∈ youngPoll, c.confirmations t.txHash < Coin.btc.minConfirmations ∧
          c.confirmations t.txHash < t.confirmations := by
  refine ⟨?_, ⟨"f00d", 0, 5000, 6, "bc1q"⟩, rfl, ?_, ?_⟩
  · rintro r ⟨⟩ e he -
    obtain rfl := List.mem_singleton.1 he
    exact ⟨youngChain, List.mem_cons_self, 100, rfl, rfl⟩
  · intro walletId
    have h6 : asI32 6 = 6 := by unfold asI32; decide
    show decide (((2 : ℕ) : ℤ) ≤ asI32 6) = true
    rw [h6]
    decide
  · intro c hc
    obtain rfl := List.mem_singleton.1 hc
    exact ⟨by decide, by decide⟩

end SatsPay
