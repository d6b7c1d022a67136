import SatsPay.UtxoNodeRpc
import SatsPay.UtxoSigning

/-!
# Withdrawals of ZER

The node is asked for the transaction. What is paid is an object whose keys are the addresses,
so a payment to the change address is replaced by the change.
-/

namespace SatsPay

open Fallible

/-! ## Requests -/

/-- `serde_json::Map::insert`, which keeps the keys in order. -/
def insertKey (key : String) (v : Value) : List (String × Value) → List (String × Value)
  | [] => [(key, v)]
  | (k, w) :: fields =>
    if key < k then (key, v) :: (k, w) :: fields
    else if key = k then (key, v) :: fields
    else (k, w) :: insertKey key v fields

/-- `{:0width$}` of digits -/
def padLeft (width : ℕ) (ds : List Char) : List Char :=
  List.replicate (width - ds.length) '0' ++ ds

def satsToCoinStr (sats : UInt64) : String :=
  String.ofList (Nat.toDigits 10 (sats.toNat / 100000000) ++
    '.' :: padLeft 8 (Nat.toDigits 10 (sats.toNat % 100000000)))

/-- The parameters of `createrawtransaction`. -/
def createRawTransactionEx (inputs : List (String × UInt32)) (outputs : List (String × String))
    (expiryHeight : Option ℕ) : Value :=
  let vins := Value.array (inputs.map fun (txid, vout) =>
    .object [("txid", .string txid), ("vout", .number (.posInt vout.toNat))])
  let vouts := Value.object (outputs.foldl (fun m (addr, amount) =>
    insertKey addr (.string amount) m) [])
  match expiryHeight with
  | some h => .array [vins, vouts, .number (.posInt 0), .number (.posInt h)]
  | none => .array [vins, vouts]

structure ZerSources where
  rpcReady : Bool
  insightUtxos : Except String (List Utxo)
  explorerUtxos : Except String (List Utxo)
  nodeUtxos : Except String (List Utxo)
  publicTipHeight : Except String ℕ

/-- From Insight, or else the explorer, or else the node. -/
def ZerSources.utxos (r : ZerSources) : Except String (List Utxo) :=
  match r.insightUtxos with
  | .ok utxos => .ok utxos
  | .error _ => match r.explorerUtxos with
    | .ok utxos => .ok utxos
    | .error _ => r.nodeUtxos

def saturatingAdd (a b : UInt64) : UInt64 := UInt64.ofNat (saturate64 (a.toNat + b.toNat))

def zerFee : UInt64 := 10000

def zerOutputs (total amountSats : UInt64) (toAddress changeAddress : String) :
    List (String × String) :=
  let change := total - amountSats - zerFee
  (toAddress, satsToCoinStr amountSats) ::
    if 0 < change then [(changeAddress, satsToCoinStr change)] else []

/-- `broadcast_signed`, up to the request for a transaction. -/
def zerRequest (r : ZerSources) (toAddress : String) (amountSats : UInt64)
    (changeAddress : String) : Except String Value := do
  if !r.rpcReady then
    .error "ZER_RPC_URL required for withdraw (zerod signs; broadcast uses public Insight)"
  else do
    let utxos ← r.utxos
    let total := totalIn utxos
    let needed := saturatingAdd amountSats zerFee
    if total < needed then
      .error s!"ZER insufficient hot funds: have {total} need {needed}"
    else do
      let tip ← r.publicTipHeight
      pure (createRawTransactionEx (utxos.map fun u => (u.txid, u.vout))
        (zerOutputs total amountSats toAddress changeAddress) (some (saturate64 (tip + 40))))

/-! ## What a request asks for -/

/-- Satoshis of an amount in coins, with at most 8 digits after the point. -/
def readCoins (s : List Char) : Option ℕ :=
  match splitOnce '.' s with
  | none => (parseDigits s).map (· * 10 ^ 8)
  | some (int, frac) =>
    if frac.length ≤ 8 then (parseDigits (int ++ frac)).map (· * 10 ^ (8 - frac.length)) else none

structure AskedTx where
  inputs : List (String × ℕ)
  outputs : List (String × ℕ)

/-- The outpoints are spent, and each key of the object is paid its amount. -/
def askedTx : Value → Option AskedTx
  | .array (.array vins :: .object vouts :: _) => do
    let inputs ← vins.mapM fun v => do
      some ((← (v.get "txid").bind Value.asStr), (← (v.get "vout").bind Value.asU64))
    let outputs ← vouts.mapM fun (addr, v) => do some (addr, ← readCoins (← v.asStr).toList)
    some ⟨inputs, outputs⟩
  | _ => none

def AskedTx.paidTo (tx : AskedTx) (addr : String) : ℕ :=
  ((tx.outputs.filter (·.1 == addr)).map (·.2)).sum

/-- The recipient is paid the amount, the change address what is left but for the fee, and no one
else anything. -/
def PaysRecipient (params : Value) (utxos : List Utxo) (toAddress : String) (amount : ℕ)
    (changeAddress : String) : Prop :=
  ∃ tx change, askedTx params = some tx ∧
    tx.inputs = utxos.map (fun u => (u.txid, u.vout.toNat)) ∧
    valueOf utxos = amount + change + zerFee.toNat ∧
    (∀ addr, tx.paidTo addr = (if addr = toAddress then amount else 0) +
      if addr = changeAddress then change else 0) ∧
    valueOf utxos = (tx.outputs.map (·.2)).sum + zerFee.toNat

/-! ## Amounts -/

theorem length_padLeft {width : ℕ} {ds : List Char} (h : ds.length ≤ width) :
    (padLeft width ds).length = width := by
  rw [padLeft, List.length_append, List.length_replicate]
  omega

theorem parseDigits_of_digits {ds : List Char} (hne : ds ≠ []) (hd : ∀ c ∈ ds, c.isDigit) :
    parseDigits ds = some (Nat.ofDigitChars 10 ds 0) :=
  if_pos ⟨hne, List.all_eq_true.2 hd⟩

/-- The string denotes the satoshis. -/
theorem readCoins_satsToCoinStr (sats : UInt64) :
    readCoins (satsToCoinStr sats).toList = some sats.toNat := by
  generalize hn : sats.toNat = n
  have hint : ∀ c ∈ Nat.toDigits 10 (n / 100000000), c.isDigit := fun c hc =>
    Nat.isDigit_of_mem_toDigits (by norm_num) (by norm_num) hc
  have hfrac : ∀ c ∈ padLeft 8 (Nat.toDigits 10 (n % 100000000)), c.isDigit := by
    intro c hc
    rcases List.mem_append.1 hc with hc | hc
    · rw [(List.mem_replicate.1 hc).2]
      rfl
    · exact Nat.isDigit_of_mem_toDigits (by norm_num) (by norm_num) hc
  have hlen : (padLeft 8 (Nat.toDigits 10 (n % 100000000))).length = 8 :=
    length_padLeft ((length_toDigits_le (by norm_num)).2 (Nat.mod_lt _ (by norm_num)))
  have hvalue : Nat.ofDigitChars 10 (Nat.toDigits 10 (n / 100000000) ++
      padLeft 8 (Nat.toDigits 10 (n % 100000000))) 0 = n := by
    rw [ofDigitChars_append_zero, hlen, padLeft, ofDigitChars_append_zero, ofDigitChars_zeros,
      Nat.ofDigitChars_ten_toDigits, Nat.ofDigitChars_ten_toDigits]
    omega
  unfold satsToCoinStr
  rw [hn, String.toList_ofList, readCoins, splitOnce_point hint]
  dsimp only
  rw [if_pos hlen.le, hlen, parseDigits_of_digits (by simp) fun c hc =>
    (List.mem_append.1 hc).elim (hint c) (hfrac c), hvalue]
  simp

/-! ## Requests that pay the recipient -/

section
variable {r : ZerSources} {toAddress changeAddress : String} {amountSats : UInt64}
variable {utxos : List Utxo} {params : Value}

theorem readFields {fields : List (String × UInt64)} :
    (fields.map fun f => (f.1, Value.string (satsToCoinStr f.2))).mapM
      (fun x => do some (x.1, ← readCoins (← x.2.asStr).toList)) =
      some (fields.map fun f => (f.1, f.2.toNat)) := by
  induction fields with
  | nil => rfl
  | cons f fields ih =>
    rw [List.map_cons, List.mapM_cons, ih]
    simp [Value.asStr, readCoins_satsToCoinStr]

theorem readInputs : ((utxos.map fun u => (u.txid, u.vout)).map fun (txid, vout) =>
    Value.object [("txid", .string txid), ("vout", .number (.posInt vout.toNat))]).mapM
      (fun v => do some ((← (v.get "txid").bind Value.asStr), (← (v.get "vout").bind Value.asU64))) =
      some (utxos.map fun u => (u.txid, u.vout.toNat)) := by
  induction utxos with
  | nil => rfl
  | cons u utxos ih =>
    rw [List.map_cons, List.map_cons, List.mapM_cons, ih]
    rfl

/-- The payments of an object: the change replaces what is paid to the same address. -/
def zerFields (toAddress : String) (amountSats : UInt64) (changeAddress : String)
    (change : UInt64) : List (String × UInt64) :=
  if 0 < change then
    if changeAddress = toAddress then [(changeAddress, change)]
    else if changeAddress < toAddress then [(changeAddress, change), (toAddress, amountSats)]
    else [(toAddress, amountSats), (changeAddress, change)]
  else [(toAddress, amountSats)]

theorem insertKeys_zerOutputs {total : UInt64} :
    (zerOutputs total amountSats toAddress changeAddress).foldl (fun m (addr, amount) =>
      insertKey addr (.string amount) m) [] =
      (zerFields toAddress amountSats changeAddress (total - amountSats - zerFee)).map
        fun f => (f.1, Value.string (satsToCoinStr f.2)) := by
  unfold zerOutputs zerFields
  dsimp only
  split
  · simp only [List.foldl_cons, List.foldl_nil, insertKey]
    by_cases hsame : changeAddress = toAddress
    · rw [if_pos hsame, if_neg (by rw [hsame]; exact String.lt_irrefl _), if_pos hsame]
      rfl
    · rw [if_neg hsame, if_neg hsame]
      split <;> rfl
  · rfl

theorem zerRequest_ok (h : zerRequest r toAddress amountSats changeAddress = .ok params) :
    ∃ utxos, r.utxos = .ok utxos ∧ saturatingAdd amountSats zerFee ≤ totalIn utxos ∧
      askedTx params = some
      ⟨utxos.map fun u => (u.txid, u.vout.toNat),
        (zerFields toAddress amountSats changeAddress (totalIn utxos - amountSats - zerFee)).map
          fun f => (f.1, f.2.toNat)⟩ := by
  unfold zerRequest at h
  split at h
  · cases h
  obtain ⟨utxos, hutxos, h⟩ := bind_eq_ok h
  dsimp only at h
  split at h
  · cases h
  rename_i henough
  obtain ⟨tip, -, h⟩ := bind_eq_ok h
  cases h
  refine ⟨utxos, hutxos, UInt64.not_lt.1 henough, ?_⟩
  unfold createRawTransactionEx
  rw [insertKeys_zerOutputs]
  dsimp only
  rw [askedTx, readInputs, readFields]
  rfl

theorem change_mod : (totalIn utxos - amountSats - zerFee).toNat =
    (valueOf utxos + (2 ^ 64 - amountSats.toNat) + (2 ^ 64 - zerFee.toNat)) % 2 ^ 64 := by
  rw [UInt64.toNat_sub, UInt64.toNat_sub, totalIn_toNat_mod]
  have := amountSats.toNat_lt
  have : zerFee.toNat = 10000 := rfl
  omega

theorem paidTo_singleton {inputs : List (String × ℕ)} {a addr : String} {m : ℕ} :
    AskedTx.paidTo ⟨inputs, [(a, m)]⟩ addr = if addr = a then m else 0 := by
  by_cases h : a = addr
  · simp [AskedTx.paidTo, h]
  · simp [AskedTx.paidTo, h, Ne.symm h]

theorem paidTo_pair {inputs : List (String × ℕ)} {a b addr : String} {m n : ℕ} :
    AskedTx.paidTo ⟨inputs, [(a, m), (b, n)]⟩ addr =
      (if addr = a then m else 0) + if addr = b then n else 0 := by
  by_cases ha : a = addr
  · by_cases hb : b = addr
    · simp [AskedTx.paidTo, ha, hb]
    · simp [AskedTx.paidTo, ha, hb, Ne.symm hb]
  · by_cases hb : b = addr
    · simp [AskedTx.paidTo, ha, hb, Ne.symm ha]
    · simp [AskedTx.paidTo, ha, hb, Ne.symm ha, Ne.symm hb]

/-- The change takes the place of the payment to the address it goes to. -/
theorem paidTo_zerFields {inputs : List (String × ℕ)} {change : UInt64} :
    AskedTx.paidTo ⟨inputs, (zerFields toAddress amountSats changeAddress change).map
      fun f => (f.1, f.2.toNat)⟩ toAddress =
      if 0 < change ∧ changeAddress = toAddress then change.toNat else amountSats.toNat := by
  unfold zerFields
  by_cases hc : 0 < change
  · by_cases hsame : changeAddress = toAddress
    · simp [hc, hsame, paidTo_singleton]
    · have hapart : ¬(0 < change ∧ changeAddress = toAddress) := fun h => hsame h.2
      rw [if_pos hc, if_neg hsame, if_neg hapart]
      split
      · simp [paidTo_pair, Ne.symm hsame]
      · simp [paidTo_pair, Ne.symm hsame]
  · simp [hc, paidTo_singleton]

theorem paysRecipient_of_asked {inputs outputs : List (String × ℕ)} {to' : ℕ}
    (hasked : askedTx params = some ⟨inputs, outputs⟩)
    (hinputs : inputs = utxos.map fun u => (u.txid, u.vout.toNat)) :
    PaysRecipient params utxos toAddress to' changeAddress ↔
      ∃ change, valueOf utxos = to' + change + zerFee.toNat ∧
        (∀ addr, AskedTx.paidTo ⟨inputs, outputs⟩ addr = (if addr = toAddress then to' else 0) +
          if addr = changeAddress then change else 0) ∧
        valueOf utxos = (outputs.map (·.2)).sum + zerFee.toNat := by
  unfold PaysRecipient
  rw [hasked]
  constructor
  · rintro ⟨tx, change, he, -, h⟩
    cases he
    exact ⟨change, h⟩
  · rintro ⟨change, h⟩
    exact ⟨_, change, rfl, hinputs, h⟩

/-- The recipient is paid if and only if it is not where the change goes, nothing is to be paid or
nothing is left; and what is left fits in 64 bits. -/
theorem paysRecipient_iff (hutxos : r.utxos = .ok utxos)
    (h : zerRequest r toAddress amountSats changeAddress = .ok params) :
    PaysRecipient params utxos toAddress amountSats.toNat changeAddress ↔
      (toAddress ≠ changeAddress ∨ amountSats = 0 ∨
        valueOf utxos = amountSats.toNat + zerFee.toNat) ∧
      amountSats.toNat + zerFee.toNat ≤ valueOf utxos ∧
      valueOf utxos < amountSats.toNat + zerFee.toNat + 2 ^ 64 := by
  obtain ⟨utxos', hu, -, hasked⟩ := zerRequest_ok h
  obtain rfl := Except.ok.inj (hutxos.symm.trans hu)
  rw [paysRecipient_of_asked hasked rfl]
  have hmod := @change_mod amountSats utxos
  have hlt := (totalIn utxos - amountSats - zerFee).toNat_lt
  have ha := amountSats.toNat_lt
  have hfee : zerFee.toNat = 10000 := rfl
  have hzero : amountSats = 0 ↔ amountSats.toNat = 0 := UInt64.toNat_inj.symm
  rw [hfee] at hmod ⊢
  clear hasked
  generalize totalIn utxos - amountSats - zerFee = change at *
  have hpos : 0 < change ↔ 0 < change.toNat := UInt64.lt_iff_toNat_lt
  unfold zerFields
  by_cases hc : 0 < change
  · rw [if_pos hc]
    have hc := hpos.1 hc
    by_cases hsame : changeAddress = toAddress
    · -- the change replaces the payment
      rw [if_pos hsame, hsame]
      simp only [List.map_cons, List.map_nil, List.sum_singleton, paidTo_singleton]
      constructor
      · rintro ⟨rest, hv, -, hsum⟩
        exact ⟨.inr (.inl (hzero.2 (by omega))), by omega, by omega⟩
      · rintro ⟨h | h | h, hle, hrange⟩
        · exact absurd rfl h
        · rw [hzero] at h
          refine ⟨change.toNat, by omega, fun addr => ?_, by omega⟩
          rw [h, ite_self, Nat.zero_add]
        · exact absurd hc (by omega)
    · rw [if_neg hsame]
      have hsplit : (∃ rest, valueOf utxos = amountSats.toNat + rest + 10000 ∧
          (∀ addr, (if addr = toAddress then amountSats.toNat else 0) +
            (if addr = changeAddress then change.toNat else 0) =
            (if addr = toAddress then amountSats.toNat else 0) +
              if addr = changeAddress then rest else 0) ∧
          valueOf utxos = amountSats.toNat + change.toNat + 10000) ↔
          (toAddress ≠ changeAddress ∨ amountSats = 0 ∨
            valueOf utxos = amountSats.toNat + 10000) ∧
          amountSats.toNat + 10000 ≤ valueOf utxos ∧
          valueOf utxos < amountSats.toNat + 10000 + 2 ^ 64 := by
        constructor
        · rintro ⟨rest, -, -, hsum⟩
          exact ⟨.inl (Ne.symm hsame), by omega, by omega⟩
        · rintro ⟨-, hle, hrange⟩
          exact ⟨change.toNat, by omega, fun _ => rfl, by omega⟩
      rw [← hsplit]
      split
      · simp only [List.map_cons, List.map_nil, List.sum_cons, List.sum_nil, paidTo_pair,
          Nat.add_zero, Nat.add_comm (ite (_ = changeAddress) _ _), Nat.add_comm change.toNat]
      · simp only [List.map_cons, List.map_nil, List.sum_cons, List.sum_nil, paidTo_pair,
          Nat.add_zero]
  · rw [if_neg hc]
    have hc : change.toNat = 0 := Nat.eq_zero_of_not_pos (mt hpos.2 hc)
    simp only [List.map_cons, List.map_nil, List.sum_singleton, paidTo_singleton]
    constructor
    · rintro ⟨rest, hv, -, hsum⟩
      exact ⟨.inr (.inr (by omega)), by omega, by omega⟩
    · rintro ⟨-, hle, hrange⟩
      exact ⟨0, by omega, fun addr => by rw [ite_self, Nat.add_zero], by omega⟩

end

/-! One output of 0.01, of which half is sent. -/

def hotUtxo : Utxo := ⟨"ab", 1, 1000000, "76a9"⟩

def hotSources : ZerSources where
  rpcReady := true
  insightUtxos := .ok [hotUtxo]
  explorerUtxos := .error "down"
  nodeUtxos := .error "down"
  publicTipHeight := .ok 100

def hotRequest (toAddress changeAddress : String) : Value :=
  createRawTransactionEx [("ab", 1)] (zerOutputs 1000000 500000 toAddress changeAddress) (some 140)

theorem zerRequest_hot (toAddress changeAddress : String) :
    zerRequest hotSources toAddress 500000 changeAddress =
      .ok (hotRequest toAddress changeAddress) := rfl

theorem paid_elsewhere : PaysRecipient (hotRequest "t1to" "t1hot") [hotUtxo] "t1to" 500000 "t1hot" :=
  (paysRecipient_iff rfl (zerRequest_hot _ _)).2
    ⟨.inl (by decide), by decide, by decide⟩

/-- Sent to the change address, what is sent goes to the miner. -/
theorem unpaid_at_change : zerRequest hotSources "t1hot" 500000 "t1hot" =
      .ok (hotRequest "t1hot" "t1hot") ∧
    (askedTx (hotRequest "t1hot" "t1hot")).map (·.outputs) = some [("t1hot", 490000)] ∧
    ¬ PaysRecipient (hotRequest "t1hot" "t1hot") [hotUtxo] "t1hot" 500000 "t1hot" := by
  refine ⟨rfl, by decide +kernel, ?_⟩
  rintro ⟨tx, change, hasked, -, -, -, hsum⟩
  have houtputs : (askedTx (hotRequest "t1hot" "t1hot")).map (fun tx => (tx.outputs.map (·.2)).sum) =
      some 490000 := by decide +kernel
  rw [hasked] at houtputs
  have houtputs : (tx.outputs.map (·.2)).sum = 490000 := Option.some.inj houtputs
  rw [houtputs] at hsum
  exact absurd hsum (by decide)

end SatsPay
