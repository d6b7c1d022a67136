import SatsPay.ChainClient
import SatsPay.Hex
import SatsPay.Rlp

/-!
# Signed transactions of the EVM

A signed transaction is a list of nine strings. Its numbers are written without leading zeros,
but for the two of the signature, which are always of 32 bytes.
-/

namespace SatsPay

/-! ## Encoding -/

def rlpLength (len offset : ℕ) : List ℕ :=
  if len < 56 then [offset + len]
  else
    let be := beBytes 8 len
    let start := (be.findIdx? (· != 0)).getD 7
    (offset + 55 + (8 - start)) :: be.drop start

def rlpBytes (data : List ℕ) : List ℕ :=
  if data.length = 1 ∧ data.headD 0 < 0x80 then data else rlpLength data.length 0x80 ++ data

def rlpUint (width n : ℕ) : List ℕ :=
  if n = 0 then [0x80]
  else
    let be := beBytes width n
    let start := (be.findIdx? (· != 0)).getD (width - 1)
    rlpBytes (be.drop start)

def rlpU64 (n : ℕ) : List ℕ := rlpUint 8 n

def rlpU128 (n : ℕ) : List ℕ := rlpUint 16 n

def rlpList (items : List (List ℕ)) : List ℕ :=
  rlpLength (items.map List.length).sum 0xc0 ++ items.flatten

/-! ## Signing -/

def secp256k1Order : ℕ := 0xfffffffffffffffffffffffffffffffebaaedce6af48a03bbfd25e8cd0364141

structure RecoverableSignature where
  recoveryId : Fin 4
  r : ℕ
  s : ℕ
  r_mem : 0 < r ∧ r < secp256k1Order
  s_mem : 0 < s ∧ s < secp256k1Order

/-- The recovery id and 64 bytes. -/
def RecoverableSignature.serializeCompact (sig : RecoverableSignature) : ℕ × List ℕ :=
  (sig.recoveryId, beBytes 32 sig.r ++ beBytes 32 sig.s)

inductive EvmSignError where
  | invalidKey (e : String)
  | invalidAddress (e : String)
  | sign (e : String)

structure EvmLib where
  Key : Type
  secretKeyFromSlice : List ℕ → Except String Key
  signEcdsaRecoverable : List ℕ → Key → RecoverableSignature
  keccak256 : List ℕ → List ℕ
  hexEncode : List ℕ → String
  hexDecode : String → Option (List ℕ)

variable (L : EvmLib)

def signingList (tx : LegacyTx) : List (List ℕ) :=
  [rlpU64 tx.nonce, rlpU128 tx.gasPriceWei, rlpU64 tx.gasLimit, rlpBytes tx.toAddr,
    rlpU128 tx.valueWei, rlpBytes tx.data, rlpU64 tx.chainId, rlpU64 0, rlpU64 0]

def EvmLib.signatureOf (secretKeyBytes : Secret) (tx : LegacyTx) :
    Except EvmSignError RecoverableSignature := do
  let secretKey ← (L.secretKeyFromSlice secretKeyBytes).mapError EvmSignError.invalidKey
  let hash := L.keccak256 (rlpList (signingList tx))
  pure (L.signEcdsaRecoverable hash secretKey)

/-- `v`, in 64 bits. -/
def eip155V (tx : LegacyTx) (recoveryId : ℕ) : ℕ :=
  ((recoveryId + tx.chainId * 2 % 2 ^ 64) % 2 ^ 64 + 35) % 2 ^ 64

def signedList (tx : LegacyTx) (sig : RecoverableSignature) : List (List ℕ) :=
  let (recoveryId, sigBytes) := sig.serializeCompact
  let r := sigBytes.take 32
  let s := sigBytes.drop 32
  let v := eip155V tx recoveryId
  [rlpU64 tx.nonce, rlpU128 tx.gasPriceWei, rlpU64 tx.gasLimit, rlpBytes tx.toAddr,
    rlpU128 tx.valueWei, rlpBytes tx.data, rlpU64 v, rlpBytes r, rlpBytes s]

def signLegacyTx (secretKeyBytes : Secret) (tx : LegacyTx) : Except EvmSignError String := do
  let sig ← L.signatureOf secretKeyBytes tx
  pure ("0x" ++ L.hexEncode (rlpList (signedList tx sig)))

/-! ## Reading -/

/-- A signed transaction as a node reads it. -/
structure SignedTx where
  nonce : ℕ
  gasPriceWei : ℕ
  gasLimit : ℕ
  toAddr : Address
  valueWei : ℕ
  data : List ℕ
  v : ℕ
  r : ℕ
  s : ℕ

/-- The numbers have no leading zeros. -/
def SignedTx.read (raw : List ℕ) : Option SignedTx :=
  match Rlp.readList raw with
  | some [nonce, gasPrice, gasLimit, toAddr, value, data, v, r, s] => do
    if toAddr.length ≠ 20 then none
    pure ⟨← Rlp.readUint nonce, ← Rlp.readUint gasPrice, ← Rlp.readUint gasLimit, toAddr,
      ← Rlp.readUint value, data, ← Rlp.readUint v, ← Rlp.readUint r, ← Rlp.readUint s⟩
  | _ => none

def EvmLib.readRaw (raw : String) : Option SignedTx :=
  if "0x".toList.isPrefixOf raw.toList then
    (L.hexDecode (String.ofList (raw.toList.drop 2))).bind SignedTx.read
  else none

/-- What a transaction and its signature say. -/
def LegacyTx.signedWith (tx : LegacyTx) (sig : RecoverableSignature) : SignedTx :=
  ⟨tx.nonce, tx.gasPriceWei, tx.gasLimit, tx.toAddr, tx.valueWei, tx.data,
    sig.recoveryId + tx.chainId * 2 + 35, sig.r, sig.s⟩

structure LegacyTx.InWidths (tx : LegacyTx) : Prop where
  nonce : tx.nonce < 2 ^ 64
  gasPriceWei : tx.gasPriceWei < 2 ^ 128
  gasLimit : tx.gasLimit < 2 ^ 64
  toAddr : tx.toAddr.length = 20
  valueWei : tx.valueWei < 2 ^ 128
  data : tx.data.length < 2 ^ 63
  bytes : ∀ b ∈ tx.toAddr ++ tx.data, b < 256
  chainId : tx.chainId < 2 ^ 64

/-! ## What is written is read -/

theorem uintOf_eq_value (bs : List ℕ) : uintOf bs = BigEndian.value 256 bs := by
  induction bs using List.reverseRecOn with
  | nil => rfl
  | append_singleton bs b ih => rw [uintOf_snoc, BigEndian.value_snoc, ih]

theorem beBytes_lt {k n b : ℕ} (h : b ∈ beBytes k n) : b < 256 := by
  induction k generalizing n with
  | zero => cases h
  | succ k ih =>
    rcases List.mem_append.1 h with h | h
    · exact ih h
    · rw [List.mem_singleton.1 h]
      exact Nat.mod_lt _ (by norm_num)

/-- The bytes from the first that is not zero. -/
theorem drop_beBytes {k n d : ℕ} (h : n < 256 ^ k) (hn : n ≠ 0) :
    (beBytes k n).drop (((beBytes k n).findIdx? (· != 0)).getD d) = BigEndian.digits 256 n := by
  have hvalue : BigEndian.value 256 (beBytes k n) = n := by rw [← uintOf_eq_value, uintOf_beBytes h]
  have htrim := BigEndian.dropWhile_eq_digits (by norm_num) fun b hb => @beBytes_lt k n b hb
  rw [hvalue] at htrim
  rw [← htrim]
  cases hi : (beBytes k n).findIdx? (· != 0) with
  | none =>
    exfalso
    rw [List.findIdx?_eq_none_iff] at hi
    have hzeros : beBytes k n = List.replicate k 0 := by
      refine List.eq_replicate_iff.2 ⟨length_beBytes k n, fun b hb => ?_⟩
      simpa using hi b hb
    refine hn ?_
    rw [← uintOf_beBytes h, hzeros, ← List.append_nil (List.replicate k 0), uintOf_zeros_append]
    rfl
  | some i =>
    obtain ⟨-, hi⟩ := List.findIdx?_eq_some_iff_findIdx_eq.1 hi
    rw [Option.getD_some, List.dropWhile_eq_drop_findIdx_not, ← hi]
    rfl

theorem rlpLength_eq {n : ℕ} (h : n < 2 ^ 64) (offset : ℕ) :
    rlpLength n offset = Rlp.header offset n := by
  unfold rlpLength Rlp.header
  split
  · rfl
  · rename_i hlong
    have hdrop := @drop_beBytes 8 n 7 (by norm_num at h ⊢; exact h) (by omega)
    have hlen := congrArg List.length hdrop
    rw [List.length_drop, length_beBytes] at hlen
    dsimp only
    rw [hdrop, hlen]

theorem rlpBytes_eq {data : List ℕ} (h : data.length < 2 ^ 64) : rlpBytes data = Rlp.str data := by
  have hone : data.length = 1 ∧ data.headD 0 < 0x80 ↔ data.length = 1 ∧ BigEndian.value 256 data < 0x80 := by
    refine and_congr_right fun hlen => ?_
    obtain ⟨b, rfl⟩ := List.length_eq_one_iff.1 hlen
    rw [BigEndian.value_singleton, List.headD_cons]
  unfold rlpBytes Rlp.str
  simp only [hone, rlpLength_eq h]

theorem rlpUint_eq {k n : ℕ} (h : n < 256 ^ k) (hk : k < 2 ^ 64) :
    rlpUint k n = Rlp.str (BigEndian.digits 256 n) := by
  unfold rlpUint
  split
  · rename_i hzero
    rw [hzero]
    rfl
  · rename_i hne
    dsimp only
    rw [drop_beBytes h hne, rlpBytes_eq (((BigEndian.length_digits_le_iff (by norm_num)).2 h).trans_lt hk)]

theorem rlpList_eq {items : List (List ℕ)} (h : (items.flatMap Rlp.str).length < 2 ^ 64) :
    rlpList (items.map Rlp.str) = Rlp.list items := by
  have hlen : ((items.map Rlp.str).map List.length).sum = (items.flatMap Rlp.str).length := by
    rw [List.flatMap, List.length_flatten]
  rw [rlpList, Rlp.list, hlen, rlpLength_eq h, List.flatMap]

def signedStrings (tx : LegacyTx) (sig : RecoverableSignature) : List (List ℕ) :=
  [BigEndian.digits 256 tx.nonce, BigEndian.digits 256 tx.gasPriceWei, BigEndian.digits 256 tx.gasLimit, tx.toAddr,
    BigEndian.digits 256 tx.valueWei, tx.data, BigEndian.digits 256 (eip155V tx sig.recoveryId), beBytes 32 sig.r,
    beBytes 32 sig.s]

theorem eip155V_lt (tx : LegacyTx) (recoveryId : ℕ) : eip155V tx recoveryId < 2 ^ 64 :=
  Nat.mod_lt _ (by positivity)

theorem signedList_eq {tx : LegacyTx} (h : tx.InWidths) (sig : RecoverableSignature) :
    signedList tx sig = (signedStrings tx sig).map Rlp.str := by
  have hu64 {n : ℕ} (hn : n < 2 ^ 64) : rlpU64 n = Rlp.str (BigEndian.digits 256 n) :=
    rlpUint_eq (by norm_num at hn ⊢; exact hn) (by norm_num)
  have hu128 {n : ℕ} (hn : n < 2 ^ 128) : rlpU128 n = Rlp.str (BigEndian.digits 256 n) :=
    rlpUint_eq (by norm_num at hn ⊢; exact hn) (by norm_num)
  have hr : ((beBytes 32 sig.r ++ beBytes 32 sig.s).take 32) = beBytes 32 sig.r :=
    List.take_left' (length_beBytes _ _)
  have hs : ((beBytes 32 sig.r ++ beBytes 32 sig.s).drop 32) = beBytes 32 sig.s :=
    List.drop_left' (length_beBytes _ _)
  have hword (n : ℕ) : rlpBytes (beBytes 32 n) = Rlp.str (beBytes 32 n) :=
    rlpBytes_eq (by rw [length_beBytes]; norm_num)
  unfold signedList RecoverableSignature.serializeCompact
  dsimp only
  rw [hr, hs, hword, hword, hu64 h.nonce, hu128 h.gasPriceWei, hu64 h.gasLimit,
    rlpBytes_eq (h.toAddr.trans_lt (by norm_num)), hu128 h.valueWei,
    rlpBytes_eq (h.data.trans (by norm_num)), hu64 (eip155V_lt tx _)]
  rfl

theorem length_str_le {bs : List ℕ} (h : bs.length < 256 ^ 8) :
    (Rlp.str bs).length ≤ bs.length + 9 := by
  unfold Rlp.str Rlp.header
  split
  · omega
  · split
    · rw [List.length_append, List.length_singleton]
      omega
    · have := (BigEndian.length_digits_le_iff (by norm_num)).2 h
      rw [List.length_append, List.length_cons]
      omega

theorem length_signedStrings {tx : LegacyTx} (h : tx.InWidths) (sig : RecoverableSignature) :
    ((signedStrings tx sig).flatMap Rlp.str).length < 2 ^ 64 := by
  have hdigits {k n : ℕ} (hk : k < 256 ^ 8) (hn : n < 256 ^ k) :
      (Rlp.str (BigEndian.digits 256 n)).length ≤ k + 9 := by
    have := (BigEndian.length_digits_le_iff (by norm_num)).2 hn
    exact (length_str_le (by omega)).trans (by omega)
  have hu64 {n : ℕ} (hn : n < 2 ^ 64) := @hdigits 8 n (by norm_num) (by norm_num at hn ⊢; exact hn)
  have hu128 {n : ℕ} (hn : n < 2 ^ 128) :=
    @hdigits 16 n (by norm_num) (by norm_num at hn ⊢; exact hn)
  have hword (n : ℕ) : (Rlp.str (beBytes 32 n)).length ≤ 32 + 9 := by
    have hstr := @length_str_le (beBytes 32 n) (by rw [length_beBytes]; norm_num)
    rwa [length_beBytes] at hstr
  have hdata := @length_str_le tx.data (h.data.trans (by norm_num))
  have haddr := @length_str_le tx.toAddr (h.toAddr.trans_lt (by norm_num))
  have := h.data
  have := h.toAddr
  have := hu64 h.nonce
  have := hu128 h.gasPriceWei
  have := hu64 h.gasLimit
  have := hu128 h.valueWei
  have := hu64 (eip155V_lt tx sig.recoveryId)
  have := hword sig.r
  have := hword sig.s
  simp only [signedStrings, List.flatMap_cons, List.flatMap_nil, List.length_append,
    List.length_nil]
  omega

theorem readList_signed {tx : LegacyTx} (h : tx.InWidths) (sig : RecoverableSignature) :
    Rlp.readList (rlpList (signedList tx sig)) = some (signedStrings tx sig) := by
  have hlen := length_signedStrings h sig
  rw [signedList_eq h, rlpList_eq hlen, Rlp.readList_list (by norm_num at hlen ⊢; exact hlen)]

theorem head_beBytes (k n : ℕ) : (beBytes (k + 1) n).head? = some (n / 256 ^ k % 256) := by
  induction k generalizing n with
  | zero => simp [beBytes]
  | succ k ih =>
    have hne : beBytes (k + 1) (n / 256) ≠ [] :=
      List.ne_nil_of_length_pos (by rw [length_beBytes]; exact Nat.succ_pos k)
    rw [beBytes, List.head?_append_of_ne_nil _ hne, ih, Nat.div_div_eq_div_mul, pow_succ']

/-- A word is a number when its highest byte is not zero. -/
theorem readUint_word {n : ℕ} (h : n < secp256k1Order) :
    Rlp.readUint (beBytes 32 n) = if 256 ^ 31 ≤ n then some n else none := by
  have hn : n < 256 ^ 32 := h.trans (by norm_num [secp256k1Order])
  have hbyte : n / 256 ^ 31 < 256 := Nat.div_lt_of_lt_mul (by rwa [← pow_succ])
  have hhead : (beBytes 32 n).head? = some 0 ↔ ¬ 256 ^ 31 ≤ n := by
    rw [head_beBytes 31, Nat.mod_eq_of_lt hbyte, Option.some.injEq, not_le,
      Nat.div_eq_zero_iff_lt (by positivity)]
  unfold Rlp.readUint
  rw [← uintOf_eq_value, uintOf_beBytes hn]
  by_cases hle : 256 ^ 31 ≤ n
  · rw [if_neg (mt hhead.1 (not_not.2 hle)), if_pos hle]
  · rw [if_pos (hhead.2 hle), if_neg hle]

/-- What a node reads of what is signed. -/
theorem read_signed {tx : LegacyTx} (h : tx.InWidths) (sig : RecoverableSignature) :
    SignedTx.read (rlpList (signedList tx sig)) =
      if 256 ^ 31 ≤ sig.r ∧ 256 ^ 31 ≤ sig.s then
        some { tx.signedWith sig with v := eip155V tx sig.recoveryId }
      else none := by
  unfold SignedTx.read
  rw [readList_signed h]
  unfold signedStrings
  dsimp only
  rw [if_neg (not_not.2 h.toAddr)]
  simp only [Rlp.readUint_digits, readUint_word sig.r_mem.2, readUint_word sig.s_mem.2]
  by_cases hr : 256 ^ 31 ≤ sig.r
  · by_cases hs : 256 ^ 31 ≤ sig.s
    · rw [if_pos hr, if_pos hs, if_pos ⟨hr, hs⟩]
      rfl
    · rw [if_neg fun hc : 256 ^ 31 ≤ sig.r ∧ 256 ^ 31 ≤ sig.s => hs hc.2, if_pos hr, if_neg hs]
      rfl
  · rw [if_neg fun hc : 256 ^ 31 ≤ sig.r ∧ 256 ^ 31 ≤ sig.s => hr hc.1, if_neg hr]
    rfl

/-- Both numbers of the signature take 32 bytes, and `v` fits in 64 bits. -/
structure Canonical (tx : LegacyTx) (sig : RecoverableSignature) : Prop where
  r : 256 ^ 31 ≤ sig.r
  s : 256 ^ 31 ≤ sig.s
  v : sig.recoveryId + tx.chainId * 2 + 35 < 2 ^ 64

theorem eip155V_eq_iff {tx : LegacyTx} (recoveryId : Fin 4) :
    eip155V tx recoveryId = recoveryId + tx.chainId * 2 + 35 ↔
      (recoveryId : ℕ) + tx.chainId * 2 + 35 < 2 ^ 64 := by
  unfold eip155V
  omega

theorem read_signed_iff {tx : LegacyTx} (h : tx.InWidths) (sig : RecoverableSignature) :
    SignedTx.read (rlpList (signedList tx sig)) = some (tx.signedWith sig) ↔ Canonical tx sig := by
  rw [read_signed h]
  constructor
  · intro hread
    split at hread
    · rename_i hrs
      have hv : eip155V tx sig.recoveryId = (tx.signedWith sig).v :=
        congrArg SignedTx.v (Option.some.inj hread)
      exact ⟨hrs.1, hrs.2, (eip155V_eq_iff sig.recoveryId).1 hv⟩
    · cases hread
  · intro hc
    rw [if_pos ⟨hc.r, hc.s⟩, (eip155V_eq_iff sig.recoveryId).2 hc.v]
    rfl

/-! ## The raw transaction -/

structure EvmLib.Signs (secretKeyBytes : Secret) (tx : LegacyTx) (sig : RecoverableSignature)
    (raw : String) : Prop where
  signature : L.signatureOf secretKeyBytes tx = .ok sig
  result : signLegacyTx L secretKeyBytes tx = .ok raw

def EvmLib.HexRoundTrip : Prop := ∀ bs, (∀ b ∈ bs, b < 256) → L.hexDecode (L.hexEncode bs) = some bs

/-- Two that are alike but for chains that share their `v`. -/
def SameV (tx₁ tx₂ : LegacyTx) (sig₁ sig₂ : RecoverableSignature) : Prop :=
  tx₂ = { tx₁ with chainId := tx₂.chainId } ∧ sig₁.r = sig₂.r ∧ sig₁.s = sig₂.s ∧
    (sig₁.recoveryId : ℕ) + tx₁.chainId * 2 = sig₂.recoveryId + tx₂.chainId * 2 ∧
    tx₁.chainId ≠ tx₂.chainId

theorem signed_lt {tx : LegacyTx} (h : tx.InWidths) (sig : RecoverableSignature) :
    ∀ b ∈ rlpList (signedList tx sig), b < 256 := by
  have hlen := length_signedStrings h sig
  rw [signedList_eq h, rlpList_eq hlen]
  refine Rlp.list_lt ?_ (by norm_num at hlen ⊢; exact hlen)
  have hbytes := h.bytes
  simp only [List.mem_append, or_imp, forall_and] at hbytes
  simp only [signedStrings, List.mem_cons, List.not_mem_nil, or_false, forall_eq_or_imp, forall_eq]
  exact ⟨fun b => BigEndian.digits_lt (by norm_num), fun b => BigEndian.digits_lt (by norm_num), fun b => BigEndian.digits_lt (by norm_num), hbytes.1,
    fun b => BigEndian.digits_lt (by norm_num), hbytes.2, fun b => BigEndian.digits_lt (by norm_num), fun b => beBytes_lt,
    fun b => beBytes_lt⟩

variable {L}

theorem EvmLib.Signs.raw_eq {secret : Secret} {tx : LegacyTx} {sig : RecoverableSignature}
    {raw : String} (h : L.Signs secret tx sig raw) :
    raw = "0x" ++ L.hexEncode (rlpList (signedList tx sig)) := by
  have hresult := h.result
  unfold signLegacyTx at hresult
  rw [h.signature] at hresult
  exact (Except.ok.inj hresult).symm

theorem readRaw_eq (hhex : L.HexRoundTrip) {secret : Secret} {tx : LegacyTx}
    {sig : RecoverableSignature} {raw : String} (htx : tx.InWidths) (h : L.Signs secret tx sig raw) :
    L.readRaw raw = SignedTx.read (rlpList (signedList tx sig)) := by
  have htext : raw.toList = "0x".toList ++ (L.hexEncode (rlpList (signedList tx sig))).toList := by
    rw [h.raw_eq, String.toList_append]
  have hprefix : "0x".toList.isPrefixOf raw.toList := by
    rw [htext, List.isPrefixOf_iff_prefix]
    exact List.prefix_append _ _
  have hdrop : raw.toList.drop 2 = (L.hexEncode (rlpList (signedList tx sig))).toList := by
    rw [htext]
    exact List.drop_left' rfl
  rw [EvmLib.readRaw, if_pos hprefix, hdrop, String.ofList_toList, hhex _ (signed_lt htx sig),
    Option.bind_some]

/-- A node reads back what was signed, and two that differ are not the same text, exactly when
both signatures are canonical and the two do not share their `v` by their chains. -/
theorem signed_canonically_iff (hhex : L.HexRoundTrip) {secret₁ secret₂ : Secret}
    {tx₁ tx₂ : LegacyTx} {sig₁ sig₂ : RecoverableSignature} {raw₁ raw₂ : String}
    (htx₁ : tx₁.InWidths) (htx₂ : tx₂.InWidths) (h₁ : L.Signs secret₁ tx₁ sig₁ raw₁)
    (h₂ : L.Signs secret₂ tx₂ sig₂ raw₂) :
    (L.readRaw raw₁ = some (tx₁.signedWith sig₁) ∧ L.readRaw raw₂ = some (tx₂.signedWith sig₂) ∧
      (raw₁ = raw₂ → tx₁ = tx₂ ∧ sig₁ = sig₂)) ↔
    Canonical tx₁ sig₁ ∧ Canonical tx₂ sig₂ ∧ ¬ SameV tx₁ tx₂ sig₁ sig₂ := by
  have hread₁ := readRaw_eq hhex htx₁ h₁
  have hread₂ := readRaw_eq hhex htx₂ h₂
  rw [hread₁, hread₂, read_signed_iff htx₁, read_signed_iff htx₂]
  refine and_congr_right fun hc₁ => and_congr_right fun hc₂ => ?_
  constructor
  · rintro hinj ⟨htx, hr, hs, hv, hchain⟩
    refine hchain (congrArg LegacyTx.chainId (hinj ?_).1)
    have hv' : eip155V tx₁ sig₁.recoveryId = eip155V tx₂ sig₂.recoveryId := by
      rw [(eip155V_eq_iff _).2 hc₁.v, (eip155V_eq_iff _).2 hc₂.v, hv]
    have hlist : signedList tx₁ sig₁ = signedList tx₂ sig₂ := by
      rw [signedList_eq htx₁, signedList_eq htx₂]
      unfold signedStrings
      rw [hv', hr, hs, htx]
    rw [h₁.raw_eq, h₂.raw_eq, hlist]
  · intro hdiffer hraw
    have hsigned : tx₁.signedWith sig₁ = tx₂.signedWith sig₂ := by
      refine Option.some.inj ?_
      rw [← (read_signed_iff htx₁ sig₁).2 hc₁, ← (read_signed_iff htx₂ sig₂).2 hc₂, ← hread₁,
        ← hread₂, hraw]
    obtain ⟨nonce₁, gasPrice₁, gas₁, to₁, value₁, data₁, chain₁⟩ := tx₁
    obtain ⟨nonce₂, gasPrice₂, gas₂, to₂, value₂, data₂, chain₂⟩ := tx₂
    obtain ⟨id₁, r₁, s₁, hr₁, hs₁⟩ := sig₁
    obtain ⟨id₂, r₂, s₂, hr₂, hs₂⟩ := sig₂
    simp only [LegacyTx.signedWith, SignedTx.mk.injEq] at hsigned
    obtain ⟨rfl, rfl, rfl, rfl, rfl, rfl, hv, rfl, rfl⟩ := hsigned
    have hchain : chain₁ = chain₂ := by
      by_contra hne
      exact hdiffer ⟨rfl, rfl, rfl, Nat.add_right_cancel hv, hne⟩
    subst hchain
    have hid : id₁ = id₂ := Fin.ext (by omega)
    subst hid
    exact ⟨rfl, rfl⟩

/-! ### A signature of 31 bytes -/

/-- Every key signs with these numbers. -/
def signsWith (r s : ℕ) (hr : 0 < r ∧ r < secp256k1Order) (hs : 0 < s ∧ s < secp256k1Order) :
    EvmLib where
  Key := List ℕ
  secretKeyFromSlice bs := .ok bs
  signEcdsaRecoverable _ _ := ⟨0, r, s, hr, hs⟩
  keccak256 bs := bs.take 32
  hexEncode bs := String.ofList (Hex.encode bs)
  hexDecode s := Hex.decode s.toList

theorem hexRoundTrip_signsWith {r s : ℕ} (hr : 0 < r ∧ r < secp256k1Order)
    (hs : 0 < s ∧ s < secp256k1Order) : (signsWith r s hr hs).HexRoundTrip := by
  intro bs hbs
  show Hex.decode (String.ofList (Hex.encode bs)).toList = some bs
  rw [String.toList_ofList, Hex.decode_encode hbs]

def onePol (nonce : ℕ) : LegacyTx :=
  ⟨nonce, 30000000000, 21000, [0x7e, 0x5f, 0x45, 0x52, 0x09, 0x1a, 0x69, 0x12, 0x5d, 0x5d, 0xfc, 0xb7,
    0xb8, 0xc2, 0x65, 0x90, 0x29, 0x39, 0x5b, 0xdf], 1000000000000000000, [], 137⟩

theorem inWidths_onePol {nonce : ℕ} (h : nonce < 2 ^ 64) : (onePol nonce).InWidths where
  nonce := h
  gasPriceWei := by norm_num [onePol]
  gasLimit := by norm_num [onePol]
  toAddr := rfl
  valueWei := by norm_num [onePol]
  data := by norm_num [onePol]
  bytes := by simp [onePol]
  chainId := by norm_num [onePol]

theorem signed_canonically_twice : ∃ L : EvmLib, ∃ raw₁ raw₂ sig,
    L.Signs [1] (onePol 0) sig raw₁ ∧ L.Signs [1] (onePol 1) sig raw₂ ∧
    L.readRaw raw₁ = some ((onePol 0).signedWith sig) ∧
    L.readRaw raw₂ = some ((onePol 1).signedWith sig) ∧
    (raw₁ = raw₂ → onePol 0 = onePol 1 ∧ sig = sig) := by
  have hr : 0 < 256 ^ 31 ∧ 256 ^ 31 < secp256k1Order := by decide +kernel
  have h₁ : (signsWith _ _ hr hr).Signs [1] (onePol 0) ⟨0, _, _, hr, hr⟩ _ := ⟨rfl, rfl⟩
  have h₂ : (signsWith _ _ hr hr).Signs [1] (onePol 1) ⟨0, _, _, hr, hr⟩ _ := ⟨rfl, rfl⟩
  refine ⟨_, _, _, _, h₁, h₂, (signed_canonically_iff (hexRoundTrip_signsWith hr hr)
    (inWidths_onePol (by norm_num)) (inWidths_onePol (by norm_num)) h₁ h₂).2 ⟨?_, ?_, ?_⟩⟩
  · exact ⟨le_rfl, le_rfl, by norm_num [onePol]⟩
  · exact ⟨le_rfl, le_rfl, by norm_num [onePol]⟩
  · rintro ⟨-, -, -, -, hne⟩
    exact hne rfl

/-- A number of the signature that 31 bytes hold is written with a leading zero, and no node
reads it. -/
theorem short_signature_unread : ∃ L : EvmLib, L.HexRoundTrip ∧ ∃ sig raw,
    (onePol 0).InWidths ∧ L.Signs [1] (onePol 0) sig raw ∧ L.readRaw raw = none := by
  have hr : 0 < 256 ^ 31 - 1 ∧ 256 ^ 31 - 1 < secp256k1Order := by decide +kernel
  have hs : 0 < 256 ^ 31 ∧ 256 ^ 31 < secp256k1Order := by decide +kernel
  have hw : (onePol 0).InWidths := inWidths_onePol (by norm_num)
  have h : (signsWith _ _ hr hs).Signs [1] (onePol 0) ⟨0, _, _, hr, hs⟩ _ := ⟨rfl, rfl⟩
  refine ⟨_, hexRoundTrip_signsWith hr hs, _, _, hw, h, ?_⟩
  rw [readRaw_eq (hexRoundTrip_signsWith hr hs) hw h, read_signed hw, if_neg]
  rintro ⟨hle, -⟩
  have hle : 256 ^ 31 ≤ 256 ^ 31 - 1 := hle
  norm_num at hle

end SatsPay
