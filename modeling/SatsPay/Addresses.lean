import Mathlib.Data.Bool.AllAny
import SatsPay.Base58
import SatsPay.CashAddr
import SatsPay.EvmSigning
import SatsPay.UtxoSigning

/-!
# Addresses

The address of a coin is of one of six kinds. It is checked by one reader and paid through
another, and both make the same destination of it.
-/

namespace SatsPay

inductive AddressKind where
  | bech32Segwit (hrp : String) (legacyBase58Version : UInt8)
  | base58Only (version : UInt8)
  | cashAddr (pre : String)
  | evm
  | solana
  | zcashTransparent (version : UInt8 × UInt8)
  deriving DecidableEq

def zcashT1Mainnet : UInt8 × UInt8 := (0x1c, 0xb8)
def zcashT1Testnet : UInt8 × UInt8 := (0x1d, 0x25)

/-- `address_kind` of the coin's parameters -/
def addressKindFor : Coin → ChainNetwork → AddressKind
  | .btc, .mainnet => .bech32Segwit "bc" 0x00
  | .btc, .testnet => .bech32Segwit "tb" 0x6f
  | .ltc, .mainnet => .bech32Segwit "ltc" 0x30
  | .ltc, .testnet => .bech32Segwit "tltc" 0x6f
  | .doge, .mainnet => .base58Only 0x1e
  | .doge, .testnet => .base58Only 0x71
  | .bch, .mainnet => .cashAddr "bitcoincash"
  | .bch, .testnet => .cashAddr "bchtest"
  | .dgb, .mainnet => .bech32Segwit "dgb" 0x1e
  | .dgb, .testnet => .bech32Segwit "dgbt" 0x7e
  | .sol, _ => .solana
  | .zer, .mainnet => .zcashTransparent zcashT1Mainnet
  | .zer, .testnet => .zcashTransparent zcashT1Testnet
  | .pol, _ | .usdt, _ | .usdc, _ | .pepe, _ => .evm

inductive Bech32Variant where
  | bech32 | bech32m
  deriving DecidableEq

/-- What the addresses take from other packages. -/
structure AddressLib where
  sha256 : List UInt8 → Vector UInt8 32
  ripemd160 : List UInt8 → Hash160
  keccak256 : List UInt8 → Vector UInt8 32
  bs58Encode : List UInt8 → String
  bs58Decode : String → Option (List UInt8)
  toBase32 : List UInt8 → List (Fin 32)
  fromBase32 : List (Fin 32) → Option (List UInt8)
  bech32Encode : String → List (Fin 32) → Bech32Variant → String
  bech32Decode : String → Option (String × List (Fin 32) × Bech32Variant)
  hexEncode : List UInt8 → String
  hexDecode : String → Except String (List UInt8)

/-- `try_into` of an array -/
def arrayOf (n : ℕ) (bs : List UInt8) : Option (Vector UInt8 n) :=
  if h : bs.length = n then some ⟨⟨bs⟩, h⟩ else none

section
variable (L : AddressLib)

def AddressLib.hash160 (data : List UInt8) : Hash160 := L.ripemd160 (L.sha256 data).toList

def AddressLib.checksum (data : List UInt8) : List UInt8 :=
  (L.sha256 (L.sha256 data).toList).toList.take 4

/-! ## Base 58 with a checksum -/

def checkedEncode (version : List UInt8) (payload : Hash160) : String :=
  let buf := version ++ payload.toList
  L.bs58Encode (buf ++ L.checksum buf)

def checkedDecode (n : ℕ) (s : String) : Option (List UInt8 × Hash160) := do
  let data ← L.bs58Decode s
  if data.length ≠ n + 24 then none
  let payload := data.take (n + 20)
  if L.checksum payload ≠ data.drop (n + 20) then none
  let hash ← arrayOf 20 (payload.drop n)
  pure (payload.take n, hash)

def base58checkEncode (version : UInt8) (payload : Hash160) : String :=
  checkedEncode L [version] payload

def base58checkDecode (s : String) : Option (UInt8 × Hash160) :=
  (checkedDecode L 1 s).map fun (version, hash) => (version.headD 0, hash)

def zcashT1Encode (version : UInt8 × UInt8) (payload : Hash160) : String :=
  checkedEncode L [version.1, version.2] payload

def zcashT1Decode (s : String) : Option ((UInt8 × UInt8) × Hash160) :=
  if s.toList.head? ≠ some 't' then none
  else (checkedDecode L 2 s).map fun (version, hash) =>
    ((version.headD 0, version.tail.headD 0), hash)

def zcashT1Validate (s : String) (version : UInt8 × UInt8) : Bool :=
  (zcashT1Decode L s).any fun (v, _) => v == version

/-! ## The other kinds -/

def bech32P2wpkhEncode (hrp : String) (pubkeyHash : Hash160) : String :=
  L.bech32Encode hrp (0 :: L.toBase32 pubkeyHash.toList) .bech32

def bech32P2wpkhDecode (hrp s : String) : Option Hash160 :=
  (L.bech32Decode s).bind fun (decodedHrp, data, variant) =>
    if decodedHrp ≠ hrp ∨ variant ≠ .bech32 then none
    else match data with
      | [] => none
      | version :: program =>
        if version ≠ 0 then none else (L.fromBase32 program).bind (arrayOf 20)

def evmAddressFromUncompressedPubkey (pubkeyXy : List UInt8) : Hash160 :=
  (L.keccak256 pubkeyXy).drop 12

/-- A letter is upper-case when its nibble of the hash is 8 or more. -/
def eip55Char (hash : Vector UInt8 32) (c : Char) (i : ℕ) : Char :=
  if c.isDigit then c
  else
    let byte := hash.toList.getD (i / 2) 0
    let nibble := if i % 2 = 0 then byte >>> 4 else byte &&& 0x0f
    if 8 ≤ nibble then c.toUpper else c

def eip55Encode (addr : Hash160) : String :=
  let hexAddr := L.hexEncode addr.toList
  let hash := L.keccak256 hexAddr.toUTF8.toList
  "0x" ++ String.ofList (hexAddr.toList.zipIdx.map fun (c, i) => eip55Char hash c i)

def isAsciiHexdigit (c : Char) : Bool :=
  c.isDigit || ('a' ≤ c && c ≤ 'f') || ('A' ≤ c && c ≤ 'F')

def strip0x (s : String) : Option String :=
  (stripPrefix "0x".toList s.toList).map String.ofList

def eip55Validate (s : String) : Bool :=
  match strip0x s with
  | none => false
  | some hexPart =>
    if hexPart.utf8ByteSize ≠ 40 ∨ ¬ hexPart.toList.all isAsciiHexdigit then false
    -- digits have no case, and of the letters only these six are left
    else if hexPart.toList = hexPart.toList.map Char.toLower ∨
        hexPart.toList = hexPart.toList.map Char.toUpper then true
    else match L.hexDecode hexPart with
      | .error _ => false
      | .ok bytes => match arrayOf 20 bytes with
        | none => false
        | some addr => eip55Encode L addr == s

def parseAddress (addr : String) : Except EvmSignError Hash160 :=
  let hexPart := (strip0x addr).getD addr
  if hexPart.utf8ByteSize ≠ 40 then .error (.invalidAddress addr)
  else match L.hexDecode hexPart with
    | .error e => .error (.invalidAddress e)
    | .ok bytes => match arrayOf 20 bytes with
      | none => .error (.invalidAddress addr)
      | some a => .ok a

def solanaAddressEncode (pubkey : Vector UInt8 32) : String := L.bs58Encode pubkey.toList

def solanaAddressDecode (s : String) : Option (Vector UInt8 32) :=
  (L.bs58Decode s).bind (arrayOf 32)

/-! ## Checking and paying -/

def validateAddress (coin : Coin) (network : ChainNetwork) (address : String) : Bool :=
  if 128 < address.utf8ByteSize then false
  else match addressKindFor coin network with
    | .bech32Segwit hrp legacyBase58Version =>
      (bech32P2wpkhDecode L hrp address).isSome ||
        (base58checkDecode L address).any fun (v, _) => v == legacyBase58Version
    | .base58Only version => (base58checkDecode L address).any fun (v, _) => v == version
    | .cashAddr pre => (cashaddrDecode pre address).isSome
    | .evm => eip55Validate L address
    | .solana => (solanaAddressDecode L address).isSome
    | .zcashTransparent version => zcashT1Validate L address version

def newP2wpkh (hash : Hash160) : Script := [0x00, 0x14] ++ hash.toList

def newP2pkh (hash : Hash160) : Script := [0x76, 0xa9, 0x14] ++ hash.toList ++ [0x88, 0xac]

def addressToScriptPubkey (coin : Coin) (network : ChainNetwork) (address : String) :
    Except String Script :=
  match addressKindFor coin network with
  | .bech32Segwit hrp legacyBase58Version =>
    match bech32P2wpkhDecode L hrp address with
    | some hash => .ok (newP2wpkh hash)
    | none =>
      match base58checkDecode L address with
      | some (v, hash) =>
        if v = legacyBase58Version then .ok (newP2pkh hash)
        else .error ("invalid address for this network: " ++ address)
      | none => .error ("invalid address for this network: " ++ address)
  | .base58Only version =>
    match base58checkDecode L address with
    | none => .error ("invalid address: " ++ address)
    | some (v, hash) =>
      if v ≠ version then .error ("invalid address version for this network: " ++ address)
      else .ok (newP2pkh hash)
  | .cashAddr pre =>
    match cashaddrDecode pre address with
    | none => .error ("invalid cashaddr: " ++ address)
    | some hash => .ok (newP2pkh hash)
  | .evm => .error "EVM addresses are not bitcoin scriptPubKeys"
  | .solana => .error "Solana addresses are not bitcoin scriptPubKeys"
  | .zcashTransparent _ => .error "ZER spends are signed by zerod, not bitcoin scriptPubKeys"

/-- `ZerClient::validate_t1` -/
def validateT1 (address : String) (network : ChainNetwork) : Bool :=
  match addressKindFor .zer network with
  | .zcashTransparent version => zcashT1Validate L address version
  | _ => false

/-! ## Destinations -/

inductive Destination where
  | witnessKeyHash (hash : Hash160)
  | keyHash (hash : Hash160)
  | account (address : Hash160)
  | solanaKey (key : Vector UInt8 32)
  | transparent (hash : Hash160)

def checkedDestination (kind : AddressKind) (address : String) : Option Destination :=
  match kind with
  | .bech32Segwit hrp legacyBase58Version =>
    (bech32P2wpkhDecode L hrp address).map .witnessKeyHash <|>
      ((base58checkDecode L address).filter fun x => x.1 == legacyBase58Version).map (.keyHash ·.2)
  | .base58Only version =>
    ((base58checkDecode L address).filter fun x => x.1 == version).map (.keyHash ·.2)
  | .cashAddr pre => (cashaddrDecode pre address).map .keyHash
  | .evm => (strip0x address).bind fun hexPart =>
      ((L.hexDecode hexPart).toOption.bind (arrayOf 20)).map .account
  | .solana => (solanaAddressDecode L address).map .solanaKey
  | .zcashTransparent version =>
    ((zcashT1Decode L address).filter fun x => x.1 == version).map (.transparent ·.2)

/-- The reader of a broadcast makes the destination of the address. -/
def ReadForBroadcast (coin : Coin) (network : ChainNetwork) (address : String) :
    Destination → Prop
  | .witnessKeyHash hash => addressToScriptPubkey L coin network address = .ok (newP2wpkh hash)
  | .keyHash hash => addressToScriptPubkey L coin network address = .ok (newP2pkh hash)
  | .account a => parseAddress L address = .ok a
  | .solanaKey key => solanaAddressDecode L address = some key
  | .transparent hash => validateT1 L address network = true ∧
      ∃ version, zcashT1Decode L address = some (version, hash)

structure AddressLib.Documented : Prop where
  bs58Encode : ∀ bs, (L.bs58Encode bs).toList = Base58.encode (bs.map UInt8.toNat)
  bs58Decode : ∀ bs, L.bs58Decode (L.bs58Encode bs) = some bs
  base32 : ∀ bs, L.fromBase32 (L.toBase32 bs) = some bs
  length_base32 : ∀ bs, (L.toBase32 bs).length = (8 * bs.length + 4) / 5
  bech32 : ∀ hrp data variant, hrp ≠ "" → (∀ c ∈ hrp.toList, c.isLower) →
    L.bech32Decode (L.bech32Encode hrp data variant) = some (hrp, data, variant)
  size_bech32 : ∀ hrp data variant, (L.bech32Encode hrp data variant).utf8ByteSize =
    hrp.utf8ByteSize + 1 + data.length + 6
  hexEncode : ∀ bs, (L.hexEncode bs).toList = Hex.encode (bs.map UInt8.toNat)
  hexDecode : ∀ s bs, Hex.decode s.toList = some bs →
    L.hexDecode s = .ok (bs.map UInt8.ofNat)

end

section
variable {L : AddressLib}

theorem arrayOf_eq_some {n : ℕ} {bs : List UInt8} (h : bs.length = n) :
    ∃ v, arrayOf n bs = some v ∧ v.toList = bs := ⟨_, dif_pos h, rfl⟩

@[simp] theorem arrayOf_toList {n : ℕ} (v : Vector UInt8 n) : arrayOf n v.toList = some v :=
  dif_pos v.length_toList

theorem utf8ByteSize_of_ascii {s : String} (h : ∀ c ∈ s.toList, c.utf8Size = 1) :
    s.utf8ByteSize = s.toList.length := by
  obtain ⟨l, rfl⟩ : ∃ l, s = String.ofList l := ⟨s.toList, String.ofList_toList.symm⟩
  rw [String.toList_ofList] at h ⊢
  induction l with
  | nil => rfl
  | cons c l ih =>
    rw [List.forall_mem_cons] at h
    have hsplit : String.ofList (c :: l) = String.singleton c ++ String.ofList l :=
      String.toList_inj.1 (by simp)
    rw [hsplit, String.utf8ByteSize_append, ih h.2, String.utf8ByteSize_singleton, h.1,
      List.length_cons, Nat.add_comm]

theorem isAsciiHexdigit_iff {c : Char} :
    isAsciiHexdigit c = true ↔ ('0' ≤ c ∧ c ≤ '9') ∨ ('a' ≤ c ∧ c ≤ 'f') ∨ ('A' ≤ c ∧ c ≤ 'F') := by
  simp [isAsciiHexdigit, Char.isDigit, or_assoc, Char.le_def]

theorem digit?_of_isAsciiHexdigit {c : Char} (h : isAsciiHexdigit c) : (Hex.digit? c).isSome := by
  unfold Hex.digit?
  split
  · rfl
  split
  · rfl
  rename_i h₁ h₂
  rcases isAsciiHexdigit_iff.1 h with h | h | h
  · exact absurd h h₁
  · exact absurd h h₂
  · rw [if_pos h]
    rfl

theorem utf8Size_of_isAsciiHexdigit {c : Char} (h : isAsciiHexdigit c) : c.utf8Size = 1 := by
  have hle : c.toNat ≤ 'f'.toNat := by
    rcases isAsciiHexdigit_iff.1 h with h | h | h
    · exact le_trans (show c.toNat ≤ '9'.toNat from h.2) (by decide)
    · exact h.2
    · exact le_trans (show c.toNat ≤ 'F'.toNat from h.2) (by decide)
  exact Char.utf8Size_eq_one_iff.2 (UInt32.le_iff_toNat_le.2 (hle.trans (by decide)))

/-- Forty digits spell an address. -/
theorem hexDecode_of_digits (hL : L.Documented) {s : String} (hlen : s.utf8ByteSize = 40)
    (hs : s.toList.all isAsciiHexdigit) :
    ∃ bytes a, L.hexDecode s = .ok bytes ∧ arrayOf 20 bytes = some a := by
  rw [List.all_eq_true] at hs
  have hchars : s.toList.length = 2 * 20 := by
    rw [← utf8ByteSize_of_ascii fun c hc => utf8Size_of_isAsciiHexdigit (hs c hc), hlen]
  obtain ⟨bs, hbs, hn, -⟩ := Hex.exists_decode hchars fun c hc =>
    digit?_of_isAsciiHexdigit (hs c hc)
  obtain ⟨a, ha, -⟩ := @arrayOf_eq_some 20 (bs.map UInt8.ofNat) (by rw [List.length_map, hn])
  exact ⟨_, a, hL.hexDecode s bs hbs, ha⟩

theorem exists_of_any {α : Type} {o : Option α} {p : α → Bool} (h : o.any p) :
    ∃ a, o = some a ∧ p a = true := by
  cases o with
  | none => cases h
  | some a => exact ⟨a, rfl, h⟩

/-- An EVM address that is accepted is 40 digits after the prefix. -/
theorem digits_of_eip55Validate {address : String} (h : eip55Validate L address) :
    ∃ hexPart, strip0x address = some hexPart ∧ hexPart.utf8ByteSize = 40 ∧
      hexPart.toList.all isAsciiHexdigit := by
  unfold eip55Validate at h
  split at h
  · cases h
  · rename_i hexPart hstrip
    split at h
    · cases h
    · rename_i hcond
      rw [not_or, not_not, not_not] at hcond
      exact ⟨hexPart, hstrip, hcond⟩

/-- What passes the check is read for the broadcast as what the check makes of it. -/
theorem read_of_validated (hL : L.Documented) {coin : Coin} {network : ChainNetwork}
    {address : String} (h : validateAddress L coin network address) :
    ∃ d, checkedDestination L (addressKindFor coin network) address = some d ∧
      ReadForBroadcast L coin network address d := by
  have htransparent {version : UInt8 × UInt8} (hkind : addressKindFor coin network =
      .zcashTransparent version) : addressKindFor .zer network = .zcashTransparent version := by
    cases coin <;> first | exact hkind | (cases network <;> cases hkind)
  unfold validateAddress at h
  split at h
  · cases h
  cases hkind : addressKindFor coin network with
  | bech32Segwit hrp legacyBase58Version =>
    rw [hkind] at h
    unfold checkedDestination ReadForBroadcast addressToScriptPubkey
    rw [hkind]
    dsimp only at h ⊢
    cases hsegwit : bech32P2wpkhDecode L hrp address with
    | some hash => exact ⟨.witnessKeyHash hash, rfl, rfl⟩
    | none =>
      rw [hsegwit] at h
      obtain ⟨⟨v, hash⟩, hdecode, hv⟩ := exists_of_any h
      have hv : v = legacyBase58Version := eq_of_beq hv
      refine ⟨.keyHash hash, ?_, ?_⟩
      · simp [hdecode, hv]
      · simp [hdecode, hv]
  | base58Only version =>
    rw [hkind] at h
    obtain ⟨⟨v, hash⟩, hdecode, hv⟩ := exists_of_any h
    have hv : v = version := eq_of_beq hv
    refine ⟨.keyHash hash, ?_, ?_⟩
    · simp [checkedDestination, hdecode, hv]
    · simp [ReadForBroadcast, addressToScriptPubkey, hkind, hdecode, hv]
  | cashAddr pre =>
    rw [hkind] at h
    obtain ⟨hash, hdecode⟩ := Option.isSome_iff_exists.1 h
    refine ⟨.keyHash hash, ?_, ?_⟩
    · simp [checkedDestination, hdecode]
    · simp [ReadForBroadcast, addressToScriptPubkey, hkind, hdecode]
  | evm =>
    rw [hkind] at h
    obtain ⟨hexPart, hstrip, hlen, hdigits⟩ := digits_of_eip55Validate h
    obtain ⟨bytes, a, hbytes, ha⟩ := hexDecode_of_digits hL hlen hdigits
    refine ⟨.account a, ?_, ?_⟩
    · simp [checkedDestination, hstrip, hbytes, ha, Except.toOption]
    · simp [ReadForBroadcast, parseAddress, hstrip, hlen, hbytes, ha]
  | solana =>
    rw [hkind] at h
    obtain ⟨key, hdecode⟩ := Option.isSome_iff_exists.1 h
    exact ⟨.solanaKey key, congrArg (Option.map _) hdecode, hdecode⟩
  | zcashTransparent version =>
    rw [hkind] at h
    obtain ⟨⟨v, hash⟩, hdecode, hv⟩ := exists_of_any h
    refine ⟨.transparent hash, ?_, ?_, v, hdecode⟩
    · simp [checkedDestination, hdecode, show v = version from eq_of_beq hv]
    · rw [validateT1, htransparent hkind]
      exact h

/-! ## What is made passes the check -/

theorem checkedDecode_encode (hL : L.Documented) (version : List UInt8) (payload : Hash160) :
    checkedDecode L version.length (checkedEncode L version payload) = some (version, payload) := by
  have hcheck (data : List UInt8) : (L.checksum data).length = 4 := by
    rw [AddressLib.checksum, List.length_take, Vector.length_toList]
    rfl
  have hbuf : (version ++ payload.toList).length = version.length + 20 := by
    rw [List.length_append, Vector.length_toList]
  have htake : (version ++ payload.toList ++ L.checksum (version ++ payload.toList)).take
      (version.length + 20) = version ++ payload.toList := List.take_left' hbuf
  have hdrop : (version ++ payload.toList ++ L.checksum (version ++ payload.toList)).drop
      (version.length + 20) = L.checksum (version ++ payload.toList) := List.drop_left' hbuf
  unfold checkedDecode checkedEncode
  dsimp only
  rw [hL.bs58Decode, Option.bind_eq_bind, Option.bind_some]
  rw [htake, hdrop, if_neg (not_not.2 (by rw [List.length_append, hbuf, hcheck])),
    if_neg (not_not.2 rfl), List.drop_left, arrayOf_toList, List.take_left]
  rfl

theorem base58checkDecode_encode (hL : L.Documented) (version : UInt8) (payload : Hash160) :
    base58checkDecode L (base58checkEncode L version payload) = some (version, payload) :=
  congrArg (Option.map _) (checkedDecode_encode hL [version] payload)

theorem toNat_lt_of_mem {bs : List UInt8} {b : ℕ} (h : b ∈ bs.map UInt8.toNat) : b < 256 := by
  obtain ⟨x, -, rfl⟩ := List.mem_map.1 h
  exact x.toNat_lt

theorem size_bs58Encode (hL : L.Documented) (bs : List UInt8) :
    (L.bs58Encode bs).utf8ByteSize ≤ 2 * bs.length := by
  have hascii : ∀ c ∈ Base58.alphabet, c.utf8Size = 1 :=
    List.all_iff_forall_prop.1 (by decide +kernel)
  rw [utf8ByteSize_of_ascii fun c hc => hascii c (Base58.encode_subset _ c (hL.bs58Encode bs ▸ hc)),
    hL.bs58Encode]
  refine (Base58.length_encode_le fun b => toNat_lt_of_mem).trans ?_
  rw [List.length_map]

theorem length_checked (version : List UInt8) (payload : Hash160) :
    (version ++ payload.toList ++ L.checksum (version ++ payload.toList)).length =
      version.length + 24 := by
  simp [AddressLib.checksum]

theorem size_checkedEncode (hL : L.Documented) (version : List UInt8) (payload : Hash160) :
    (checkedEncode L version payload).utf8ByteSize ≤ 2 * (version.length + 24) := by
  rw [← @length_checked L version payload]
  exact size_bs58Encode hL _

/-- With such a version the text starts with a `t`. -/
theorem head_checkedEncode (hL : L.Documented) {version : List UInt8} (payload : Hash160)
    (hlen : version.length = 2) (hzero : version.head? ≠ some 0)
    (hlow : 51 * 58 ^ 34 ≤ BigEndian.value 256 (version.map UInt8.toNat) * 256 ^ 24)
    (hhigh : (BigEndian.value 256 (version.map UInt8.toNat) + 1) * 256 ^ 24 ≤ 52 * 58 ^ 34) :
    (checkedEncode L version payload).toList.head? = some 't' := by
  set rest := payload.toList ++ L.checksum (version ++ payload.toList) with hrest
  have hcount : (rest.map UInt8.toNat).length = 24 := by simp [hrest, AddressLib.checksum]
  have hvalue : BigEndian.value 256 ((version ++ rest).map UInt8.toNat) =
      BigEndian.value 256 (rest.map UInt8.toNat) +
        256 ^ 24 * BigEndian.value 256 (version.map UInt8.toNat) := by
    rw [List.map_append, BigEndian.value_append, hcount]
  have hlt : BigEndian.value 256 (rest.map UInt8.toNat) < 256 ^ 24 := by
    rw [← hcount]
    exact BigEndian.value_lt (by norm_num) fun b => toNat_lt_of_mem
  have hdiv : BigEndian.value 256 ((version ++ rest).map UInt8.toNat) / 58 ^ 34 = 51 := by
    rw [Nat.div_eq_iff (by positivity)]
    omega
  have hhead : ((version ++ rest).map UInt8.toNat).head? ≠ some 0 := by
    obtain ⟨a, b, rfl⟩ := List.length_eq_two.1 hlen
    intro h
    refine hzero (congrArg some (UInt8.toNat_inj.1 ?_))
    exact Option.some.inj h
  have hfirst := Base58.head_encode (k := 34) hhead (by omega) (by omega)
  rw [hdiv] at hfirst
  rw [checkedEncode, List.append_assoc, ← hrest, hL.bs58Encode, hfirst]
  rfl

/-- The versions of ZER. -/
theorem zcashT1Decode_encode (hL : L.Documented) {version : UInt8 × UInt8}
    (hversion : version = zcashT1Mainnet ∨ version = zcashT1Testnet) (payload : Hash160) :
    zcashT1Decode L (zcashT1Encode L version payload) = some (version, payload) := by
  have hhead : (zcashT1Encode L version payload).toList.head? = some 't' := by
    rcases hversion with rfl | rfl <;>
      exact head_checkedEncode hL payload rfl (by decide) (by decide +kernel) (by decide +kernel)
  rw [zcashT1Decode, if_neg (not_not.2 hhead)]
  exact congrArg (Option.map _) (checkedDecode_encode hL [version.1, version.2] payload)

theorem bech32P2wpkhDecode_encode (hL : L.Documented) {hrp : String} (hne : hrp ≠ "")
    (hlower : ∀ c ∈ hrp.toList, c.isLower) (hash : Hash160) :
    bech32P2wpkhDecode L hrp (bech32P2wpkhEncode L hrp hash) = some hash := by
  rw [bech32P2wpkhDecode, bech32P2wpkhEncode, hL.bech32 _ _ _ hne hlower, Option.bind_some]
  dsimp only
  rw [if_neg (by simp), if_neg (by simp), hL.base32, Option.bind_some, arrayOf_toList]

/-- The case says nothing of the digit. -/
theorem eip55Char_spec (hash : Vector UInt8 32) {n : ℕ} (hn : n < 16) (i : ℕ) :
    Hex.digit? (eip55Char hash (Nat.digitChar n) i) = some n ∧
      isAsciiHexdigit (eip55Char hash (Nat.digitChar n) i) := by
  have hcases : ∀ n < 16, (Hex.digit? (Nat.digitChar n) = some n ∧ isAsciiHexdigit (Nat.digitChar n)) ∧
      ((Nat.digitChar n).isDigit = false → Hex.digit? (Nat.digitChar n).toUpper = some n ∧
        isAsciiHexdigit (Nat.digitChar n).toUpper) := by decide +kernel
  unfold eip55Char
  split
  · exact (hcases n hn).1
  · rename_i hdigit
    dsimp only
    split
    · split
      · exact (hcases n hn).2 (Bool.eq_false_iff.2 hdigit)
      · exact (hcases n hn).1
    · split
      · exact (hcases n hn).2 (Bool.eq_false_iff.2 hdigit)
      · exact (hcases n hn).1

theorem eip55Encode_spec (hL : L.Documented) (addr : Hash160) : ∃ hexPart : String,
    eip55Encode L addr = "0x" ++ hexPart ∧ hexPart.utf8ByteSize = 40 ∧
      hexPart.toList.all isAsciiHexdigit ∧ L.hexDecode hexPart = .ok addr.toList := by
  have hbytes : ∀ b ∈ addr.toList.map UInt8.toNat, b < 256 := fun b => toNat_lt_of_mem
  have hhex := hL.hexEncode addr.toList
  set hash := L.keccak256 (L.hexEncode addr.toList).toUTF8.toList with hhash
  set cs := (Hex.encode (addr.toList.map UInt8.toNat)).zipIdx.map fun x => eip55Char hash x.1 x.2
    with hcs
  have hmem {c : Char} {i : ℕ} (h : (c, i) ∈ (Hex.encode (addr.toList.map UInt8.toNat)).zipIdx) :
      ∃ n < 16, c = Nat.digitChar n := Hex.encode_subset hbytes c (List.fst_mem_of_mem_zipIdx h)
  have hdigits : ∀ c ∈ cs, isAsciiHexdigit c := by
    intro c hc
    obtain ⟨⟨d, i⟩, hd, rfl⟩ := List.mem_map.1 hc
    obtain ⟨n, hn, rfl⟩ := hmem hd
    exact (eip55Char_spec hash hn i).2
  have hdecode : Hex.decode cs = some (addr.toList.map UInt8.toNat) := by
    rw [← Hex.decode_encode hbytes]
    refine Hex.decode_congr ?_
    rw [hcs, List.map_map, ← List.zipIdx_map_fst 0 (Hex.encode _), List.map_map,
      List.zipIdx_map_fst]
    refine List.map_congr_left fun ⟨c, i⟩ hc => ?_
    obtain ⟨n, hn, rfl⟩ := hmem hc
    exact (eip55Char_spec hash hn i).1.trans (Hex.digit?_digitChar hn).symm
  refine ⟨String.ofList cs, ?_, ?_, ?_, ?_⟩
  · rw [eip55Encode, hhex]
  · rw [utf8ByteSize_of_ascii, String.toList_ofList, hcs, List.length_map, List.length_zipIdx,
      Hex.length_encode, List.length_map, Vector.length_toList]
    rw [String.toList_ofList]
    exact fun c hc => utf8Size_of_isAsciiHexdigit (hdigits c hc)
  · rw [String.toList_ofList, List.all_eq_true]
    exact hdigits
  · have hbyte : UInt8.ofNat ∘ UInt8.toNat = id := funext fun b => UInt8.ofNat_toNat
    rw [hL.hexDecode _ _ (by rw [String.toList_ofList]; exact hdecode), List.map_map, hbyte,
      List.map_id]

theorem eip55Validate_encode (hL : L.Documented) (addr : Hash160) :
    eip55Validate L (eip55Encode L addr) = true := by
  obtain ⟨hexPart, hencode, hsize, hdigits, hdecode⟩ := eip55Encode_spec hL addr
  have hstrip : strip0x (eip55Encode L addr) = some hexPart := by
    have hprefix : "0x".toList.isPrefixOf ("0x".toList ++ hexPart.toList) :=
      List.isPrefixOf_iff_prefix.2 (List.prefix_append _ _)
    rw [strip0x, hencode, String.toList_append, stripPrefix, if_pos hprefix, List.drop_left,
      Option.map_some, String.ofList_toList]
  rw [eip55Validate, hstrip]
  dsimp only
  rw [if_neg (by rw [hsize, hdigits]; simp)]
  split
  · rfl
  · rw [hdecode]
    dsimp only
    rw [arrayOf_toList]
    exact beq_self_eq_true _

end

end SatsPay
