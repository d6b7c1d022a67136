import SatsPay.Addresses

/-!
# The addresses of the client

The keys of a mnemonic or of an extended public key, and their addresses. Whatever the key,
its address passes the check.
-/

namespace SatsPay

structure HdLib where
  Xpriv : Type
  Xpub : Type
  SecretKey : Type
  PublicKey : Type
  /-- `pbkdf2` of a mnemonic, with the salt "mnemonic" -/
  pbkdf2 : String → List UInt8
  newMaster : List UInt8 → Except String Xpriv
  /-- A path by name, and then children by their number. -/
  derivePath : Xpriv → String → Except String Xpriv
  fromNormalIdx : ℕ → Except String ℕ
  derivePriv : Xpriv → List ℕ → Except String Xpriv
  secretBytes : Xpriv → Vector UInt8 32
  xpubFromStr : String → Except String Xpub
  derivePub : Xpub → List ℕ → Except String PublicKey
  secretKeyFromSlice : Vector UInt8 32 → Except String SecretKey
  publicKey : SecretKey → PublicKey
  serialize : PublicKey → List UInt8
  serializeUncompressed : PublicKey → List UInt8
  hmacSha256 : List UInt8 → List UInt8 → Vector UInt8 32
  /-- The public key of an ed25519 secret. -/
  verifyingKey : Vector UInt8 32 → Vector UInt8 32

section
variable (L : AddressLib) (H : HdLib)

/-! ## Solana -/

def deriveSolSecret (master domain : List UInt8) (index : ℕ) : Vector UInt8 32 :=
  H.hmacSha256 master (domain ++ (beBytes 4 index).map UInt8.ofNat)

def solAddressFromSecret (secret : Vector UInt8 32) : String :=
  solanaAddressEncode L (H.verifyingKey secret)

def solMasterFromHotKey (hotKey : String) : List UInt8 :=
  let trimmed := String.ofList (trim hotKey.toList)
  let clean := (strip0x trimmed).getD trimmed
  (L.sha256 ("bitcosats-sol-master".toUTF8.toList ++ clean.toUTF8.toList)).toList

/-! ## Derivation -/

/-- The account of a coin; its addresses are `{account}/0/{index}`. -/
def accountPath : Coin → String
  | .btc => "m/84'/0'/0'"
  | .ltc => "m/84'/2'/0'"
  | .doge => "m/44'/3'/0'"
  | .bch => "m/44'/145'/0'"
  | .dgb => "m/84'/20'/0'"
  | .pol | .usdt | .usdc | .pepe => "m/44'/60'/0'"
  | .sol => "m/44'/501'/0'"
  | .zer => "m/44'/323'/0'"

def deriveSecpSecret (mnemonic : String) (coin : Coin) (index : ℕ) :
    Except String (Vector UInt8 32) := do
  let master ← H.newMaster (H.pbkdf2 mnemonic)
  let account ← H.derivePath master (accountPath coin)
  let path ← [0, index].mapM H.fromNormalIdx
  let child ← H.derivePriv account path
  pure (H.secretBytes child)

inductive HdError where
  | invalidXpub (e : String)
  | invalidIndex (index : ℕ)
  | derivationFailed (e : String)

def HdError.text : HdError → String
  | .invalidXpub e => "invalid extended public key: " ++ e
  | .invalidIndex index => s!"child index {index} is not a valid non-hardened BIP32 index"
  | .derivationFailed e => "derivation failed: " ++ e

def deriveReceivePubkey (xpubStr : String) (index : ℕ) : Except HdError H.PublicKey := do
  let xpub ← (H.xpubFromStr xpubStr).mapError .invalidXpub
  let path ← [0, index].mapM fun i => (H.fromNormalIdx i).mapError fun _ => .invalidIndex i
  (H.derivePub xpub path).mapError .derivationFailed

/-! ## Addresses -/

def addressOfKey (kind : AddressKind) (pk : H.PublicKey) (sol : String) : String :=
  match kind with
  | .bech32Segwit hrp _ => bech32P2wpkhEncode L hrp (L.hash160 (H.serialize pk))
  | .base58Only version => base58checkEncode L version (L.hash160 (H.serialize pk))
  | .cashAddr pre => cashaddrEncode pre (L.hash160 (H.serialize pk))
  | .evm => eip55Encode L (evmAddressFromUncompressedPubkey L ((H.serializeUncompressed pk).drop 1))
  | .solana => sol
  | .zcashTransparent version => zcashT1Encode L version (L.hash160 (H.serialize pk))

def addressFromSecretBytes (coin : Coin) (network : ChainNetwork) (secret : Vector UInt8 32) :
    Except String String := do
  let sk ← H.secretKeyFromSlice secret
  pure (addressOfKey L H (addressKindFor coin network) (H.publicKey sk)
    (solAddressFromSecret L H secret))

def solDepositDomain : List UInt8 := "bitcosats-sol-deposit".toUTF8.toList

def addressFromMnemonic (mnemonic : String) (coin : Coin) (network : ChainNetwork) (index : ℕ) :
    Except String String :=
  if coin = .sol then
    .ok (solAddressFromSecret L H
      (deriveSolSecret H (solMasterFromHotKey L mnemonic) solDepositDomain index))
  else do
    let secret ← deriveSecpSecret H mnemonic coin index
    addressFromSecretBytes L H coin network secret

structure ClientKeys where
  depositMnemonic : Option String
  depositXpub : String
  hotWalletWif : Option String

/-- `index` is the next of the coin's sequence, as `u32`. -/
def generateAddress (keys : ClientKeys) (coin : Coin) (network : ChainNetwork)
    (index : Except String ℕ) : Except String String := do
  let index ← index
  match keys.depositMnemonic with
  | some mnemonic => addressFromMnemonic L H mnemonic coin network index
  | none =>
    let pubkey ← (deriveReceivePubkey H keys.depositXpub index).mapError HdError.text
    let master := solMasterFromHotKey L (keys.hotWalletWif.getD keys.depositXpub)
    pure (addressOfKey L H (addressKindFor coin network) pubkey
      (solAddressFromSecret L H (deriveSolSecret H master solDepositDomain index)))

end

section
variable {L : AddressLib} {H : HdLib}

def AddressKind.InUse : AddressKind → Prop
  | .bech32Segwit hrp _ => hrp ≠ "" ∧ hrp.utf8ByteSize ≤ 4 ∧ ∀ c ∈ hrp.toList, c.isLower
  | .cashAddr pre => pre = "bitcoincash" ∨ pre = "bchtest"
  | .zcashTransparent version => version = zcashT1Mainnet ∨ version = zcashT1Testnet
  | _ => True

theorem inUse_addressKindFor (coin : Coin) (network : ChainNetwork) :
    (addressKindFor coin network).InUse := by
  have segwit (hrp : String) (h : hrp.toList.all Char.isLower = true) :
      ∀ c ∈ hrp.toList, c.isLower := fun c hc => List.all_eq_true.1 h c hc
  cases coin <;> cases network <;> dsimp only [addressKindFor, AddressKind.InUse] <;>
    first
    | exact ⟨by decide +kernel, by decide +kernel, segwit _ (by decide +kernel)⟩
    | decide +kernel

theorem size_cashaddrEncode (pre : String) (hash : Hash160) (hpre : ∀ c ∈ pre.toList, c.utf8Size = 1) :
    (cashaddrEncode pre hash).utf8ByteSize = pre.toList.length + 43 := by
  have hcharset : ∀ v < 2 ^ 5, (charOf v).utf8Size = 1 := by decide +kernel
  have htext : (cashaddrEncode pre hash).toList = pre.toList ++ ':' :: cashaddrBody pre hash := by
    simp [cashaddrEncode]
  rw [utf8ByteSize_of_ascii, htext, List.length_append, List.length_cons, length_cashaddrBody]
  rw [htext]
  intro c hc
  rcases List.mem_append.1 hc with hc | hc
  · exact hpre c hc
  rcases List.mem_cons.1 hc with rfl | hc
  · decide
  · obtain ⟨v, hv, rfl⟩ := List.mem_map.1 hc
    exact hcharset v (cashaddrValues_lt pre hash v hv)

theorem solAddress_spec (hL : L.Documented) (key : Vector UInt8 32) :
    (solanaAddressEncode L key).utf8ByteSize ≤ 64 ∧
      solanaAddressDecode L (solanaAddressEncode L key) = some key := by
  have hsize := size_bs58Encode hL key.toList
  rw [Vector.length_toList] at hsize
  refine ⟨hsize, ?_⟩
  rw [solanaAddressEncode, solanaAddressDecode, hL.bs58Decode, Option.bind_some, arrayOf_toList]

/-- The address of a key passes the check. -/
theorem validate_addressOfKey (hL : L.Documented) (coin : Coin) (network : ChainNetwork)
    (pk : H.PublicKey) (secret : Vector UInt8 32) :
    validateAddress L coin network (addressOfKey L H (addressKindFor coin network) pk
      (solAddressFromSecret L H secret)) = true := by
  have hkind := inUse_addressKindFor coin network
  unfold validateAddress
  cases h : addressKindFor coin network with
  | bech32Segwit hrp legacyBase58Version =>
    rw [h] at hkind
    have hsize : (bech32P2wpkhEncode L hrp (L.hash160 (H.serialize pk))).utf8ByteSize =
        hrp.utf8ByteSize + 1 + 33 + 6 := by
      rw [bech32P2wpkhEncode, hL.size_bech32, List.length_cons, hL.length_base32,
        Vector.length_toList]
    have hshort : hrp.utf8ByteSize ≤ 4 := hkind.2.1
    rw [if_neg (by rw [addressOfKey, hsize]; omega)]
    dsimp only [addressOfKey]
    rw [bech32P2wpkhDecode_encode hL hkind.1 hkind.2.2]
    rfl
  | base58Only version =>
    have hsize := size_checkedEncode hL [version] (L.hash160 (H.serialize pk))
    rw [if_neg (by rw [addressOfKey, base58checkEncode]; simp at hsize; omega)]
    dsimp only [addressOfKey]
    rw [base58checkDecode_encode hL]
    exact beq_self_eq_true _
  | cashAddr pre =>
    rw [h] at hkind
    have hascii : pre.toList.length ≤ 11 ∧ ∀ c ∈ pre.toList, c.utf8Size = 1 := by
      rcases hkind with rfl | rfl <;>
        exact ⟨by decide +kernel, List.all_iff_forall_prop.1 (by decide +kernel)⟩
    rw [if_neg (by rw [addressOfKey, size_cashaddrEncode _ _ hascii.2]; omega)]
    dsimp only [addressOfKey]
    rw [cashaddrDecode, cashaddrEncode, bodyOf_append, decodeBody_eq_some_iff.2 rfl]
    rfl
  | evm =>
    obtain ⟨hexPart, hencode, hsize, -⟩ := eip55Encode_spec hL
      (evmAddressFromUncompressedPubkey L ((H.serializeUncompressed pk).drop 1))
    rw [if_neg (by rw [addressOfKey, hencode, String.utf8ByteSize_append, hsize]; decide)]
    exact eip55Validate_encode hL _
  | solana =>
    obtain ⟨hsize, hdecode⟩ := solAddress_spec hL (H.verifyingKey secret)
    rw [if_neg (by rw [addressOfKey, solAddressFromSecret]; omega)]
    exact congrArg Option.isSome hdecode
  | zcashTransparent version =>
    rw [h] at hkind
    have hsize := size_checkedEncode hL [version.1, version.2] (L.hash160 (H.serialize pk))
    rw [if_neg (by rw [addressOfKey, zcashT1Encode]; simp at hsize; omega)]
    dsimp only [addressOfKey]
    rw [zcashT1Validate, zcashT1Decode_encode hL hkind]
    exact beq_self_eq_true _

theorem validate_solAddress (hL : L.Documented) (network : ChainNetwork) (key : Vector UInt8 32) :
    validateAddress L .sol network (solanaAddressEncode L key) = true := by
  obtain ⟨hsize, hdecode⟩ := solAddress_spec hL key
  rw [validateAddress, if_neg (by omega)]
  cases network <;> exact congrArg Option.isSome hdecode

theorem validate_generated (hL : L.Documented) {keys : ClientKeys} {coin : Coin}
    {network : ChainNetwork} {index : Except String ℕ} {address : String}
    (h : generateAddress L H keys coin network index = .ok address) :
    validateAddress L coin network address = true := by
  obtain ⟨i, -, h⟩ := Fallible.bind_eq_ok h
  split at h
  · unfold addressFromMnemonic at h
    split at h
    · rename_i hsol
      obtain rfl := Except.ok.inj h
      rw [hsol]
      exact validate_solAddress hL network _
    · obtain ⟨secret, -, h⟩ := Fallible.bind_eq_ok h
      obtain ⟨sk, -, h⟩ := Fallible.bind_eq_ok h
      obtain rfl := Except.ok.inj h
      exact validate_addressOfKey hL coin network _ secret
  · obtain ⟨pubkey, -, h⟩ := Fallible.bind_eq_ok h
    obtain rfl := Except.ok.inj h
    exact validate_addressOfKey hL coin network pubkey _

/-- An address that passes the check is read for a broadcast as the destination that the check
decodes, and those of the client pass it. -/
theorem addresses_agree (hL : L.Documented) (coin : Coin) (network : ChainNetwork) :
    (∀ address, validateAddress L coin network address = true →
      ∃ d, checkedDestination L (addressKindFor coin network) address = some d ∧
        ReadForBroadcast L coin network address d) ∧
    ∀ (H : HdLib) keys index address, generateAddress L H keys coin network index = .ok address →
      validateAddress L coin network address = true :=
  ⟨fun _ h => read_of_validated hL h, fun _ _ _ _ h => validate_generated hL h⟩

end

/-! ### An address of each kind -/

def charOf5 (v : Fin 32) : Char := charOf v.val

instance neZeroGroup : NeZero (32 : ℕ) := ⟨by decide⟩

/-- Base 58, hexadecimals and groups of five bits; Bech32 with a check of its variant only. -/
def plainAddresses : AddressLib where
  sha256 _ := .replicate 32 0
  ripemd160 _ := .replicate 20 0
  keccak256 _ := .replicate 32 0
  bs58Encode bs := String.ofList (Base58.encode (bs.map UInt8.toNat))
  bs58Decode s := (Base58.decode s.toList).map (List.map UInt8.ofNat)
  toBase32 bs := ((BitGroups.convertBits (bs.map UInt8.toNat) 8 5 true).getD []).map (Fin.ofNat 32)
  fromBase32 gs := (BitGroups.convertBits (gs.map Fin.val) 5 8 false).map (List.map UInt8.ofNat)
  bech32Encode hrp data variant := hrp ++ String.ofList ('1' :: data.map charOf5 ++
    List.replicate 6 (if variant = .bech32 then 'q' else 'p'))
  bech32Decode s :=
    let rest := s.toList.reverse.drop 6
    ((rest.takeWhile (· != '1')).reverse.mapM fun c =>
      (cashaddrCharset.idxOf? c).map (Fin.ofNat 32)).map fun data =>
        (String.ofList ((rest.dropWhile (· != '1')).drop 1).reverse, data,
          if s.toList.reverse.head? = some 'q' then .bech32 else .bech32m)
  hexEncode bs := String.ofList (Hex.encode (bs.map UInt8.toNat))
  hexDecode s := match Hex.decode s.toList with
    | some bs => .ok (bs.map UInt8.ofNat)
    | none => .error "Invalid character"

theorem map_ofNat_toNat (bs : List UInt8) : (bs.map UInt8.toNat).map UInt8.ofNat = bs := by
  have hbyte : UInt8.ofNat ∘ UInt8.toNat = id := funext fun b => UInt8.ofNat_toNat
  rw [List.map_map, hbyte, List.map_id]

theorem toBase32_spec (bs : List UInt8) :
    (plainAddresses.toBase32 bs).map Fin.val =
        (BitGroups.convertBits (bs.map UInt8.toNat) 8 5 true).getD [] ∧
      plainAddresses.fromBase32 (plainAddresses.toBase32 bs) = some bs ∧
      (plainAddresses.toBase32 bs).length = (8 * bs.length + 4) / 5 := by
  have hbytes : ∀ b ∈ bs.map UInt8.toNat, b < 2 ^ 8 := fun b => toNat_lt_of_mem
  obtain ⟨out, k, hout, hlt, hk, hbits⟩ :=
    BitGroups.convertBits_pad (a := 8) (b := 5) (by norm_num) (by norm_num) hbytes
  have hvals : (plainAddresses.toBase32 bs).map Fin.val = out := by
    show (((BitGroups.convertBits (bs.map UInt8.toNat) 8 5 true).getD []).map (Fin.ofNat 32)).map
      Fin.val = out
    rw [hout, Option.getD_some, List.map_map]
    exact (List.map_congr_left fun g hg => Nat.mod_eq_of_lt (hlt g hg)).trans (List.map_id out)
  have hlen := congrArg List.length hbits
  rw [BitGroups.length_bitsOfGroups, List.length_append, BitGroups.length_bitsOfGroups,
    List.length_map, List.length_replicate] at hlen
  have hcount := congrArg List.length hvals
  rw [List.length_map] at hcount
  refine ⟨by rw [hvals, hout, Option.getD_some], ?_, by omega⟩
  show (BitGroups.convertBits ((plainAddresses.toBase32 bs).map Fin.val) 5 8 false).map
    (List.map UInt8.ofNat) = some bs
  rw [hvals, (BitGroups.convertBits_inverse (by norm_num) (by norm_num) (by norm_num) hbytes
    hlt).2 hout, Option.map_some, map_ofNat_toNat]

theorem bech32_plainAddresses (hrp : String) (data : List (Fin 32)) (variant : Bech32Variant) :
    plainAddresses.bech32Decode (plainAddresses.bech32Encode hrp data variant) =
      some (hrp, data, variant) := by
  have hchars : ∀ c ∈ data.map charOf5, (c != '1') = true := by
    have h : ∀ v : Fin 32, (charOf5 v != '1') = true := by decide +kernel
    intro c hc
    obtain ⟨v, -, rfl⟩ := List.mem_map.1 hc
    exact h v
  have hvalues : (data.map charOf5).mapM (fun c =>
      (cashaddrCharset.idxOf? c).map (Fin.ofNat 32)) = some data := by
    clear hchars
    induction data with
    | nil => rfl
    | cons v data ih =>
      have hv : Fin.ofNat 32 v.val = v := Fin.ext (Nat.mod_eq_of_lt v.isLt)
      rw [List.map_cons, List.mapM_cons, ih, charOf5, (idxOf_charOf v.isLt).1, Option.map_some, hv]
      rfl
  obtain ⟨q, hq⟩ : ∃ q, q = if variant = .bech32 then 'q' else 'p' := ⟨_, rfl⟩
  have htext : (plainAddresses.bech32Encode hrp data variant).toList =
      hrp.toList ++ ('1' :: data.map charOf5) ++ List.replicate 6 q := by
    rw [hq]
    simp [plainAddresses]
  have hreverse : (plainAddresses.bech32Encode hrp data variant).toList.reverse =
      List.replicate 6 q ++ ((data.map charOf5).reverse ++ '1' :: hrp.toList.reverse) := by
    rw [htext, List.reverse_append, List.reverse_replicate, List.reverse_append, List.reverse_cons,
      List.append_assoc]
    rfl
  have hall : ∀ c ∈ (data.map charOf5).reverse, (c != '1') = true := fun c hc =>
    hchars c (List.mem_reverse.1 hc)
  show Option.map _ (List.mapM _ _) = _
  rw [hreverse, List.drop_left' List.length_replicate, List.takeWhile_append_of_pos hall,
    List.dropWhile_append_of_pos hall, List.takeWhile_cons_of_neg (by decide),
    List.dropWhile_cons_of_neg (by decide), List.append_nil, List.reverse_reverse, hvalues,
    Option.map_some, List.drop_one, List.tail_cons, List.reverse_reverse, String.ofList_toList,
    List.replicate_succ, List.cons_append, List.head?_cons]
  cases variant <;> simp [hq]

theorem documented_plainAddresses : plainAddresses.Documented where
  bs58Encode bs := String.toList_ofList
  bs58Decode bs := by
    show (Base58.decode (String.ofList _).toList).map _ = _
    rw [String.toList_ofList, Base58.decode_encode fun b => toNat_lt_of_mem, Option.map_some,
      map_ofNat_toNat]
  base32 bs := (toBase32_spec bs).2.1
  length_base32 bs := (toBase32_spec bs).2.2
  bech32 hrp data variant _ _ := bech32_plainAddresses hrp data variant
  size_bech32 hrp data variant := by
    have hcharset : ∀ v : Fin 32, (charOf5 v).utf8Size = 1 := by decide +kernel
    show (hrp ++ String.ofList _).utf8ByteSize = _
    rw [String.utf8ByteSize_append, utf8ByteSize_of_ascii (s := String.ofList _)]
    · simp
      omega
    · intro c hc
      simp only [String.toList_ofList, List.mem_append, List.mem_cons, List.mem_map,
        List.mem_replicate] at hc
      rcases hc with (rfl | ⟨v, -, rfl⟩) | ⟨-, rfl⟩
      · decide
      · exact hcharset v
      · split <;> decide
  hexEncode bs := String.toList_ofList
  hexDecode s bs h := by
    show (match Hex.decode s.toList with | some bs => _ | none => _) = _
    rw [h]

def plainKeys : HdLib where
  Xpriv := List ℕ
  Xpub := Unit
  SecretKey := Vector UInt8 32
  PublicKey := Vector UInt8 32
  pbkdf2 mnemonic := mnemonic.toUTF8.toList
  newMaster _ := .ok []
  derivePath key _ := .ok key
  fromNormalIdx i := if i < 2 ^ 31 then .ok i else .error "hardened"
  derivePriv key path := .ok (key ++ path)
  secretBytes key := .replicate 32 (.ofNat key.sum)
  xpubFromStr _ := .ok ()
  derivePub _ path := .ok (.replicate 32 (.ofNat path.sum))
  secretKeyFromSlice secret := .ok secret
  publicKey sk := sk
  serialize pk := 2 :: pk.toList
  serializeUncompressed pk := 4 :: (pk.toList ++ pk.toList)
  hmacSha256 _ message := (Vector.replicate 31 0).push (message.getLastD 0)
  verifyingKey secret := secret

def mnemonicOnly : ClientKeys := ⟨some "abandon ability able", "", none⟩

/-- The system program's address is read for a broadcast, and so is one generated of each kind. -/
theorem sixKinds_agree : ∃ (L : AddressLib) (H : HdLib),
    (∃ d, checkedDestination L (addressKindFor .sol .mainnet) "11111111111111111111111111111111" =
      some d ∧ ReadForBroadcast L .sol .mainnet "11111111111111111111111111111111" d) ∧
    ∀ coin ∈ [Coin.btc, .doge, .bch, .pol, .sol, .zer], ∃ address d,
      generateAddress L H mnemonicOnly coin .mainnet (.ok 3) = .ok address ∧
      checkedDestination L (addressKindFor coin .mainnet) address = some d ∧
        ReadForBroadcast L coin .mainnet address d := by
  have hall (coin : Coin) := addresses_agree documented_plainAddresses coin .mainnet
  refine ⟨plainAddresses, plainKeys, (hall .sol).1 _ (by decide +kernel), fun coin _ => ?_⟩
  obtain ⟨address, h⟩ : ∃ address, generateAddress plainAddresses plainKeys mnemonicOnly coin
      .mainnet (.ok 3) = .ok address := by
    cases coin <;> exact ⟨_, rfl⟩
  obtain ⟨d, hd⟩ := (hall coin).1 address ((hall coin).2 plainKeys mnemonicOnly _ address h)
  exact ⟨address, d, h, hd⟩

end SatsPay
