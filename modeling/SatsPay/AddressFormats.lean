import SatsPay.AddressKeys

/-!
# The formats in base 58

Base58Check, `t1` and Solana have the same alphabet. What is accepted was made by the encoder of
the format, and the length of what it stands for tells the formats apart.
-/

namespace SatsPay

section
variable {L : AddressLib}

/-- `bs58` reads what it writes, and nothing else. -/
def AddressLib.Canonical (L : AddressLib) : Prop :=
  ∀ s bs, L.bs58Decode s = some bs → L.bs58Encode bs = s

/-- What is accepted is a version, a hash, and what checks them. -/
theorem checkedDecode_eq_some {n : ℕ} {s : String} {version : List UInt8} {hash : Hash160}
    (h : checkedDecode L n s = some (version, hash)) :
    ∃ data, L.bs58Decode s = some data ∧ data.length = n + 24 ∧ version.length = n ∧
      data = version ++ hash.toList ++ L.checksum (version ++ hash.toList) := by
  unfold checkedDecode at h
  obtain ⟨data, hdata, h⟩ := Option.bind_eq_some_iff.1 h
  dsimp only at h
  by_cases hlen : data.length = n + 24
  swap
  · rw [if_pos hlen] at h
    cases h
  rw [if_neg (not_not.2 hlen)] at h
  by_cases hcheck : L.checksum (data.take (n + 20)) = data.drop (n + 20)
  swap
  · rw [if_pos hcheck] at h
    cases h
  rw [if_neg (not_not.2 hcheck)] at h
  obtain ⟨hash', hhash, h⟩ := Option.bind_eq_some_iff.1 h
  obtain ⟨rfl, rfl⟩ := Prod.mk.inj (Option.some.inj h)
  have hpayload : (data.take (n + 20)).length = n + 20 := by
    rw [List.length_take, hlen]
    omega
  obtain ⟨v, hv, hlist⟩ := @arrayOf_eq_some 20 ((data.take (n + 20)).drop n)
    (by rw [List.length_drop, hpayload]; omega)
  obtain rfl : v = hash' := Option.some.inj (hv.symm.trans hhash)
  refine ⟨data, hdata, hlen, by rw [List.length_take, hpayload]; omega, ?_⟩
  rw [hlist, List.take_append_drop, hcheck, List.take_append_drop]

theorem checkedEncode_of_decode (hL : L.Canonical) {n : ℕ} {s : String} {version : List UInt8}
    {hash : Hash160} (h : checkedDecode L n s = some (version, hash)) :
    version.length = n ∧ checkedEncode L version hash = s := by
  obtain ⟨data, hdata, -, hn, rfl⟩ := checkedDecode_eq_some h
  exact ⟨hn, hL s _ hdata⟩

theorem base58checkEncode_of_decode (hL : L.Canonical) {s : String} {version : UInt8}
    {hash : Hash160} (h : base58checkDecode L s = some (version, hash)) :
    base58checkEncode L version hash = s := by
  obtain ⟨⟨bytes, hash'⟩, hchecked, h⟩ := Option.map_eq_some_iff.1 h
  obtain ⟨rfl, rfl⟩ := Prod.mk.inj h
  obtain ⟨hn, hs⟩ := checkedEncode_of_decode hL hchecked
  obtain ⟨b, rfl⟩ := List.length_eq_one_iff.1 hn
  exact hs

theorem checkedDecode_of_zcashT1Decode {s : String} {version : UInt8 × UInt8} {hash : Hash160}
    (h : zcashT1Decode L s = some (version, hash)) :
    ∃ bytes, checkedDecode L 2 s = some (bytes, hash) ∧
      version = (bytes.headD 0, bytes.tail.headD 0) := by
  unfold zcashT1Decode at h
  split at h
  · cases h
  obtain ⟨⟨bytes, hash'⟩, hchecked, h⟩ := Option.map_eq_some_iff.1 h
  obtain ⟨rfl, rfl⟩ := Prod.mk.inj h
  exact ⟨bytes, hchecked, rfl⟩

theorem zcashT1Encode_of_decode (hL : L.Canonical) {s : String} {version : UInt8 × UInt8}
    {hash : Hash160} (h : zcashT1Decode L s = some (version, hash)) :
    zcashT1Encode L version hash = s := by
  obtain ⟨bytes, hchecked, rfl⟩ := checkedDecode_of_zcashT1Decode h
  obtain ⟨hn, hs⟩ := checkedEncode_of_decode hL hchecked
  obtain ⟨b, c, rfl⟩ := List.length_eq_two.1 hn
  exact hs

/-- How many bytes an accepted text stands for. -/
theorem length_of_accepted {s : String} {bs : List UInt8} (hs : L.bs58Decode s = some bs) :
    ((base58checkDecode L s).isSome → bs.length = 25) ∧
      ((zcashT1Decode L s).isSome → bs.length = 26) ∧
      ((solanaAddressDecode L s).isSome → bs.length = 32) := by
  refine ⟨fun h => ?_, fun h => ?_, fun h => ?_⟩
  · obtain ⟨decoded, h⟩ := Option.isSome_iff_exists.1 h
    obtain ⟨⟨bytes, hash⟩, hchecked, -⟩ := Option.map_eq_some_iff.1 h
    obtain ⟨data, hdata, hlen, -⟩ := checkedDecode_eq_some hchecked
    rwa [Option.some.inj (hs.symm.trans hdata)]
  · obtain ⟨⟨version, hash⟩, h⟩ := Option.isSome_iff_exists.1 h
    obtain ⟨bytes, hchecked, -⟩ := checkedDecode_of_zcashT1Decode h
    obtain ⟨data, hdata, hlen, -⟩ := checkedDecode_eq_some hchecked
    rwa [Option.some.inj (hs.symm.trans hdata)]
  · rw [solanaAddressDecode, hs, Option.bind_some, arrayOf] at h
    by_contra hlen
    rw [dif_neg hlen] at h
    cases h

theorem decoded_of_accepted {s : String} (h : (base58checkDecode L s).isSome ∨
    (zcashT1Decode L s).isSome ∨ (solanaAddressDecode L s).isSome) :
    ∃ bs, L.bs58Decode s = some bs := by
  cases hs : L.bs58Decode s with
  | some bs => exact ⟨bs, rfl⟩
  | none =>
    have hchecked (n : ℕ) : checkedDecode L n s = none := by rw [checkedDecode, hs]; rfl
    rcases h with h | h | h
    · rw [base58checkDecode, hchecked] at h
      cases h
    · rw [zcashT1Decode, hchecked] at h
      split at h <;> cases h
    · rw [solanaAddressDecode, hs] at h
      cases h

/-- Addresses of the three formats are read back, only what an encoder makes is accepted, and no
text is an address of two formats. -/
theorem base58_formats (hL : L.Documented) (hcanonical : L.Canonical) :
    (∀ version hash, base58checkDecode L (base58checkEncode L version hash) = some (version, hash)) ∧
    (∀ version hash, version = zcashT1Mainnet ∨ version = zcashT1Testnet →
      zcashT1Decode L (zcashT1Encode L version hash) = some (version, hash)) ∧
    (∀ s version hash, base58checkDecode L s = some (version, hash) →
      base58checkEncode L version hash = s) ∧
    (∀ s version hash, zcashT1Decode L s = some (version, hash) →
      zcashT1Encode L version hash = s) ∧
    (∀ s, ¬ ((base58checkDecode L s).isSome ∧ (zcashT1Decode L s).isSome)) ∧
    ∀ s, (∃ key, s = solanaAddressEncode L key) ∨ (solanaAddressDecode L s).isSome →
      base58checkDecode L s = none ∧ zcashT1Decode L s = none := by
  refine ⟨base58checkDecode_encode hL, fun version hash h => zcashT1Decode_encode hL h hash,
    fun s version hash => base58checkEncode_of_decode hcanonical,
    fun s version hash => zcashT1Encode_of_decode hcanonical, ?_, ?_⟩
  · rintro s ⟨h₁, h₂⟩
    obtain ⟨bs, hs⟩ := decoded_of_accepted (.inl h₁)
    have hlen := (length_of_accepted hs).1 h₁
    rw [(length_of_accepted hs).2.1 h₂] at hlen
    cases hlen
  · intro s h
    have hsol : (solanaAddressDecode L s).isSome := by
      rcases h with ⟨key, rfl⟩ | h
      · rw [(solAddress_spec hL key).2]
        rfl
      · exact h
    obtain ⟨bs, hs⟩ := decoded_of_accepted (.inr (.inr hsol))
    have hlen := (length_of_accepted hs).2.2 hsol
    constructor
    · by_contra hne
      rw [(length_of_accepted hs).1 (Option.isSome_iff_ne_none.2 hne)] at hlen
      cases hlen
    · by_contra hne
      rw [(length_of_accepted hs).2.1 (Option.isSome_iff_ne_none.2 hne)] at hlen
      cases hlen

end

theorem canonical_plainAddresses : plainAddresses.Canonical := by
  intro s bs h
  obtain ⟨ns, hns, rfl⟩ := Option.map_eq_some_iff.1 h
  have hlt := Base58.decode_lt hns
  have hround : (ns.map UInt8.ofNat).map UInt8.toNat = ns := by
    rw [List.map_map]
    exact (List.map_congr_left fun n hn => UInt8.toNat_ofNat_of_lt' (hlt n hn)).trans (List.map_id _)
  show String.ofList (Base58.encode ((ns.map UInt8.ofNat).map UInt8.toNat)) = s
  rw [hround, (Base58.decode_eq_some_iff hlt).1 hns, String.ofList_toList]

theorem dogecoin_format : base58checkDecode plainAddresses
    (base58checkEncode plainAddresses 0x1e (.replicate 20 7)) = some (0x1e, .replicate 20 7) :=
  (base58_formats documented_plainAddresses canonical_plainAddresses).1 0x1e _

end SatsPay
