import SatsPay.SignedRequests

/-!
# Allowlists of addresses

An entry is an address or a block of addresses, and an IPv4 address stands for its mapped
IPv6 address. A block of IPv6 addresses matches none that is mapped, on either side, and the
sign of a length is not seen.
-/

namespace SatsPay

/-! ## Characters of addresses -/

def isAddrChar (c : Char) : Bool := (fromHexDigit c).isSome || c == '.' || c == ':'

def Eats (s rest : List Char) : Prop := ∃ used, s = used ++ rest ∧ ∀ c ∈ used, isAddrChar c

theorem Eats.refl (s : List Char) : Eats s s := ⟨[], rfl, nofun⟩

theorem Eats.trans {s t u : List Char} (h : Eats s t) (h' : Eats t u) : Eats s u := by
  obtain ⟨x, rfl, hx⟩ := h
  obtain ⟨y, rfl, hy⟩ := h'
  refine ⟨x ++ y, (List.append_assoc _ _ _).symm, fun c hc => ?_⟩
  rcases List.mem_append.1 hc with hc | hc
  · exact hx c hc
  · exact hy c hc

section
variable {s rest : List Char} {c : Char} {index : ℕ}

theorem eats_readGivenChar (hc : isAddrChar c) (h : readGivenChar c s = some rest) :
    Eats s rest := by
  cases s with
  | nil => cases h
  | cons d s =>
    by_cases hd : d = c
    · obtain rfl := Option.some.inj ((if_pos hd).symm.trans h)
      exact ⟨[d], rfl, fun x hx => by rwa [List.mem_singleton.1 hx, hd]⟩
    · exact absurd ((if_neg hd).symm.trans h) nofun

theorem eats_readSeparator {α : Type} {inner : List Char → Option (α × List Char)} {a : α}
    (hc : isAddrChar c) (hinner : ∀ s a rest, inner s = some (a, rest) → Eats s rest)
    (h : readSeparator c index inner s = some (a, rest)) : Eats s rest := by
  unfold readSeparator at h
  split at h
  · exact hinner _ _ _ h
  · obtain ⟨t, ht, h⟩ := Option.bind_eq_some_iff.1 h
    exact (eats_readGivenChar hc ht).trans (hinner _ _ _ h)

theorem isAddrChar_of_toDigit {radix : ℕ} (h : (toDigit radix c).isSome) : isAddrChar c := by
  obtain ⟨n, hn⟩ := Option.isSome_iff_exists.1 h
  have hsome : (fromHexDigit c).isSome := Option.isSome_of_eq_some (Option.filter_eq_some_iff.1 hn).1
  simp [isAddrChar, hsome]

theorem eats_readNumber {radix maxDigits n : ℕ} {zeros : Bool}
    (h : readNumber radix maxDigits zeros s = some (n, rest)) : Eats s rest := by
  unfold readNumber at h
  dsimp only at h
  split at h
  · cases h
  split at h
  · cases h
  split at h
  · cases h
  cases h
  refine ⟨_, List.takeWhile_append_dropWhile.symm, fun d hd => ?_⟩
  exact isAddrChar_of_toDigit (List.mem_takeWhile_imp (p := fun c => (toDigit radix c).isSome) hd)

theorem eats_readOctet {n : ℕ} (h : readOctet index s = some (n, rest)) : Eats s rest :=
  eats_readSeparator (by decide) (fun _ _ _ h => eats_readNumber h)
    (Option.filter_eq_some_iff.1 h).1

theorem eats_readIpv4Addr {b : BitVec 32} (h : readIpv4Addr s = some (b, rest)) :
    Eats s rest := by
  unfold readIpv4Addr at h
  obtain ⟨⟨o0, s₀⟩, h₀, h⟩ := Option.bind_eq_some_iff.1 h
  obtain ⟨⟨o1, s₁⟩, h₁, h⟩ := Option.bind_eq_some_iff.1 h
  obtain ⟨⟨o2, s₂⟩, h₂, h⟩ := Option.bind_eq_some_iff.1 h
  obtain ⟨⟨o3, s₃⟩, h₃, h⟩ := Option.bind_eq_some_iff.1 h
  cases h
  exact ((eats_readOctet h₀).trans (eats_readOctet h₁)).trans
    ((eats_readOctet h₂).trans (eats_readOctet h₃))

theorem eats_readGroups (left index : ℕ) (s : List Char) :
    Eats s (readGroups left index s).2.2 := by
  induction left generalizing index s with
  | zero => exact .refl s
  | succ left ih =>
    unfold readGroups
    split
    · rename_i b rest h
      split at h
      · exact eats_readSeparator (by decide) (fun _ _ _ h => eats_readIpv4Addr h) h
      · cases h
    · split
      · rename_i g rest h
        exact (eats_readSeparator (by decide) (fun _ _ _ h => eats_readNumber h) h).trans
          (ih _ _)
      · exact .refl s

theorem eats_readIpv6Addr {b : BitVec 128} (h : readIpv6Addr s = some (b, rest)) :
    Eats s rest := by
  have hhead := eats_readGroups 8 0 s
  unfold readIpv6Addr at h
  generalize readGroups 8 0 s = read at h hhead
  obtain ⟨head, headIpv4, rest₀⟩ := read
  dsimp only at h
  split at h
  · cases h; exact hhead
  split at h
  · cases h
  obtain ⟨rest₁, h₁, h⟩ := Option.bind_eq_some_iff.1 h
  obtain ⟨rest₂, h₂, h⟩ := Option.bind_eq_some_iff.1 h
  have htail := eats_readGroups (8 - (head.length + 1)) 0 rest₂
  cases h
  exact ((hhead.trans (eats_readGivenChar (by decide) h₁)).trans
    (eats_readGivenChar (by decide) h₂)).trans htail

end

theorem isAddrChar_of_parseIpAddr {s : String} {ip : IpAddr} (h : parseIpAddr s = some ip) :
    ∀ c ∈ s.toList, isAddrChar c := by
  unfold parseIpAddr at h
  obtain ⟨⟨ip', rest⟩, hread, h⟩ := Option.bind_eq_some_iff.1 h
  have heats : Eats s.toList rest := by
    rcases (Option.orElse_eq_some _ _ _).1 hread with h | ⟨-, h⟩
    · obtain ⟨⟨b, rest'⟩, hb, he⟩ := Option.map_eq_some_iff.1 h
      cases he
      exact eats_readIpv4Addr hb
    · obtain ⟨⟨b, rest'⟩, hb, he⟩ := Option.map_eq_some_iff.1 h
      cases he
      exact eats_readIpv6Addr hb
  obtain ⟨used, hs, hused⟩ := heats
  dsimp only at h
  split at h
  · rename_i hnil
    rw [hs, hnil, List.append_nil]
    exact hused
  · cases h

theorem toNat_of_isAddrChar {c : Char} (h : isAddrChar c) :
    48 ≤ c.toNat ∧ c.toNat ≤ 58 ∨ 65 ≤ c.toNat ∧ c.toNat ≤ 70 ∨ 97 ≤ c.toNat ∧ c.toNat ≤ 102 ∨
      c.toNat = 46 := by
  unfold isAddrChar at h
  rw [Bool.or_eq_true, Bool.or_eq_true, beq_iff_eq, beq_iff_eq] at h
  rcases h with (h | rfl) | rfl
  · unfold fromHexDigit at h
    split at h
    · rename_i hd
      have hd := Char.isDigit_iff_toNat.1 hd
      have h₁ : 48 ≤ c.toNat := hd.1
      have h₂ : c.toNat ≤ 57 := hd.2
      omega
    split at h
    · rename_i hd
      have h₁ : 97 ≤ c.toNat := hd.1
      have h₂ : c.toNat ≤ 102 := hd.2
      omega
    split at h
    · rename_i hd
      have h₁ : 65 ≤ c.toNat := hd.1
      have h₂ : c.toNat ≤ 70 := hd.2
      omega
    · cases h
  · decide
  · decide

section
variable {s : String} {ip : IpAddr}

theorem trim_of_parseIpAddr (h : parseIpAddr s = some ip) : trim s.toList = s.toList := by
  refine trim_eq_self fun c hc => ?_
  have hc := toNat_of_isAddrChar (isAddrChar_of_parseIpAddr h c hc)
  simp only [isWhitespace, Bool.or_eq_false_iff, Bool.and_eq_false_iff, beq_eq_false_iff_ne,
    decide_eq_false_iff_not]
  omega

theorem splitOnce_of_parseIpAddr (h : parseIpAddr s = some ip) : splitOnce '/' s.toList = none :=
  splitOnce_eq_none_iff.2 fun hc => by
    have := toNat_of_isAddrChar (isAddrChar_of_parseIpAddr h _ hc)
    exact absurd this (by decide)

end

/-! ## Blocks that entries denote -/

/-- An IPv4 address is its mapped IPv6 address. -/
def IpAddr.embedded : IpAddr → ℕ
  | .v4 a => 0xffff * 2 ^ 32 + a.toNat
  | .v6 b => b.toNat

/-- `::ffff:0:0/96` -/
def mappedRange : Cidr := ⟨0xffff * 2 ^ 32, 32⟩

/-- The first `len` bits of an address, if it has as many. -/
def IpAddr.block (len : ℕ) (ip : IpAddr) : Option Cidr :=
  match ip with
  | .v4 _ => if len ≤ 32 then some ⟨ip.embedded, 32 - len⟩ else none
  | .v6 _ => if len ≤ 128 then some ⟨ip.embedded, 128 - len⟩ else none

/-- The block that an entry denotes. The length is written in digits, without a sign. -/
def entryBlock (entry : List Char) : Option Cidr :=
  match splitOnce '/' entry with
  | none => (parseIpAddr (String.ofList entry)).map fun ip => ⟨ip.embedded, 0⟩
  | some (net, bits) => do (← parseIpAddr (String.ofList net)).block (← parseDigits bits)

@[simp] theorem IpAddr.embedded_v4 (a : BitVec 32) :
    (IpAddr.v4 a).embedded = 0xffff * 2 ^ 32 + a.toNat := rfl

@[simp] theorem IpAddr.embedded_v6 (b : BitVec 128) : (IpAddr.v6 b).embedded = b.toNat := rfl

theorem mappedRange_has_iff (n : ℕ) : mappedRange.Has n ↔ n / 2 ^ 32 = 0xffff := Iff.rfl

theorem mappedRange_has_v4 (a : BitVec 32) : mappedRange.Has (IpAddr.v4 a).embedded := by
  rw [mappedRange_has_iff, IpAddr.embedded_v4]
  omega

theorem canonicalizeIpAddr_eq_v4 {ip : IpAddr} {a : BitVec 32} :
    canonicalizeIpAddr ip = .v4 a ↔ ip.embedded = (IpAddr.v4 a).embedded := by
  have ha := a.isLt
  cases ip with
  | v4 b =>
    rw [canonicalizeIpAddr, IpAddr.embedded_v4, IpAddr.embedded_v4, IpAddr.v4.injEq, ← BitVec.toNat_inj]
    omega
  | v6 b =>
    have hb := b.isLt
    rw [canonicalizeIpAddr, IpAddr.embedded_v6, IpAddr.embedded_v4]
    by_cases hm : b.toNat / 2 ^ 32 = 0xffff
    · rw [if_pos hm, IpAddr.v4.injEq, ← BitVec.toNat_inj, BitVec.toNat_setWidth]
      omega
    · rw [if_neg hm]
      exact iff_of_false nofun (by omega)

theorem canonicalizeIpAddr_eq_v6 {ip : IpAddr} {b : BitVec 128} :
    canonicalizeIpAddr ip = .v6 b ↔ ¬ mappedRange.Has ip.embedded ∧ ip.embedded = b.toNat := by
  cases ip with
  | v4 a => exact iff_of_false nofun fun h => h.1 (mappedRange_has_v4 a)
  | v6 c =>
    rw [mappedRange_has_iff, canonicalizeIpAddr, IpAddr.embedded_v6]
    by_cases hm : c.toNat / 2 ^ 32 = 0xffff
    · rw [if_pos hm]
      exact iff_of_false nofun fun h => h.1 hm
    · rw [if_neg hm, IpAddr.v6.injEq, ← BitVec.toNat_inj]
      exact (and_iff_right hm).symm

theorem canonicalizeIpAddr_inj {ip ip' : IpAddr} :
    canonicalizeIpAddr ip = canonicalizeIpAddr ip' ↔ ip.embedded = ip'.embedded := by
  cases hc : canonicalizeIpAddr ip' with
  | v4 a => rw [canonicalizeIpAddr_eq_v4, canonicalizeIpAddr_eq_v4.1 hc]
  | v6 b =>
    obtain ⟨hm, hb⟩ := canonicalizeIpAddr_eq_v6.1 hc
    rw [canonicalizeIpAddr_eq_v6, hb]
    exact ⟨And.right, fun h => ⟨by rwa [h, ← hb], h⟩⟩

theorem samePrefix_iff {w len : ℕ} (hlen : len ≤ w) (net src : BitVec w) :
    samePrefix len net src ↔ src.toNat / 2 ^ (w - len) = net.toNat / 2 ^ (w - len) := by
  have hmask : (BitVec.allOnes w <<< (w - len)).toNat = (2 ^ len - 1) <<< (w - len) := by
    obtain ⟨k, rfl⟩ := Nat.exists_eq_add_of_le hlen
    have hones : (2 ^ (len + k) - 1) % 2 ^ len = 2 ^ len - 1 := by
      have hk := Nat.one_le_two_pow (n := k)
      have hl := Nat.one_le_two_pow (n := len)
      have hsum : 2 ^ (len + k) - 1 = 2 ^ len - 1 + 2 ^ len * (2 ^ k - 1) := by
        rw [Nat.mul_sub, ← pow_add, mul_one]
        have := Nat.pow_le_pow_right (show 0 < 2 by norm_num) (Nat.le_add_right len k)
        omega
      rw [hsum, Nat.add_mul_mod_self_left, Nat.mod_eq_of_lt (by omega)]
    rw [BitVec.toNat_shiftLeft, BitVec.toNat_allOnes, Nat.add_sub_cancel_left, Nat.shiftLeft_eq,
      Nat.shiftLeft_eq, pow_add, Nat.mul_mod_mul_right, ← pow_add, hones]
  have hw (b : BitVec w) : b.toNat < 2 ^ (len + (w - len)) := by
    rw [Nat.add_sub_cancel' hlen]
    exact b.isLt
  unfold samePrefix
  dsimp only
  rw [beq_iff_eq, ← BitVec.toNat_inj, BitVec.toNat_and, BitVec.toNat_and, hmask,
    and_shiftLeft src.toNat, and_high_eq _ _ _ (hw net), Nat.and_two_pow_sub_one_eq_mod,
    Nat.shiftRight_eq_div_pow, Nat.mod_eq_of_lt, eq_comm]
  rw [Nat.div_lt_iff_lt_mul (by positivity), ← pow_add]
  exact hw src

/-! ## What an entry admits -/

/-- What a block of this address is compared with: an IPv6 one, with nothing that is mapped. -/
def IpAddr.ComparedWith (net : IpAddr) (n : ℕ) : Prop :=
  match net with
  | .v4 _ => True
  | .v6 _ => ¬ mappedRange.Has n

/-- The addresses that an entry admits which is not the same text. -/
def Admits (entry : List Char) (ip : IpAddr) : Prop :=
  match splitOnce '/' entry with
  | none => ∃ listed, parseIpAddr (String.ofList entry) = some listed ∧ listed.embedded = ip.embedded
  | some (net, bits) => ∃ len addr block, parseU8 bits = some len ∧
      parseIpAddr (String.ofList net) = some addr ∧ addr.block len = some block ∧
      block.Has ip.embedded ∧ addr.ComparedWith ip.embedded

/-- A block of IPv4 addresses, among those of IPv6. -/
theorem block_has_v4 {len : ℕ} (hlen : len ≤ 32) (net src : BitVec 32) :
    (Cidr.mk (IpAddr.v4 net).embedded (32 - len)).Has (IpAddr.v4 src).embedded ↔
      src.toNat / 2 ^ (32 - len) = net.toNat / 2 ^ (32 - len) := by
  have hshift (a : ℕ) : (0xffff * 2 ^ 32 + a) / 2 ^ (32 - len) =
      0xffff * 2 ^ len + a / 2 ^ (32 - len) := by
    have hpow : 0xffff * 2 ^ 32 = 0xffff * 2 ^ len * 2 ^ (32 - len) := by
      rw [mul_assoc, ← pow_add, Nat.add_sub_cancel' hlen]
    rw [hpow, Nat.add_comm, Nat.add_mul_div_right _ _ (by positivity), Nat.add_comm]
  unfold Cidr.Has
  rw [IpAddr.embedded_v4, IpAddr.embedded_v4, hshift, hshift]
  omega

/-- A block of IPv4 addresses is mapped. -/
theorem mapped_of_block_has {len n : ℕ} (net : BitVec 32)
    (h : (Cidr.mk (IpAddr.v4 net).embedded (32 - len)).Has n) : mappedRange.Has n := by
  have hn := net.isLt
  have h := congrArg (· / 2 ^ (32 - (32 - len))) h
  beta_reduce at h
  rw [Nat.div_div_eq_div_mul, Nat.div_div_eq_div_mul, ← pow_add,
    Nat.add_sub_cancel' (Nat.sub_le 32 len), IpAddr.embedded_v4] at h
  rw [mappedRange_has_iff, h]
  show (0xffff * 2 ^ 32 + net.toNat) / 2 ^ 32 = _
  omega

/-- The addresses of a block, when the source is read as the code reads it. -/
theorem admits_block_iff {len : ℕ} {net src : IpAddr} :
    (match some net, canonicalizeIpAddr src with
      | some (.v4 net), .v4 src => decide (len ≤ 32) && samePrefix len net src
      | some (.v6 net), .v6 src => decide (len ≤ 128) && samePrefix len net src
      | _, _ => false) = true ↔
    ∃ block, net.block len = some block ∧ block.Has src.embedded ∧ net.ComparedWith src.embedded := by
  cases net with
  | v4 net =>
    rw [IpAddr.block]
    by_cases hlen : len ≤ 32
    · rw [if_pos hlen]
      cases hc : canonicalizeIpAddr src with
      | v4 a =>
        have hsrc := canonicalizeIpAddr_eq_v4.1 hc
        simp [hlen, samePrefix_iff, hsrc, block_has_v4, IpAddr.ComparedWith, -IpAddr.embedded_v4]
      | v6 b =>
        have hnot := (canonicalizeIpAddr_eq_v6.1 hc).1
        refine iff_of_false nofun ?_
        rintro ⟨block, he, hhas, -⟩
        cases he
        exact hnot (mapped_of_block_has net hhas)
    · rw [if_neg hlen]
      refine iff_of_false ?_ (by rintro ⟨block, he, -⟩; cases he)
      cases canonicalizeIpAddr src <;> simp [hlen]
  | v6 net =>
    rw [IpAddr.block]
    by_cases hlen : len ≤ 128
    · rw [if_pos hlen]
      cases hc : canonicalizeIpAddr src with
      | v4 a =>
        have hsrc := canonicalizeIpAddr_eq_v4.1 hc
        refine iff_of_false nofun ?_
        rintro ⟨block, -, -, hnot⟩
        exact hnot (hsrc ▸ mappedRange_has_v4 a)
      | v6 b =>
        obtain ⟨hnot, hsrc⟩ := canonicalizeIpAddr_eq_v6.1 hc
        rw [hsrc] at hnot ⊢
        simp only [hlen, decide_true, Bool.true_and, samePrefix_iff, Option.some.injEq,
          exists_eq_left', IpAddr.ComparedWith, hnot, not_false_eq_true, and_true]
        exact Iff.rfl
    · rw [if_neg hlen]
      refine iff_of_false ?_ (by rintro ⟨block, he, -⟩; cases he)
      cases canonicalizeIpAddr src <;> simp [hlen]

theorem ipMatchesAllowlist_iff (G : Signing) (source entry : String) :
    ipMatchesAllowlist { G with parseIp := parseIpAddr } source entry ↔
      trim entry.toList = ['*'] ∨ trim entry.toList = trim source.toList ∨
      ∃ ip, parseIpAddr (String.ofList (trim source.toList)) = some ip ∧
        Admits (trim entry.toList) ip := by
  unfold ipMatchesAllowlist
  dsimp only
  generalize trim entry.toList = E
  generalize trim source.toList = S
  by_cases hsame : (E == ['*'] || E == S) = true
  · rw [if_pos hsame]
    rw [Bool.or_eq_true, beq_iff_eq, beq_iff_eq] at hsame
    exact iff_of_true rfl (hsame.imp_right .inl)
  rw [if_neg hsame]
  rw [Bool.or_eq_true, beq_iff_eq, beq_iff_eq, not_or] at hsame
  rw [or_iff_right hsame.1, or_iff_right hsame.2]
  cases hsrc : parseIpAddr (String.ofList S) with
  | none => exact iff_of_false nofun (by rintro ⟨ip, h, -⟩; cases h)
  | some src =>
    have hone : (∃ ip, some src = some ip ∧ Admits E ip) ↔ Admits E src := by simp
    rw [hone]
    unfold Admits
    cases hsplit : splitOnce '/' E with
    | none => simp only [Option.any_eq_true, beq_iff_eq, canonicalizeIpAddr_inj]
    | some parts =>
      obtain ⟨net, bits⟩ := parts
      dsimp only
      cases hbits : parseU8 bits with
      | none => simp
      | some len =>
        cases hnet : parseIpAddr (String.ofList net) with
        | none => simp
        | some addr =>
          refine (@admits_block_iff len addr src).trans ⟨?_, ?_⟩
          · rintro ⟨block, h⟩
            exact ⟨len, addr, block, rfl, rfl, h⟩
          · rintro ⟨len', addr', block, hlen, haddr, h⟩
            cases hlen
            cases haddr
            exact ⟨block, h⟩

theorem Cidr.has_base (c : Cidr) : c.Has c.base := rfl

theorem IpAddr.base_of_block {len : ℕ} {ip : IpAddr} {block : Cidr}
    (h : ip.block len = some block) : block.base = ip.embedded := by
  cases ip with
  | v4 a =>
    obtain ⟨-, h⟩ := Option.ite_none_right_eq_some.1 h
    cases h
    rfl
  | v6 b =>
    obtain ⟨-, h⟩ := Option.ite_none_right_eq_some.1 h
    cases h
    rfl

theorem IpAddr.len_of_block {len : ℕ} {ip : IpAddr} {block : Cidr}
    (h : ip.block len = some block) : len ≤ 128 := by
  cases ip with
  | v4 a => exact (Option.ite_none_right_eq_some.1 h).1.trans (by norm_num)
  | v6 b => exact (Option.ite_none_right_eq_some.1 h).1

/-- What is admitted of a source that is an address. -/
theorem ipMatchesAllowlist_source {G : Signing} {source entry : String} {ip : IpAddr}
    (hip : parseIpAddr (String.ofList (trim source.toList)) = some ip) :
    ipMatchesAllowlist { G with parseIp := parseIpAddr } source entry ↔
      trim entry.toList = ['*'] ∨ Admits (trim entry.toList) ip := by
  rw [ipMatchesAllowlist_iff, hip]
  simp only [Option.some.injEq, exists_eq_left']
  refine or_congr_right (or_iff_right_of_imp fun hsame => ?_)
  have hnone := splitOnce_of_parseIpAddr hip
  rw [String.toList_ofList] at hnone
  rw [hsame, Admits, hnone]
  exact ⟨ip, hip, rfl⟩

theorem ipMatchesAllowlist_text {G : Signing} {text entry : String} {ip : IpAddr}
    (hip : parseIpAddr text = some ip) :
    ipMatchesAllowlist { G with parseIp := parseIpAddr } text entry ↔
      trim entry.toList = ['*'] ∨ Admits (trim entry.toList) ip := by
  refine ipMatchesAllowlist_source ?_
  rwa [trim_of_parseIpAddr hip, String.ofList_toList]

/-! ## When an entry is exact -/

/-- The entry matches the addresses of its block. If it denotes none it matches its own text. -/
def EntryExact (G : Signing) (entry : String) : Prop :=
  match entryBlock (trim entry.toList) with
  | some block => ∀ source ip, parseIpAddr (String.ofList (trim source.toList)) = some ip →
      (ipMatchesAllowlist { G with parseIp := parseIpAddr } source entry ↔ block.Has ip.embedded)
  | none => trim entry.toList = ['*'] ∨
      ∀ source, ipMatchesAllowlist { G with parseIp := parseIpAddr } source entry →
        trim source.toList = trim entry.toList

def Cidr.Within (c d : Cidr) : Prop := ∀ n, c.Has n → d.Has n

def Cidr.Apart (c d : Cidr) : Prop := ∀ n, c.Has n → ¬ d.Has n

/-- If the entry is a block of IPv4 addresses, its length has no sign. If it is one of IPv6
addresses, no address of it is mapped, or all are if its length has a sign. -/
def ReadAsDenoted (entry : List Char) : Prop :=
  ∀ net bits addr len block, splitOnce '/' entry = some (net, bits) →
    parseIpAddr (String.ofList net) = some addr → parseU8 bits = some len →
    addr.block len = some block →
    match addr with
    | .v4 _ => bits.head? ≠ some '+'
    | .v6 _ =>
      if bits.head? = some '+' then block.Within mappedRange else block.Apart mappedRange

theorem parseDigits_signed {bits : List Char} (h : bits.head? = some '+') :
    parseDigits bits = none := by
  obtain ⟨ds, rfl⟩ := List.head?_eq_some_iff.1 h
  exact if_neg fun hd => absurd hd.2 (by simp)

theorem parseU8_unsigned {bits : List Char} (h : bits.head? ≠ some '+') :
    parseU8 bits = (parseDigits bits).filter (· < 2 ^ 8) := by
  have hbits : parseU128 bits = (parseDigits bits).bind fun n =>
      if n < 2 ^ 128 then some n else none := by
    unfold parseU128
    split
    · exact absurd rfl h
    · rfl
  rw [parseU8, hbits]
  cases parseDigits bits with
  | none => rfl
  | some n =>
    rw [Option.bind_some, Option.filter_some (p := (decide <| · < 2 ^ 8))]
    by_cases hn : n < 2 ^ 8
    · rw [if_pos (show n < 2 ^ 128 by omega), Option.bind_some, if_pos hn,
        if_pos (decide_eq_true hn)]
    · rw [if_neg (fun h => hn (of_decide_eq_true h))]
      split
      · exact if_neg hn
      · rfl

/-- Blocks are denoted by lengths without a sign. -/
theorem entryBlock_eq_some_iff {entry net bits : List Char} {block : Cidr}
    (hsplit : splitOnce '/' entry = some (net, bits)) :
    entryBlock entry = some block ↔ bits.head? ≠ some '+' ∧ ∃ addr len,
      parseIpAddr (String.ofList net) = some addr ∧ parseU8 bits = some len ∧
        addr.block len = some block := by
  unfold entryBlock
  rw [hsplit]
  simp only [Option.bind_eq_bind, Option.bind_eq_some_iff]
  constructor
  · rintro ⟨addr, haddr, len, hlen, h⟩
    have hsign : bits.head? ≠ some '+' := by
      intro hsign
      rw [parseDigits_signed hsign] at hlen
      cases hlen
    refine ⟨hsign, addr, len, haddr, ?_, h⟩
    rw [parseU8_unsigned hsign, hlen, Option.filter_some]
    exact if_pos (decide_eq_true ((IpAddr.len_of_block h).trans_lt (by norm_num)))
  · rintro ⟨hsign, addr, len, haddr, hlen, h⟩
    rw [parseU8_unsigned hsign] at hlen
    exact ⟨addr, haddr, len, (Option.filter_eq_some_iff.1 hlen).1, h⟩

section
variable {G : Signing} {entry : String} {net bits : List Char} {addr : IpAddr} {len : ℕ}
variable {block : Cidr}

theorem admits_iff {entry : List Char} {ip : IpAddr}
    (hsplit : splitOnce '/' entry = some (net, bits))
    (haddr : parseIpAddr (String.ofList net) = some addr) (hlen : parseU8 bits = some len)
    (hb : addr.block len = some block) :
    Admits entry ip ↔ block.Has ip.embedded ∧ addr.ComparedWith ip.embedded := by
  rw [Admits, hsplit]
  dsimp only
  constructor
  · rintro ⟨len', addr', block', hlen', haddr', hb', h⟩
    cases hlen.symm.trans hlen'
    cases haddr.symm.trans haddr'
    cases hb.symm.trans hb'
    exact h
  · exact fun h => ⟨len, addr, block, hlen, haddr, hb, h⟩

theorem exact_of_readAsDenoted (h : ReadAsDenoted (trim entry.toList)) : EntryExact G entry := by
  unfold EntryExact
  cases hsplit : splitOnce '/' (trim entry.toList) with
  | none =>
    unfold entryBlock
    rw [hsplit]
    dsimp only
    cases hlisted : parseIpAddr (String.ofList (trim entry.toList)) with
    | none =>
      refine or_iff_not_imp_left.2 fun hstar source hm => ?_
      rcases (ipMatchesAllowlist_iff G source entry).1 hm with hm | hm | ⟨ip, -, hm⟩
      · exact absurd hm hstar
      · exact hm.symm
      · rw [Admits, hsplit] at hm
        obtain ⟨listed, hl, -⟩ := hm
        cases hlisted.symm.trans hl
    | some listed =>
      intro source ip hip
      have hstar : trim entry.toList ≠ ['*'] := by
        intro hstar
        rw [hstar, show parseIpAddr (String.ofList ['*']) = none by decide +kernel] at hlisted
        cases hlisted
      rw [ipMatchesAllowlist_source hip, or_iff_right hstar, Admits, hsplit]
      simp [hlisted, Cidr.Has, eq_comm]
  | some parts =>
    obtain ⟨net, bits⟩ := parts
    have hstar : trim entry.toList ≠ ['*'] := by
      intro hstar
      rw [hstar, show splitOnce '/' ['*'] = none by decide] at hsplit
      cases hsplit
    cases hblock : entryBlock (trim entry.toList) with
    | none =>
      refine .inr fun source hm => ?_
      rcases (ipMatchesAllowlist_iff G source entry).1 hm with hm | hm | ⟨ip, -, hm⟩
      · exact absurd hm hstar
      · exact hm.symm
      · rw [Admits, hsplit] at hm
        obtain ⟨len, addr, block, hlen, haddr, hb, hhas, hnot⟩ := hm
        have hsign : bits.head? = some '+' := by
          by_contra hsign
          rw [(entryBlock_eq_some_iff hsplit).2 ⟨hsign, addr, len, haddr, hlen, hb⟩] at hblock
          cases hblock
        have hread := h net bits addr len block hsplit haddr hlen hb
        cases addr with
        | v4 a => exact absurd hsign hread
        | v6 b =>
          rw [if_pos hsign] at hread
          exact absurd (hread _ hhas) hnot
    | some block =>
      intro source ip hip
      obtain ⟨hsign, addr, len, haddr, hlen, hb⟩ := (entryBlock_eq_some_iff hsplit).1 hblock
      have hread := h net bits addr len block hsplit haddr hlen hb
      rw [ipMatchesAllowlist_source hip, or_iff_right hstar, admits_iff hsplit haddr hlen hb]
      refine and_iff_left_of_imp fun hhas => ?_
      cases addr with
      | v4 a => trivial
      | v6 b =>
        rw [if_neg hsign] at hread
        exact hread _ hhas

/-- An admitted text, apart from the entry, that stands for no address of a block. -/
theorem not_exact_of_signed {text : String} {ip : IpAddr} (hexact : EntryExact G entry)
    (hsplit : splitOnce '/' (trim entry.toList) = some (net, bits))
    (hsign : bits.head? = some '+') (hip : parseIpAddr text = some ip) :
    ¬ Admits (trim entry.toList) ip := by
  intro hadmits
  have hnone : entryBlock (trim entry.toList) = none :=
    Option.eq_none_iff_forall_ne_some.2 fun block hb =>
      ((entryBlock_eq_some_iff hsplit).1 hb).1 hsign
  unfold EntryExact at hexact
  rw [hnone] at hexact
  rcases hexact with hstar | hexact
  · rw [hstar, show splitOnce '/' ['*'] = none by decide] at hsplit
    cases hsplit
  · have hsame := hexact text ((ipMatchesAllowlist_text hip).2 (.inr hadmits))
    rw [trim_of_parseIpAddr hip] at hsame
    rw [← hsame, splitOnce_of_parseIpAddr hip] at hsplit
    cases hsplit

theorem admits_of_exact {text : String} {ip : IpAddr} (hexact : EntryExact G entry)
    (hsplit : splitOnce '/' (trim entry.toList) = some (net, bits))
    (hblock : entryBlock (trim entry.toList) = some block) (hip : parseIpAddr text = some ip)
    (hhas : block.Has ip.embedded) : Admits (trim entry.toList) ip := by
  unfold EntryExact at hexact
  rw [hblock] at hexact
  rcases (ipMatchesAllowlist_text hip).1 ((hexact text ip (by
    rwa [trim_of_parseIpAddr hip, String.ofList_toList])).2 hhas) with hstar | hadmits
  · rw [hstar, show splitOnce '/' ['*'] = none by decide] at hsplit
    cases hsplit
  · exact hadmits

/-- A block with a mapped address either is of one, or has the first one. -/
theorem mapped_or_has_first {c : Cidr} {n : ℕ} (h : c.Has n) (hn : mappedRange.Has n) :
    mappedRange.Has c.base ∨ c.Has (0xffff * 2 ^ 32) := by
  unfold Cidr.Has at h
  rw [mappedRange_has_iff] at hn
  rcases Nat.le_total c.host 32 with hle | hle
  · left
    have h := congrArg (· / 2 ^ (32 - c.host)) h
    beta_reduce at h
    rw [Nat.div_div_eq_div_mul, Nat.div_div_eq_div_mul, ← pow_add, Nat.add_sub_cancel' hle] at h
    rw [mappedRange_has_iff, ← h, hn]
  · right
    obtain ⟨k, hk⟩ := Nat.exists_eq_add_of_le hle
    rw [hk, pow_add, ← Nat.div_div_eq_div_mul, hn] at h
    rw [Cidr.Has, hk, pow_add, ← Nat.div_div_eq_div_mul, ← h]
    rfl

/-- A block of a mapped address and another has the last one before those that are mapped. -/
theorem has_before_mapped {c : Cidr} {n : ℕ} (h : c.Has n) (hn : ¬ mappedRange.Has n)
    (hb : mappedRange.Has c.base) : c.Has (0xfffe * 2 ^ 32) := by
  unfold Cidr.Has at h
  rw [mappedRange_has_iff] at hn hb
  rcases Nat.le_total c.host 32 with hle | hle
  · have h := congrArg (· / 2 ^ (32 - c.host)) h
    beta_reduce at h
    rw [Nat.div_div_eq_div_mul, Nat.div_div_eq_div_mul, ← pow_add, Nat.add_sub_cancel' hle] at h
    exact absurd (h.trans hb) hn
  · obtain ⟨k, hk⟩ := Nat.exists_eq_add_of_le hle
    rw [hk, pow_add, ← Nat.div_div_eq_div_mul, ← Nat.div_div_eq_div_mul, hb] at h
    rw [Cidr.Has, hk, pow_add, ← Nat.div_div_eq_div_mul, ← Nat.div_div_eq_div_mul, hb,
      Nat.mul_div_cancel _ (by positivity)]
    cases k with
    | zero => exact absurd (by simpa using h) hn
    | succ k => rw [pow_succ', ← Nat.div_div_eq_div_mul, ← Nat.div_div_eq_div_mul]

theorem readAsDenoted_of_exact (hexact : EntryExact G entry) :
    ReadAsDenoted (trim entry.toList) := by
  intro net bits addr len block hsplit haddr hlen hb
  have hbase := IpAddr.base_of_block hb
  have hself : block.Has addr.embedded := hbase ▸ block.has_base
  have hadmits {ip : IpAddr} : Admits (trim entry.toList) ip ↔
      block.Has ip.embedded ∧ addr.ComparedWith ip.embedded := admits_iff hsplit haddr hlen hb
  cases addr with
  | v4 a =>
    exact fun hsign => not_exact_of_signed hexact hsplit hsign haddr (hadmits.2 ⟨hself, trivial⟩)
  | v6 b =>
    dsimp only
    by_cases hsign : bits.head? = some '+'
    · rw [if_pos hsign]
      intro n hn
      by_contra hnot
      by_cases hm : mappedRange.Has (IpAddr.v6 b).embedded
      · have hbefore := has_before_mapped hn hnot (hbase ▸ hm)
        have hparse : parseIpAddr "::fffe:0:0" = some (.v6 0xfffe00000000#128) := by
          decide +kernel
        refine not_exact_of_signed hexact hsplit hsign hparse (hadmits.2 ⟨hbefore, ?_⟩)
        show ¬ mappedRange.Has 0xfffe00000000
        decide
      · exact not_exact_of_signed hexact hsplit hsign haddr (hadmits.2 ⟨hself, hm⟩)
    · rw [if_neg hsign]
      intro n hn hm
      have hblock := (entryBlock_eq_some_iff hsplit).2 ⟨hsign, _, len, haddr, hlen, hb⟩
      rcases mapped_or_has_first hn hm with hm | hfirst
      · exact (hadmits.1 (admits_of_exact hexact hsplit hblock haddr hself)).2 (hbase ▸ hm)
      · have hparse : parseIpAddr "0.0.0.0" = some (.v4 0#32) := by decide +kernel
        exact (hadmits.1 (admits_of_exact hexact hsplit hblock hparse hfirst)).2
          (mappedRange_has_v4 0#32)

/-- An entry is exact if and only if it is read as it denotes. -/
theorem entryExact_iff (G : Signing) (entry : String) :
    EntryExact G entry ↔ ReadAsDenoted (trim entry.toList) :=
  ⟨readAsDenoted_of_exact, exact_of_readAsDenoted⟩

end

def addressSigning : Signing where
  decryptWithAad _ _ := none
  hmacSha256Hex _ _ := ""
  sha256Hex _ := ""
  parseIp := parseIpAddr

/-- A block of mapped addresses, which is one of IPv4 addresses, admits none of them. -/
theorem mappedBlock_not_exact : ¬ EntryExact addressSigning "::ffff:10.0.0.0/104" ∧
    entryBlock "::ffff:10.0.0.0/104".toList = some ⟨0xffff0a000000, 24⟩ ∧
    parseIpAddr "10.1.2.3" = some (.v4 0x0a010203#32) ∧
    (Cidr.mk 0xffff0a000000 24).Has (IpAddr.v4 0x0a010203#32).embedded ∧
    ¬ ipMatchesAllowlist addressSigning "10.1.2.3" "::ffff:10.0.0.0/104" := by
  have hblock : entryBlock "::ffff:10.0.0.0/104".toList = some ⟨0xffff0a000000, 24⟩ := by
    decide +kernel
  have hsource : parseIpAddr "10.1.2.3" = some (.v4 0x0a010203#32) := by decide +kernel
  have hhas : (Cidr.mk 0xffff0a000000 24).Has (IpAddr.v4 0x0a010203#32).embedded := by
    decide +kernel
  have hnot : ¬ ipMatchesAllowlist addressSigning "10.1.2.3" "::ffff:10.0.0.0/104" := by
    decide +kernel
  refine ⟨fun h => hnot ?_, hblock, hsource, hhas, hnot⟩
  unfold EntryExact at h
  rw [show trim "::ffff:10.0.0.0/104".toList = "::ffff:10.0.0.0/104".toList by decide +kernel,
    hblock] at h
  exact (h "10.1.2.3" _ (by decide +kernel)).2 hhas

end SatsPay
