import Mathlib.Data.List.GetD
import SatsPay.BitGroups
import SatsPay.Wordlist

/-!
# Mnemonics

The words of a mnemonic are cut from the bits of the entropy and its checksum. What BIP-39 reads
from them is the entropy.
-/

namespace SatsPay

open BitGroups

section
variable (sha256 : List UInt8 → Vector UInt8 32)

/-! ## Words from entropy -/

/-- The bits of a byte, as the loop `for i in (0..8).rev()` pushes them. -/
def pushBits (b : UInt8) : List ℕ := (List.range 8).reverse.map fun i => (b.toNat >>> i) &&& 1

def wordIndex (chunk : List ℕ) : ℕ :=
  chunk.zipIdx.foldl (fun idx (bit, i) => idx ||| (bit <<< (10 - i))) 0

/-- No result where it panics. -/
def entropyToMnemonic (entropy : Vector UInt8 32) : Option String :=
  let hash := sha256 entropy.toList
  let bits := entropy.toList.flatMap pushBits ++ pushBits hash[0]
  ((chunks 11 bits).mapM fun chunk => wordlist[wordIndex chunk]?).map (" ".intercalate ·)

/-! ## Entropy from words -/

/-- BIP-39: 12 to 24 words, of a list of 2048, are 11 bits each; of 33 bits, one is of the hash
of the others. -/
def bip39Decode (words : List String) (mnemonic : String) : Option (List UInt8) := do
  let ws := mnemonic.toList.splitOn ' '
  let indexes ← ws.mapM fun w => words.idxOf? (String.ofList w)
  let bits := bitsOfGroups 11 indexes
  let checksum := ws.length / 3
  let entropy := (chunks 8 (bits.take (32 * checksum))).map fun c => UInt8.ofNat (ofBits c)
  let hash := bitsOfGroups 8 ((sha256 entropy).toList.map UInt8.toNat)
  if ws.length ∈ [12, 15, 18, 21, 24] ∧ bits.drop (32 * checksum) = hash.take checksum then
    some entropy
  else none

end

section
variable {sha256 : List UInt8 → Vector UInt8 32}

theorem map_range_bits (k n : ℕ) :
    (List.range k).reverse.map (fun i => (n >>> i) &&& 1) = (bitsOf k n).map Bool.toNat := by
  induction k with
  | zero => rfl
  | succ k ih =>
    rw [List.range_succ, List.reverse_concat, List.map_cons, ih, bitsOf, List.map_cons,
      Nat.and_one_is_mod, Nat.shiftRight_eq_div_pow, Nat.toNat_testBit]

theorem flatMap_pushBits (bs : List UInt8) :
    bs.flatMap pushBits = (bitsOfGroups 8 (bs.map UInt8.toNat)).map Bool.toNat := by
  induction bs with
  | nil => rfl
  | cons b bs ih =>
    rw [List.flatMap_cons, ih, List.map_cons, bitsOfGroups_cons, List.map_append, pushBits,
      map_range_bits]

theorem foldl_bits (bs : List Bool) (acc i : ℕ) (h : i + bs.length = 11) :
    ((bs.map Bool.toNat).zipIdx i).foldl (fun idx (p : ℕ × ℕ) => idx ||| (p.1 <<< (10 - p.2))) acc =
      acc ||| ofBits bs := by
  induction bs generalizing acc i with
  | nil => exact (Nat.or_zero acc).symm
  | cons b bs ih =>
    rw [List.length_cons] at h
    have hshift : 10 - i = bs.length := by omega
    rw [List.map_cons, List.zipIdx_cons, List.foldl_cons, ih _ _ (by omega), ofBits, hshift,
      Nat.or_assoc]

theorem wordIndex_bits {bs : List Bool} (h : bs.length = 11) :
    wordIndex (bs.map Bool.toNat) = ofBits bs :=
  (foldl_bits bs 0 0 (by omega)).trans (Nat.zero_or _)

theorem chunks_map {α β : Type} (f : α → β) (size : ℕ) (xs : List α) :
    chunks size (xs.map f) = (chunks size xs).map (List.map f) := by
  simp [chunks, List.map_take, List.map_drop]

def mnemonicBits (sha256 : List UInt8 → Vector UInt8 32) (entropy : Vector UInt8 32) : List Bool :=
  bitsOfGroups 8 (entropy.toList.map UInt8.toNat) ++ bitsOf 8 (sha256 entropy.toList)[0].toNat

theorem length_mnemonicBits (entropy : Vector UInt8 32) :
    (mnemonicBits sha256 entropy).length = 11 * 24 := by
  simp [mnemonicBits]

theorem mapM_eq_some_map {α β : Type} {f : α → Option β} {g : α → β} {xs : List α}
    (h : ∀ x ∈ xs, f x = some (g x)) : xs.mapM f = some (xs.map g) := by
  induction xs with
  | nil => rfl
  | cons x xs ih =>
    rw [List.forall_mem_cons] at h
    rw [List.mapM_cons, h.1, ih h.2]
    rfl

/-- The words of a mnemonic are those of the groups of its bits. -/
theorem entropyToMnemonic_eq (entropy : Vector UInt8 32) :
    ∃ indexes : List ℕ, ∃ ws : List String, ws.length = 24 ∧ (∀ w ∈ ws, w ∈ wordlist) ∧
      ws.mapM (fun w => wordlist.idxOf? w) = some indexes ∧
      bitsOfGroups 11 indexes = mnemonicBits sha256 entropy ∧
      entropyToMnemonic sha256 entropy = some (" ".intercalate ws) := by
  obtain ⟨hbits, hcount, hlen⟩ :=
    bitsOfGroups_chunks (by norm_num) (@length_mnemonicBits sha256 entropy)
  set cs := chunks 11 (mnemonicBits sha256 entropy)
  have hchunks : chunks 11 (entropy.toList.flatMap pushBits ++ pushBits (sha256 entropy.toList)[0]) =
      cs.map (List.map Bool.toNat) := by
    rw [flatMap_pushBits, pushBits, map_range_bits, ← List.map_append, chunks_map]
    rfl
  have hlt : ∀ c ∈ cs, ofBits c < wordlist.length := fun c hc => by
    have h := ofBits_lt c
    rw [hlen c hc] at h
    rwa [length_wordlist]
  have hword : ∀ c ∈ cs, wordlist[ofBits c]? = some (wordlist.getD (ofBits c) "") := fun c hc => by
    rw [List.getElem?_eq_getElem (hlt c hc), List.getD_eq_getElem _ _ (hlt c hc)]
  refine ⟨cs.map ofBits, cs.map fun c => wordlist.getD (ofBits c) "",
    by rw [List.length_map, hcount], ?_, ?_, hbits, ?_⟩
  · intro w hw
    obtain ⟨c, hc, rfl⟩ := List.mem_map.1 hw
    exact List.mem_of_getElem? (hword c hc)
  · rw [List.mapM_map]
    refine mapM_eq_some_map fun c hc => ?_
    rw [Function.comp_apply, List.getD_eq_getElem _ _ (hlt c hc)]
    exact List.idxOf?_eq_some_iff.2 ⟨hlt c hc, rfl, fun j hj heq =>
      hj.ne (nodup_wordlist.getElem_inj_iff.1 heq)⟩
  · have hwords : (cs.map (List.map Bool.toNat)).mapM (fun c => wordlist[wordIndex c]?) =
        some (cs.map fun c => wordlist.getD (ofBits c) "") := by
      rw [List.mapM_map]
      refine mapM_eq_some_map fun c hc => ?_
      rw [Function.comp_apply, wordIndex_bits (hlen c hc), hword c hc]
    unfold entropyToMnemonic
    dsimp only
    rw [hchunks, hwords, Option.map_some]

theorem splitOn_words {ws : List String} (hne : ws ≠ []) (h : ∀ w ∈ ws, ' ' ∉ w.toList) :
    (" ".intercalate ws).toList.splitOn ' ' = ws.map String.toList := by
  have hspace : " ".toList = [' '] := rfl
  rw [String.toList_intercalate, hspace, List.splitOn_intercalate _ _ (by simpa using hne)]
  intro l hl
  obtain ⟨w, hw, rfl⟩ := List.mem_map.1 hl
  exact h w hw

theorem bytes_mnemonicBits (entropy : Vector UInt8 32) :
    (chunks 8 ((mnemonicBits sha256 entropy).take (32 * 8))).map (fun c => UInt8.ofNat (ofBits c)) =
      entropy.toList := by
  rw [mnemonicBits, List.take_left' (by simp), chunks_bitsOfGroups (by norm_num), List.map_map,
    List.map_map]
  refine (List.map_congr_left fun b _ => ?_).trans (List.map_id _)
  rw [Function.comp_apply, Function.comp_apply, ofBits_bitsOf b.toNat_lt, UInt8.ofNat_toNat, id]

theorem take_hashBits (hash : Vector UInt8 32) :
    (bitsOfGroups 8 (hash.toList.map UInt8.toNat)).take 8 = bitsOf 8 hash[0].toNat := by
  obtain ⟨bs, hbs⟩ : ∃ bs, hash.toList = hash[0] :: bs := by
    cases h : hash.toList with
    | nil => simpa using congrArg List.length h
    | cons b bs =>
      have h0 : hash[0] = b := by
        rw [← Vector.getElem_toList (by simp)]
        simp only [h, List.getElem_cons_zero]
      exact ⟨bs, by rw [h0]⟩
  rw [hbs, List.map_cons, bitsOfGroups_cons, List.take_left' (length_bitsOf _ _)]

theorem bip39Decode_entropyToMnemonic (entropy : Vector UInt8 32) :
    (entropyToMnemonic sha256 entropy).bind (bip39Decode sha256 wordlist) = some entropy.toList := by
  obtain ⟨indexes, ws, hlen, hws, hindexes, hbits, heq⟩ := @entropyToMnemonic_eq sha256 entropy
  have hread : (ws.map String.toList).mapM (fun w => wordlist.idxOf? (String.ofList w)) =
      some indexes := by
    rw [List.mapM_map, ← hindexes]
    congr 1
    funext w
    rw [Function.comp_apply, String.ofList_toList]
  have hsplit : (" ".intercalate ws).toList.splitOn ' ' = ws.map String.toList :=
    splitOn_words (fun h => by simp [h] at hlen) fun w hw => space_wordlist w (hws w hw)
  rw [heq, Option.bind_some, bip39Decode, hsplit, hread, List.length_map, hlen]
  dsimp only [Option.bind_eq_bind, Option.bind_some]
  rw [hbits, show 24 / 3 = 8 from rfl, bytes_mnemonicBits, take_hashBits, mnemonicBits,
    List.drop_left' (by simp), if_pos ⟨by decide, rfl⟩]

/-- A mnemonic is of 24 words, whose bits are the entropy and the first byte of its hash. BIP-39
reads the entropy from it, and it is no other's. -/
theorem mnemonics_decodable (sha256 : List UInt8 → Vector UInt8 32) (entropy : Vector UInt8 32) :
    ∃ ws indexes, entropyToMnemonic sha256 entropy = some (" ".intercalate ws) ∧
      ws.length = 24 ∧ (∀ w ∈ ws, w ∈ wordlist) ∧
      ws.mapM (fun w => wordlist.idxOf? w) = some indexes ∧
      bitsOfGroups 11 indexes = bitsOfGroups 8 (entropy.toList.map UInt8.toNat) ++
        (bitsOfGroups 8 ((sha256 entropy.toList).toList.map UInt8.toNat)).take 8 ∧
      bip39Decode sha256 wordlist (" ".intercalate ws) = some entropy.toList ∧
      ∀ other, entropyToMnemonic sha256 other = some (" ".intercalate ws) → other = entropy := by
  obtain ⟨indexes, ws, hlen, hws, hindexes, hbits, heq⟩ := @entropyToMnemonic_eq sha256 entropy
  have hdecode := @bip39Decode_entropyToMnemonic sha256 entropy
  rw [heq, Option.bind_some] at hdecode
  refine ⟨ws, indexes, heq, hlen, hws, hindexes, by rw [hbits, take_hashBits, mnemonicBits],
    hdecode, fun other hother => ?_⟩
  have hsame := @bip39Decode_entropyToMnemonic sha256 other
  rw [hother, Option.bind_some, hdecode] at hsame
  exact (Vector.toList_inj.1 (Option.some.inj hsame)).symm

end

end SatsPay
