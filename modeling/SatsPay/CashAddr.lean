import Mathlib.Data.Nat.Bitwise
import SatsPay.BitGroups
import SatsPay.Fallible

/-!
# CashAddr

Addresses of Bitcoin Cash: groups of five bits with a checksum of 40 bits. The checksum is
linear, and shifts a change through without ever losing it.
-/

namespace SatsPay

open BitGroups

/-! ## Encoding -/

abbrev Hash160 := Vector UInt8 20

def cashaddrCharset : List Char := "qpzry9x8gf2tvdw0s3jn54khce6mua7l".toList

def cashaddrGenerator : List ℕ :=
  [0x98f2bc8e61, 0x79b76d99e2, 0xf33e5fb3c4, 0xae2eabe2a8, 0x1e4f43e470]

def polymodStep (chk v : ℕ) : ℕ :=
  let top := chk >>> 35
  cashaddrGenerator.zipIdx.foldl
    (fun chk (g, i) => if (top >>> i) &&& 1 ≠ 0 then chk ^^^ g else chk)
    (((chk &&& 0x07ffffffff) <<< 5) ^^^ v)

def cashaddrPolymod (values : List ℕ) : ℕ := values.foldl polymodStep 1 ^^^ 1

def cashaddrExpandPrefix (pre : String) : List ℕ :=
  pre.toUTF8.toList.map (fun b => b.toNat &&& 0x1f) ++ [0]

def cashaddrPayload (pubkeyHash : Hash160) : List ℕ := 0 :: pubkeyHash.toList.map UInt8.toNat

def checksumOf (polymod : ℕ) : List ℕ :=
  (List.range 8).map fun i => (polymod >>> (5 * (7 - i))) &&& 0x1f

def charOf (v : ℕ) : Char := cashaddrCharset.getD v ' '

/-- The groups of five bits; a payload always has some. -/
def cashaddrGroups (pubkeyHash : Hash160) : List ℕ :=
  (convertBits (cashaddrPayload pubkeyHash) 8 5 true).getD []

def cashaddrBody (pre : String) (pubkeyHash : Hash160) : List Char :=
  let payload5bit := cashaddrGroups pubkeyHash
  let polymod := cashaddrPolymod (cashaddrExpandPrefix pre ++ payload5bit ++ List.replicate 8 0)
  (payload5bit ++ checksumOf polymod).map charOf

def cashaddrEncode (pre : String) (pubkeyHash : Hash160) : String :=
  pre ++ ":" ++ String.ofList (cashaddrBody pre pubkeyHash)

/-! ## Decoding -/

def stripPrefix (pre s : List Char) : Option (List Char) :=
  if pre.isPrefixOf s then some (s.drop pre.length) else none

def bodyOf (pre s : String) : List Char :=
  (stripPrefix (pre ++ ":").toList s.toList).getD s.toList

def isLowerOrDigit (c : Char) : Bool := ('a' ≤ c && c ≤ 'z') || c.isDigit

def valuesOf (body : List Char) : Option (List ℕ) := body.mapM (cashaddrCharset.idxOf? ·)

def hashOf (payload : List ℕ) : Option Hash160 :=
  if h : payload.length = 20 then some ⟨⟨payload.map UInt8.ofNat⟩, by simp [h]⟩ else none

def cashaddrDecodeBody (pre : String) (body : List Char) : Option Hash160 :=
  if !body.all isLowerOrDigit then none
  else (valuesOf body).bind fun values =>
    if values.length < 8 then none
    else if cashaddrPolymod (cashaddrExpandPrefix pre ++ values) ≠ 0 then none
    else (convertBits (values.take (values.length - 8)) 5 8 false).bind fun payload =>
      match payload with
      | 0 :: hash => hashOf hash
      | _ => none

def cashaddrDecode (pre s : String) : Option Hash160 := cashaddrDecodeBody pre (bodyOf pre s)

/-! ## The checksum -/

/-- What the high bits of a checksum bring in. -/
def reduceBy (gs : List (ℕ × ℕ)) (c : ℕ) : ℕ :=
  gs.foldr (fun g r => (if c.testBit (35 + g.2) then g.1 else 0) ^^^ r) 0

theorem polymodStep_eq (c v : ℕ) :
    polymodStep c v = ((c &&& 0x07ffffffff) <<< 5) ^^^ v ^^^ reduceBy cashaddrGenerator.zipIdx c := by
  have hfold (gs : List (ℕ × ℕ)) (x : ℕ) : gs.foldl
      (fun chk g => if ((c >>> 35) >>> g.2) &&& 1 ≠ 0 then chk ^^^ g.1 else chk) x =
      x ^^^ reduceBy gs c := by
    induction gs generalizing x with
    | nil => simp [reduceBy]
    | cons g gs ih =>
      have hbit : ((c >>> 35) >>> g.2) &&& 1 ≠ 0 ↔ c.testBit (35 + g.2) := by
        rw [← Nat.testBit_shiftRight, Nat.testBit, Nat.and_comm, bne_iff_ne]
      rw [List.foldl_cons, ih]
      by_cases hb : c.testBit (35 + g.2)
      · rw [if_pos (hbit.2 hb)]
        simp [reduceBy, hb, Nat.xor_assoc]
      · rw [if_neg (mt hbit.1 hb)]
        simp [reduceBy, hb]
  exact hfold _ _

theorem reduceBy_xor (gs : List (ℕ × ℕ)) (a b : ℕ) :
    reduceBy gs (a ^^^ b) = reduceBy gs a ^^^ reduceBy gs b := by
  induction gs with
  | nil => simp [reduceBy]
  | cons g gs ih =>
    have hterm : (if (a ^^^ b).testBit (35 + g.2) then g.1 else 0) =
        (if a.testBit (35 + g.2) then g.1 else 0) ^^^ if b.testBit (35 + g.2) then g.1 else 0 := by
      rw [Nat.testBit_xor]
      cases a.testBit (35 + g.2) <;> cases b.testBit (35 + g.2) <;> simp
    show _ ^^^ reduceBy gs (a ^^^ b) = (_ ^^^ reduceBy gs a) ^^^ (_ ^^^ reduceBy gs b)
    rw [ih, hterm]
    ac_rfl

/-- A step is linear. -/
theorem polymodStep_xor (a b u v : ℕ) :
    polymodStep (a ^^^ b) (u ^^^ v) = polymodStep a u ^^^ polymodStep b v := by
  rw [polymodStep_eq, polymodStep_eq, polymodStep_eq, reduceBy_xor, Nat.and_xor_distrib_right,
    Nat.shiftLeft_xor_distrib]
  ac_rfl

theorem foldl_polymodStep_xor {us vs : List ℕ} (h : us.length = vs.length) (a b : ℕ) :
    (us.zipWith (· ^^^ ·) vs).foldl polymodStep (a ^^^ b) =
      us.foldl polymodStep a ^^^ vs.foldl polymodStep b := by
  induction us generalizing vs a b with
  | nil =>
    obtain rfl := List.length_eq_zero_iff.1 h.symm
    rfl
  | cons u us ih =>
    cases vs with
    | nil => cases h
    | cons v vs =>
      rw [List.zipWith_cons_cons, List.foldl_cons, List.foldl_cons, List.foldl_cons,
        polymodStep_xor, ih (Nat.succ.inj h)]

theorem reduceBy_lt (c : ℕ) : reduceBy cashaddrGenerator.zipIdx c < 2 ^ 40 := by
  have h (gs : List (ℕ × ℕ)) (hgs : ∀ g ∈ gs, g.1 < 2 ^ 40) : reduceBy gs c < 2 ^ 40 := by
    induction gs with
    | nil => simp [reduceBy]
    | cons g gs ih =>
      rw [List.forall_mem_cons] at hgs
      refine Nat.xor_lt_two_pow ?_ (ih hgs.2)
      split
      · exact hgs.1
      · positivity
  exact h _ (by decide)

/-- The high bits come in as the low ones. -/
theorem reduceBy_testBit (c : ℕ) {j : ℕ} (hj : j < 5) :
    (reduceBy cashaddrGenerator.zipIdx c).testBit j = c.testBit (35 + j) := by
  have hbit (b : Bool) (g : ℕ) : (if b then g else 0).testBit j = (b && g.testBit j) := by
    cases b <;> simp
  simp only [cashaddrGenerator, reduceBy, List.zipIdx, List.foldr, Nat.testBit_xor, hbit,
    Nat.zero_testBit]
  interval_cases j <;> simp [Nat.testBit]

theorem reduceBy_eq_zero {c : ℕ} (hc : c < 2 ^ 35) : reduceBy cashaddrGenerator.zipIdx c = 0 := by
  have hbit (i : ℕ) : c.testBit (35 + i) = false :=
    Nat.testBit_lt_two_pow (hc.trans_le (Nat.pow_le_pow_right (by norm_num) (by omega)))
  simp [cashaddrGenerator, reduceBy, List.zipIdx, hbit]

theorem polymodStep_of_lt {c : ℕ} (hc : c < 2 ^ 35) (v : ℕ) : polymodStep c v = c <<< 5 ^^^ v := by
  have hmask : c &&& 0x07ffffffff = c := by
    rw [show (0x07ffffffff : ℕ) = 2 ^ 35 - 1 by rfl, Nat.and_two_pow_sub_one_eq_mod,
      Nat.mod_eq_of_lt hc]
  rw [polymodStep_eq, reduceBy_eq_zero hc, Nat.xor_zero, hmask]

theorem polymodStep_lt (c : ℕ) {v : ℕ} (hv : v < 2 ^ 40) : polymodStep c v < 2 ^ 40 := by
  rw [polymodStep_eq]
  refine Nat.xor_lt_two_pow (Nat.xor_lt_two_pow ?_ hv) (reduceBy_lt c)
  rw [show (0x07ffffffff : ℕ) = 2 ^ 35 - 1 by rfl, Nat.and_two_pow_sub_one_eq_mod,
    Nat.shiftLeft_eq]
  have := Nat.mod_lt c (show 0 < 2 ^ 35 by positivity)
  omega

theorem foldl_polymodStep_lt {vs : List ℕ} {c : ℕ} (hc : c < 2 ^ 40) (hvs : ∀ v ∈ vs, v < 2 ^ 40) :
    vs.foldl polymodStep c < 2 ^ 40 := by
  induction vs generalizing c with
  | nil => exact hc
  | cons v vs ih =>
    rw [List.forall_mem_cons] at hvs
    exact ih (polymodStep_lt c hvs.1) hvs.2

/-- A step loses nothing. -/
theorem polymodStep_zero_ne {c : ℕ} (hc : c < 2 ^ 40) (h : c ≠ 0) : polymodStep c 0 ≠ 0 := by
  intro hzero
  have hhigh {j : ℕ} (hj : j < 5) : c.testBit (35 + j) = false := by
    have hbit := congrArg (Nat.testBit · j) hzero
    simp only [polymodStep_eq, Nat.xor_zero, Nat.testBit_xor, Nat.testBit_shiftLeft,
      reduceBy_testBit c hj, Nat.zero_testBit] at hbit
    simpa [show ¬ 5 ≤ j by omega] using hbit
  have hlow : c < 2 ^ 35 := Nat.lt_pow_two_of_testBit c fun i hi => by
    by_cases hi' : i < 40
    · rw [show i = 35 + (i - 35) by omega]
      exact hhigh (by omega)
    · exact Nat.testBit_lt_two_pow (hc.trans_le (Nat.pow_le_pow_right (by norm_num) (by omega)))
  rw [polymodStep_of_lt hlow, Nat.xor_zero, Nat.shiftLeft_eq] at hzero
  omega

theorem foldl_polymodStep_zero_ne {n c : ℕ} (hc : c < 2 ^ 40) (h : c ≠ 0) :
    (List.replicate n 0).foldl polymodStep c ≠ 0 := by
  induction n generalizing c with
  | zero => exact h
  | succ n ih =>
    rw [List.replicate_succ, List.foldl_cons]
    exact ih (polymodStep_lt c (by positivity)) (polymodStep_zero_ne hc h)

theorem zipWith_xor_self (vs : List ℕ) :
    vs.zipWith (· ^^^ ·) vs = List.replicate vs.length 0 := by
  induction vs with
  | nil => rfl
  | cons v vs ih => rw [List.zipWith_cons_cons, Nat.xor_self, ih]; rfl

/-- One group changed changes the checksum. -/
theorem polymod_ne_of_change {xs ys : List ℕ} {u v : ℕ} (hu : u < 2 ^ 40) (hv : v < 2 ^ 40)
    (h : u ≠ v) :
    cashaddrPolymod (xs ++ u :: ys) ≠ cashaddrPolymod (xs ++ v :: ys) := by
  intro heq
  unfold cashaddrPolymod at heq
  have hfold := Nat.xor_left_inj.1 heq
  rw [List.foldl_append, List.foldl_append, List.foldl_cons, List.foldl_cons] at hfold
  generalize xs.foldl polymodStep 1 = s at hfold
  have hdiff := @foldl_polymodStep_xor ys ys rfl (polymodStep s u) (polymodStep s v)
  rw [hfold, Nat.xor_self, zipWith_xor_self, ← polymodStep_xor, Nat.xor_self,
    polymodStep_of_lt (by positivity), Nat.zero_shiftLeft, Nat.zero_xor] at hdiff
  exact foldl_polymodStep_zero_ne (Nat.xor_lt_two_pow hu hv) (mt Nat.xor_eq_zero_iff.1 h) hdiff

/-- The last groups are the low bits of the checksum. -/
theorem bitsOf_foldl_polymodStep {cs : List ℕ} (hcs : ∀ c ∈ cs, c < 2 ^ 5) (hlen : cs.length ≤ 8) :
    cs.foldl polymodStep 0 < 2 ^ (5 * cs.length) ∧
      bitsOf (5 * cs.length) (cs.foldl polymodStep 0) = bitsOfGroups 5 cs := by
  induction cs using List.reverseRecOn with
  | nil => exact ⟨by decide, rfl⟩
  | append_singleton cs v ih =>
    rw [List.length_append, List.length_singleton] at hlen ⊢
    have hv : v < 2 ^ 5 := hcs v (List.mem_append_right _ List.mem_cons_self)
    obtain ⟨hlt, hbits⟩ := ih (fun c hc => hcs c (List.mem_append_left _ hc)) (by omega)
    have hsmall : cs.foldl polymodStep 0 < 2 ^ 35 :=
      hlt.trans_le (Nat.pow_le_pow_right (by norm_num) (by omega))
    rw [List.foldl_append, List.foldl_cons, List.foldl_nil, polymodStep_of_lt hsmall,
      Nat.mul_add, Nat.mul_one]
    have hbit (i : ℕ) : (cs.foldl polymodStep 0 <<< 5 ^^^ v).testBit i =
        ((decide (5 ≤ i) && (cs.foldl polymodStep 0).testBit (i - 5)) ^^ v.testBit i) := by
      rw [Nat.testBit_xor, Nat.testBit_shiftLeft]
    refine ⟨Nat.xor_lt_two_pow ?_ (hv.trans_le (Nat.pow_le_pow_right (by norm_num) (by omega))), ?_⟩
    · rw [Nat.shiftLeft_eq, pow_add]
      exact Nat.mul_lt_mul_of_pos_right hlt (by positivity)
    · rw [bitsOf_add, bitsOfGroups_append, bitsOfGroups_cons, bitsOfGroups_nil, List.append_nil,
        ← hbits]
      congr 1 <;> refine bitsOf_congr fun i hi => ?_
      · have hhigh : v.testBit (5 + i) = false :=
          Nat.testBit_lt_two_pow (hv.trans_le (Nat.pow_le_pow_right (by norm_num) (by omega)))
        simp [Nat.testBit_shiftRight, hbit, hhigh]
      · simp [hbit, show ¬ 5 ≤ i by omega]

theorem bitsOfGroups_checksumOf (m : ℕ) : bitsOfGroups 5 (checksumOf m) = bitsOf 40 m := by
  have hmask (x : ℕ) : bitsOf 5 (x &&& 0x1f) = bitsOf 5 x := bitsOf_mask 5 x
  have hsplit (k : ℕ) : bitsOf (5 + k) m = bitsOf 5 (m >>> k) ++ bitsOf k m := bitsOf_add 5 k m
  rw [hsplit 35, hsplit 30, hsplit 25, hsplit 20, hsplit 15, hsplit 10, hsplit 5]
  simp [checksumOf, List.range_succ, bitsOfGroups, hmask]

theorem checksumOf_lt {m c : ℕ} (hc : c ∈ checksumOf m) : c < 2 ^ 5 := by
  obtain ⟨i, -, rfl⟩ := List.mem_map.1 hc
  rw [show (0x1f : ℕ) = 2 ^ 5 - 1 by rfl, Nat.and_two_pow_sub_one_eq_mod]
  exact Nat.mod_lt _ (by positivity)

@[simp] theorem length_checksumOf (m : ℕ) : (checksumOf m).length = 8 := by
  rw [checksumOf, List.length_map, List.length_range]

/-- Eight groups check what is before them exactly when they are its checksum. -/
theorem polymod_eq_zero_iff {vs cs : List ℕ} (hvs : ∀ v ∈ vs, v < 2 ^ 5) (hcs : ∀ c ∈ cs, c < 2 ^ 5)
    (hlen : cs.length = 8) :
    cashaddrPolymod (vs ++ cs) = 0 ↔
      cs = checksumOf (cashaddrPolymod (vs ++ List.replicate 8 0)) := by
  have hxor : (List.replicate 8 0).zipWith (· ^^^ ·) cs = cs := by
    rw [← hlen]
    clear hcs hlen
    induction cs with
    | nil => rfl
    | cons c cs ih =>
      rw [List.length_cons, List.replicate_succ, List.zipWith_cons_cons, ih, Nat.zero_xor]
  have hsplit := @foldl_polymodStep_xor (List.replicate 8 0) cs hlen.symm
    (vs.foldl polymodStep 1) 0
  rw [hxor, Nat.xor_zero] at hsplit
  obtain ⟨hlt, hbits⟩ := bitsOf_foldl_polymodStep hcs hlen.le
  rw [hlen] at hlt hbits
  have hm : cashaddrPolymod (vs ++ List.replicate 8 0) < 2 ^ 40 := by
    refine Nat.xor_lt_two_pow (foldl_polymodStep_lt (by norm_num) fun v hv => ?_) (by norm_num)
    rcases List.mem_append.1 hv with hv | hv
    · exact (hvs v hv).trans (by norm_num)
    · rw [List.eq_of_mem_replicate hv]
      norm_num
  have hpolymod : cashaddrPolymod (vs ++ cs) =
      cashaddrPolymod (vs ++ List.replicate 8 0) ^^^ cs.foldl polymodStep 0 := by
    rw [cashaddrPolymod, cashaddrPolymod, List.foldl_append, List.foldl_append, hsplit]
    ac_rfl
  rw [hpolymod, Nat.xor_eq_zero_iff]
  constructor
  · intro heq
    refine bitsOfGroups_inj hcs (fun c => checksumOf_lt) (by rw [hlen, length_checksumOf]) ?_
    rw [bitsOfGroups_checksumOf, heq, hbits]
  · rintro heq
    refine bitsOf_inj hm hlt ?_
    rw [hbits, ← bitsOfGroups_checksumOf, ← heq]

/-! ## Bodies -/

theorem idxOf_charOf {v : ℕ} (hv : v < 2 ^ 5) :
    cashaddrCharset.idxOf? (charOf v) = some v ∧ isLowerOrDigit (charOf v) := by
  have h : ∀ v < 2 ^ 5, cashaddrCharset.idxOf? (charOf v) = some v ∧ isLowerOrDigit (charOf v) := by
    decide +kernel
  exact h v hv

theorem charOf_idxOf {c : Char} {v : ℕ} (h : cashaddrCharset.idxOf? c = some v) :
    v < 2 ^ 5 ∧ charOf v = c := by
  obtain ⟨hv, heq, -⟩ := List.findIdx?_eq_some_iff_getElem.1 h
  refine ⟨hv, ?_⟩
  rw [charOf, List.getD_eq_getElem _ _ hv]
  exact eq_of_beq heq

theorem valuesOf_eq_some_iff {body : List Char} {values : List ℕ} :
    valuesOf body = some values ↔ body = values.map charOf ∧ ∀ v ∈ values, v < 2 ^ 5 := by
  rw [valuesOf]
  induction body generalizing values with
  | nil => cases values <;> simp
  | cons c body ih =>
    rw [List.mapM_cons]
    constructor
    · intro h
      obtain ⟨v, hv, h⟩ := Option.bind_eq_some_iff.1 h
      obtain ⟨vs, hvs, h⟩ := Option.bind_eq_some_iff.1 h
      obtain rfl := Option.some.inj h
      obtain ⟨hlt, hchar⟩ := charOf_idxOf hv
      obtain ⟨rfl, hall⟩ := ih.1 hvs
      exact ⟨by rw [List.map_cons, hchar], List.forall_mem_cons.2 ⟨hlt, hall⟩⟩
    · rintro ⟨hbody, hall⟩
      cases values with
      | nil => cases hbody
      | cons v vs =>
        obtain ⟨rfl, rfl⟩ := List.cons.inj hbody
        rw [List.forall_mem_cons] at hall
        rw [(idxOf_charOf hall.1).1, ih.2 ⟨rfl, hall.2⟩]
        rfl

theorem hashOf_eq_some_iff {payload : List ℕ} (hlt : ∀ v ∈ payload, v < 2 ^ 8) {h : Hash160} :
    hashOf payload = some h ↔ payload = h.toList.map UInt8.toNat := by
  have hround : (payload.map UInt8.ofNat).map UInt8.toNat = payload := by
    rw [List.map_map]
    refine (List.map_congr_left fun v hv => ?_).trans (List.map_id _)
    exact UInt8.toNat_ofNat_of_lt' (hlt v hv)
  unfold hashOf
  constructor
  · intro hsome
    split at hsome
    · obtain rfl := Option.some.inj hsome
      exact hround.symm
    · cases hsome
  · rintro rfl
    rw [dif_pos (by simp)]
    refine congrArg some (Vector.toList_inj.1 ?_)
    have hbyte : UInt8.ofNat ∘ UInt8.toNat = id := by
      funext b
      exact UInt8.ofNat_toNat
    simp [Vector.toList, hbyte]

theorem payload_lt (h : Hash160) : ∀ v ∈ cashaddrPayload h, v < 2 ^ 8 := by
  refine List.forall_mem_cons.2 ⟨by norm_num, fun v hv => ?_⟩
  obtain ⟨b, -, rfl⟩ := List.mem_map.1 hv
  exact b.toNat_lt

theorem cashaddrGroups_spec (h : Hash160) :
    convertBits (cashaddrPayload h) 8 5 true = some (cashaddrGroups h) ∧
      (∀ g ∈ cashaddrGroups h, g < 2 ^ 5) ∧ (cashaddrGroups h).length = 34 := by
  obtain ⟨gs, k, hgs, hlt, hk, hbits⟩ :=
    convertBits_pad (a := 8) (b := 5) (by norm_num) (by norm_num) (payload_lt h)
  have hgroups : cashaddrGroups h = gs := by rw [cashaddrGroups, hgs, Option.getD_some]
  refine ⟨by rw [hgroups, hgs], hgroups ▸ hlt, ?_⟩
  have hlen := congrArg List.length hbits
  simp only [length_bitsOfGroups, List.length_append, List.length_replicate, cashaddrPayload,
    List.length_cons, List.length_map, Vector.length_toList] at hlen
  rw [hgroups]
  omega

def cashaddrValues (pre : String) (h : Hash160) : List ℕ :=
  cashaddrGroups h ++ checksumOf (cashaddrPolymod
    (cashaddrExpandPrefix pre ++ cashaddrGroups h ++ List.replicate 8 0))

theorem cashaddrValues_lt (pre : String) (h : Hash160) : ∀ v ∈ cashaddrValues pre h, v < 2 ^ 5 := by
  intro v hv
  rcases List.mem_append.1 hv with hv | hv
  · exact (cashaddrGroups_spec h).2.1 v hv
  · exact checksumOf_lt hv

theorem length_cashaddrValues (pre : String) (h : Hash160) : (cashaddrValues pre h).length = 42 := by
  rw [cashaddrValues, List.length_append, (cashaddrGroups_spec h).2.2, length_checksumOf]

@[simp] theorem length_cashaddrBody (pre : String) (h : Hash160) :
    (cashaddrBody pre h).length = 42 := by
  rw [cashaddrBody, List.length_map]
  exact length_cashaddrValues pre h

theorem expandPrefix_lt (pre : String) : ∀ v ∈ cashaddrExpandPrefix pre, v < 2 ^ 5 := by
  intro v hv
  rcases List.mem_append.1 hv with hv | hv
  · obtain ⟨b, -, rfl⟩ := List.mem_map.1 hv
    rw [show (0x1f : ℕ) = 2 ^ 5 - 1 by rfl, Nat.and_two_pow_sub_one_eq_mod]
    exact Nat.mod_lt _ (by positivity)
  · rw [List.mem_singleton.1 hv]
    norm_num

theorem checked_lt (pre : String) (h : Hash160) :
    ∀ v ∈ cashaddrExpandPrefix pre ++ cashaddrGroups h, v < 2 ^ 5 := by
  intro v hv
  rcases List.mem_append.1 hv with hv | hv
  · exact expandPrefix_lt pre v hv
  · exact (cashaddrGroups_spec h).2.1 v hv

theorem polymod_cashaddrValues (pre : String) (h : Hash160) :
    cashaddrPolymod (cashaddrExpandPrefix pre ++ cashaddrValues pre h) = 0 := by
  rw [cashaddrValues, ← List.append_assoc]
  exact (polymod_eq_zero_iff (checked_lt pre h) (fun c => checksumOf_lt) (length_checksumOf _)).2
    rfl

theorem payloadOf_eq_some_iff {groups : List ℕ} (hlt : ∀ g ∈ groups, g < 2 ^ 5) {h : Hash160} :
    ((convertBits groups 5 8 false).bind fun payload =>
      match payload with
      | 0 :: hash => hashOf hash
      | _ => none) = some h ↔ groups = cashaddrGroups h := by
  have hinverse {payload : List ℕ} (hp : ∀ v ∈ payload, v < 2 ^ 8) :=
    convertBits_inverse (a := 8) (b := 5) (by norm_num) (by norm_num) (by norm_num) hp hlt
  constructor
  · intro hsome
    obtain ⟨payload, hpayload, hhash⟩ := Option.bind_eq_some_iff.1 hsome
    have hbytes := ((convertBits_noPad (by norm_num) (by norm_num) hlt).1 hpayload).1
    split at hhash
    · rw [List.forall_mem_cons] at hbytes
      rw [hashOf_eq_some_iff hbytes.2] at hhash
      subst hhash
      have hgroups := (hinverse (payload_lt h)).1 hpayload
      rw [(cashaddrGroups_spec h).1] at hgroups
      exact (Option.some.inj hgroups).symm
    · cases hhash
  · rintro rfl
    rw [(hinverse (payload_lt h)).2 (cashaddrGroups_spec h).1]
    exact (hashOf_eq_some_iff fun v hv => payload_lt h v (List.mem_cons_of_mem _ hv)).2 rfl

/-- Of the bodies only the one that is made for a hash is read as it. -/
theorem decodeBody_eq_some_iff {pre : String} {body : List Char} {h : Hash160} :
    cashaddrDecodeBody pre body = some h ↔ body = cashaddrBody pre h := by
  have hbody : cashaddrBody pre h = (cashaddrValues pre h).map charOf := rfl
  constructor
  · intro hsome
    unfold cashaddrDecodeBody at hsome
    split at hsome
    · cases hsome
    obtain ⟨values, hvalues, hchecked⟩ := Option.bind_eq_some_iff.1 hsome
    obtain ⟨rfl, hlt⟩ := valuesOf_eq_some_iff.1 hvalues
    split at hchecked
    · cases hchecked
    rename_i hlong
    split at hchecked
    · cases hchecked
    rename_i hpolymod
    have hgroups := (payloadOf_eq_some_iff fun g hg => hlt g (List.mem_of_mem_take hg)).1 hchecked
    rw [hbody, ← List.take_append_drop (values.length - 8) values, hgroups]
    congr 2
    rw [← List.take_append_drop (values.length - 8) values, hgroups, ← List.append_assoc, not_not,
      polymod_eq_zero_iff] at hpolymod
    · exact hpolymod
    · exact checked_lt pre h
    · exact fun c hc => hlt c (List.mem_of_mem_drop hc)
    · rw [List.length_drop]
      omega
  · rintro rfl
    have hlt := cashaddrValues_lt pre h
    have hlen := length_cashaddrValues pre h
    have hall : ((cashaddrValues pre h).map charOf).all isLowerOrDigit := by
      rw [List.all_map, List.all_eq_true]
      exact fun v hv => (idxOf_charOf (hlt v hv)).2
    have htake : (cashaddrValues pre h).take ((cashaddrValues pre h).length - 8) =
        cashaddrGroups h := by
      rw [hlen, cashaddrValues, show 42 - 8 = (cashaddrGroups h).length from
        (cashaddrGroups_spec h).2.2.symm]
      exact List.take_left
    rw [hbody, cashaddrDecodeBody, hall, valuesOf_eq_some_iff.2 ⟨rfl, hlt⟩, Bool.not_true,
      if_neg Bool.false_ne_true, Option.bind_some, if_neg (by omega),
      if_neg (not_not.2 (polymod_cashaddrValues pre h)), htake]
    exact (payloadOf_eq_some_iff (cashaddrGroups_spec h).2.1).2 rfl

theorem bodyOf_append (pre : String) (body : List Char) :
    bodyOf pre (pre ++ ":" ++ String.ofList body) = body := by
  have htext : (pre ++ ":" ++ String.ofList body).toList = (pre ++ ":").toList ++ body := by
    rw [String.toList_append, String.toList_ofList]
  have hprefix : (pre ++ ":").toList.isPrefixOf ((pre ++ ":").toList ++ body) :=
    List.isPrefixOf_iff_prefix.2 (List.prefix_append _ _)
  rw [bodyOf, htext, stripPrefix, if_pos hprefix, Option.getD_some, List.drop_left]

/-- What is taken for a body is the text, or less than it. -/
theorem bodyOf_eq_or_length_lt (pre s : String) :
    bodyOf pre s = s.toList ∨ (bodyOf pre s).length < s.toList.length := by
  unfold bodyOf stripPrefix
  split
  · rename_i hprefix
    obtain ⟨t, ht⟩ := List.isPrefixOf_iff_prefix.1 hprefix
    right
    rw [Option.getD_some, ← ht, List.drop_left, List.length_append, String.toList_append,
      List.length_append]
    have : (":" : String).toList.length = 1 := rfl
    omega
  · exact Or.inl (Option.getD_none ..)

theorem decodeBody_eq_none_of_change {pre : String} {xs ys : List Char} {c d : Char} {h : Hash160}
    (hbody : xs ++ c :: ys = cashaddrBody pre h) (hne : d ≠ c) :
    cashaddrDecodeBody pre (xs ++ d :: ys) = none := by
  have hvalues {cs : List Char} {vs : List ℕ} (hcs : vs.map charOf = cs)
      (hvs : ∀ v ∈ vs, v < 2 ^ 5) : valuesOf cs = some vs :=
    valuesOf_eq_some_iff.2 ⟨hcs.symm, hvs⟩
  refine Option.eq_none_iff_forall_ne_some.2 fun h' hsome => ?_
  have hbody' := decodeBody_eq_some_iff.1 hsome
  have hlt := cashaddrValues_lt pre h
  have hlt' := cashaddrValues_lt pre h'
  have hzero := polymod_cashaddrValues pre h
  have hzero' := polymod_cashaddrValues pre h'
  obtain ⟨us, us₁, hus, hxs, hrest⟩ := List.map_eq_append_iff.1 hbody.symm
  obtain ⟨u, us₂, rfl, rfl, hys⟩ := List.map_eq_cons_iff.1 hrest
  obtain ⟨vs, vs₁, hvs, hxs', hrest'⟩ := List.map_eq_append_iff.1 hbody'.symm
  obtain ⟨v, vs₂, rfl, rfl, hys'⟩ := List.map_eq_cons_iff.1 hrest'
  change cashaddrValues pre h = us ++ u :: us₂ at hus
  change cashaddrValues pre h' = vs ++ v :: vs₂ at hvs
  rw [hus] at hlt hzero
  rw [hvs] at hlt' hzero'
  simp only [List.mem_append, List.mem_cons, or_imp, forall_and, forall_eq] at hlt hlt'
  -- the groups before the character and those after it are the same
  obtain rfl : us = vs :=
    Option.some.inj ((hvalues hxs hlt.1).symm.trans (hvalues hxs' hlt'.1))
  obtain rfl : us₂ = vs₂ :=
    Option.some.inj ((hvalues hys hlt.2.2).symm.trans (hvalues hys' hlt'.2.2))
  have hchange : u ≠ v := fun heq => hne (by rw [heq])
  refine @polymod_ne_of_change (cashaddrExpandPrefix pre ++ us) us₂ u v
    (hlt.2.1.trans (by norm_num)) (hlt'.2.1.trans (by norm_num)) hchange ?_
  rw [List.append_assoc, hzero, List.append_assoc, hzero']

/-- Each hash has one body and is read back from it; no body with one character changed is
read. -/
theorem cashaddr_bijection (pre : String) :
    (∀ h, cashaddrDecode pre (cashaddrEncode pre h) = some h) ∧
    (∀ s h, cashaddrDecode pre s = some h → cashaddrEncode pre h =
      pre ++ ":" ++ String.ofList (bodyOf pre s)) ∧
    ∀ s h xs c ys d, cashaddrDecode pre s = some h → bodyOf pre s = xs ++ c :: ys → d ≠ c →
      cashaddrDecode pre (pre ++ ":" ++ String.ofList (xs ++ d :: ys)) = none ∧
      cashaddrDecode pre (String.ofList (xs ++ d :: ys)) = none := by
  refine ⟨fun h => ?_, fun s h hs => ?_, fun s h xs c ys d hs hbody hne => ?_⟩
  · rw [cashaddrDecode, cashaddrEncode, bodyOf_append]
    exact decodeBody_eq_some_iff.2 rfl
  · rw [cashaddrEncode, decodeBody_eq_some_iff.1 hs]
  · have hsome := decodeBody_eq_some_iff.1 hs
    rw [hbody] at hsome
    have hnone := decodeBody_eq_none_of_change hsome hne
    refine ⟨by rw [cashaddrDecode, bodyOf_append, hnone], ?_⟩
    rcases bodyOf_eq_or_length_lt pre (String.ofList (xs ++ d :: ys)) with heq | hlt
    · rw [cashaddrDecode, heq, String.toList_ofList, hnone]
    -- the new character may make a prefix, and the body is too short then
    · refine Option.eq_none_iff_forall_ne_some.2 fun h' hs' => ?_
      have hlen := congrArg List.length (decodeBody_eq_some_iff.1 hs')
      have hlen' := congrArg List.length hsome
      rw [length_cashaddrBody] at hlen hlen'
      rw [hlen, String.toList_ofList, List.length_append, List.length_cons] at hlt
      rw [List.length_append, List.length_cons] at hlen'
      omega

end SatsPay
