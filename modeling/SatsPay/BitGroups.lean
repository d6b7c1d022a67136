import Mathlib.Tactic

/-!
# Regrouping bits

Numbers as groups of bits, the highest bit first, and the loop that cuts the bits of a list of
groups anew. What it makes of the groups, with padding, is what it takes back without.
-/

namespace BitGroups

/-! ## Bits -/

def bitsOf : ℕ → ℕ → List Bool
  | 0, _ => []
  | k + 1, n => n.testBit k :: bitsOf k n

@[simp] theorem length_bitsOf (k n : ℕ) : (bitsOf k n).length = k := by
  induction k with
  | zero => rfl
  | succ k ih => rw [bitsOf, List.length_cons, ih]

theorem bitsOf_congr {k a b : ℕ} (h : ∀ i < k, a.testBit i = b.testBit i) :
    bitsOf k a = bitsOf k b := by
  induction k with
  | zero => rfl
  | succ k ih => rw [bitsOf, bitsOf, h k (by omega), ih fun i hi => h i (by omega)]

theorem testBit_of_bitsOf {k a b : ℕ} (h : bitsOf k a = bitsOf k b) :
    ∀ i < k, a.testBit i = b.testBit i := by
  induction k with
  | zero => intro i hi; omega
  | succ k ih =>
    obtain ⟨hk, h⟩ := List.cons.inj h
    intro i hi
    rcases Nat.lt_succ_iff_lt_or_eq.1 hi with hi | rfl
    · exact ih h i hi
    · exact hk

theorem bitsOf_inj {k a b : ℕ} (ha : a < 2 ^ k) (hb : b < 2 ^ k) (h : bitsOf k a = bitsOf k b) :
    a = b := by
  refine Nat.eq_of_testBit_eq fun i => ?_
  by_cases hi : i < k
  · exact testBit_of_bitsOf h i hi
  · have hpow : 2 ^ k ≤ 2 ^ i := Nat.pow_le_pow_right (by norm_num) (not_lt.1 hi)
    rw [Nat.testBit_lt_two_pow (ha.trans_le hpow), Nat.testBit_lt_two_pow (hb.trans_le hpow)]

theorem bitsOf_add (m k n : ℕ) : bitsOf (m + k) n = bitsOf m (n >>> k) ++ bitsOf k n := by
  induction m with
  | zero => rw [Nat.zero_add]; rfl
  | succ m ih =>
    rw [Nat.succ_add, bitsOf, ih, bitsOf, Nat.testBit_shiftRight, Nat.add_comm k m]
    rfl

@[simp] theorem bitsOf_zero (k : ℕ) : bitsOf k 0 = List.replicate k false := by
  induction k with
  | zero => rfl
  | succ k ih => rw [bitsOf, ih, Nat.zero_testBit]; rfl

@[simp] theorem bitsOf_mask (k n : ℕ) : bitsOf k (n &&& (2 ^ k - 1)) = bitsOf k n :=
  bitsOf_congr fun i hi => by simp [hi]

/-- The bits of groups of `k` bits. -/
def bitsOfGroups (k : ℕ) (gs : List ℕ) : List Bool := gs.flatMap (bitsOf k)

@[simp] theorem bitsOfGroups_nil (k : ℕ) : bitsOfGroups k [] = [] := rfl

@[simp] theorem bitsOfGroups_cons (k g : ℕ) (gs : List ℕ) :
    bitsOfGroups k (g :: gs) = bitsOf k g ++ bitsOfGroups k gs := List.flatMap_cons

@[simp] theorem bitsOfGroups_append (k : ℕ) (gs hs : List ℕ) :
    bitsOfGroups k (gs ++ hs) = bitsOfGroups k gs ++ bitsOfGroups k hs := List.flatMap_append

@[simp] theorem length_bitsOfGroups (k : ℕ) (gs : List ℕ) :
    (bitsOfGroups k gs).length = k * gs.length := by
  induction gs with
  | nil => rfl
  | cons g gs ih =>
    rw [bitsOfGroups_cons, List.length_append, length_bitsOf, ih, List.length_cons]
    ring

theorem bitsOfGroups_inj {k : ℕ} {gs hs : List ℕ} (hg : ∀ g ∈ gs, g < 2 ^ k)
    (hh : ∀ h ∈ hs, h < 2 ^ k) (hlen : gs.length = hs.length)
    (h : bitsOfGroups k gs = bitsOfGroups k hs) : gs = hs := by
  induction gs generalizing hs with
  | nil => exact (List.length_eq_zero_iff.1 hlen.symm).symm
  | cons g gs ih =>
    cases hs with
    | nil => cases hlen
    | cons x hs =>
      rw [List.forall_mem_cons] at hg hh
      rw [bitsOfGroups_cons, bitsOfGroups_cons] at h
      obtain ⟨h₁, h₂⟩ := List.append_inj h (by simp)
      rw [bitsOf_inj hg.1 hh.1 h₁, ih hg.2 hh.2 (Nat.succ.inj hlen) h₂]

/-! ## The loop -/

/-- As long as there are `toBits` bits, the highest are a group. -/
def emitGroups (toBits acc : ℕ) : ℕ → ℕ → List ℕ × ℕ
  | 0, bits => ([], bits)
  | fuel + 1, bits =>
    if toBits ≤ bits then
      let (gs, rest) := emitGroups toBits acc fuel (bits - toBits)
      (((acc >>> (bits - toBits)) &&& (2 ^ toBits - 1)) :: gs, rest)
    else ([], bits)

structure Regrouping where
  /-- A word of 32 bits. -/
  acc : ℕ
  bits : ℕ
  out : List ℕ

def Regrouping.push (fromBits toBits : ℕ) (r : Regrouping) (value : ℕ) : Regrouping :=
  let acc := (r.acc <<< fromBits) % 2 ^ 32 ||| value
  let bits := r.bits + fromBits
  let (gs, bits) := emitGroups toBits acc bits bits
  ⟨acc, bits, r.out ++ gs⟩

def convertBits (data : List ℕ) (fromBits toBits : ℕ) (pad : Bool) : Option (List ℕ) :=
  let r := data.foldl (Regrouping.push fromBits toBits) ⟨0, 0, []⟩
  let last := ((r.acc <<< (toBits - r.bits)) % 2 ^ 32) &&& (2 ^ toBits - 1)
  if pad && decide (0 < r.bits) then some (r.out ++ [last])
  else if !pad && (decide (fromBits ≤ r.bits) || last != 0) then none
  else some r.out

section
variable {a b : ℕ}

theorem emitGroups_spec {acc fuel bits : ℕ} (hb : 0 < b) (hfuel : bits ≤ fuel) :
    bitsOf bits acc = bitsOfGroups b (emitGroups b acc fuel bits).1 ++
      bitsOf (emitGroups b acc fuel bits).2 acc ∧
    (∀ g ∈ (emitGroups b acc fuel bits).1, g < 2 ^ b) ∧ (emitGroups b acc fuel bits).2 < b := by
  induction fuel generalizing bits with
  | zero =>
    obtain rfl : bits = 0 := by omega
    exact ⟨rfl, nofun, hb⟩
  | succ fuel ih =>
    unfold emitGroups
    split
    · rename_i hle
      obtain ⟨h₁, h₂, h₃⟩ := @ih (bits - b) (by omega)
      refine ⟨?_, List.forall_mem_cons.2 ⟨?_, h₂⟩, h₃⟩
      · have hsplit := bitsOf_add b (bits - b) acc
        rw [Nat.add_sub_cancel' hle] at hsplit
        rw [hsplit, h₁, bitsOfGroups_cons, bitsOf_mask, List.append_assoc]
      · rw [Nat.and_two_pow_sub_one_eq_mod]
        exact Nat.mod_lt _ (by positivity)
    · exact ⟨rfl, nofun, by omega⟩

/-- What has been read is what has been put out and what is left in the word. -/
structure Regroups (fromBits toBits : ℕ) (data : List ℕ) (r : Regrouping) : Prop where
  bits : bitsOfGroups fromBits data = bitsOfGroups toBits r.out ++ bitsOf r.bits r.acc
  groups : ∀ g ∈ r.out, g < 2 ^ toBits
  left : r.bits < toBits

theorem bitsOf_push {acc value bits : ℕ} (hv : value < 2 ^ a) (hword : bits + a ≤ 32) :
    bitsOf (bits + a) ((acc <<< a) % 2 ^ 32 ||| value) = bitsOf bits acc ++ bitsOf a value := by
  rw [bitsOf_add]
  congr 1
  · refine bitsOf_congr fun i hi => ?_
    have hhigh : value.testBit (a + i) = false :=
      Nat.testBit_lt_two_pow (hv.trans_le (Nat.pow_le_pow_right (by norm_num) (by omega)))
    rw [Nat.testBit_shiftRight, Nat.testBit_or, Nat.testBit_mod_two_pow, Nat.testBit_shiftLeft,
      hhigh]
    simp [show a + i < 32 by omega]
  · refine bitsOf_congr fun i hi => ?_
    rw [Nat.testBit_or, Nat.testBit_mod_two_pow, Nat.testBit_shiftLeft]
    simp [show ¬ a ≤ i by omega]

theorem Regroups.push {data : List ℕ} {r : Regrouping} {value : ℕ} (hb : 0 < b)
    (hword : a + b ≤ 32) (h : Regroups a b data r) (hv : value < 2 ^ a) :
    Regroups a b (data ++ [value]) (r.push a b value) := by
  have hleft := h.left
  obtain ⟨h₁, h₂, h₃⟩ := @emitGroups_spec b ((r.acc <<< a) % 2 ^ 32 ||| value) _ _ hb
    (Nat.le_refl (r.bits + a))
  refine ⟨?_, fun g hg => ?_, h₃⟩
  · have hpush := @bitsOf_push a r.acc value r.bits hv (show r.bits + a ≤ 32 by omega)
    simp only [bitsOfGroups_append, h.bits, bitsOfGroups_cons, bitsOfGroups_nil,
      List.append_nil, List.append_assoc, ← hpush, h₁, Regrouping.push]
  · rcases List.mem_append.1 hg with hg | hg
    · exact h.groups g hg
    · exact h₂ g hg

theorem regroups_foldl {data : List ℕ} (hb : 0 < b) (hword : a + b ≤ 32)
    (hdata : ∀ v ∈ data, v < 2 ^ a) :
    Regroups a b data (data.foldl (Regrouping.push a b) ⟨0, 0, []⟩) := by
  induction data using List.reverseRecOn with
  | nil => exact ⟨rfl, nofun, hb⟩
  | append_singleton data v ih =>
    rw [List.foldl_append]
    exact (ih fun w hw => hdata w (List.mem_append_left _ hw)).push hb hword
      (hdata v (List.mem_append_right _ List.mem_cons_self))

/-- What is left in the word, with zeros after it. -/
theorem bitsOf_last {acc bits : ℕ} (hleft : bits < b) (hb : b ≤ 32) :
    bitsOf b (((acc <<< (b - bits)) % 2 ^ 32) &&& (2 ^ b - 1)) =
      bitsOf bits acc ++ List.replicate (b - bits) false := by
  have h := @bitsOf_push (b - bits) acc 0 bits (by positivity)
    (by omega)
  rw [Nat.or_zero, Nat.add_sub_cancel' hleft.le, bitsOf_zero] at h
  rw [bitsOf_mask, h]

/-- With padding the bits are followed by zeros, fewer than a group. -/
theorem convertBits_pad {data : List ℕ} (hb : 0 < b) (hword : a + b ≤ 32)
    (hdata : ∀ v ∈ data, v < 2 ^ a) :
    ∃ out k, convertBits data a b true = some out ∧ (∀ g ∈ out, g < 2 ^ b) ∧ k < b ∧
      bitsOfGroups b out = bitsOfGroups a data ++ List.replicate k false := by
  have h := regroups_foldl hb hword hdata
  unfold convertBits
  generalize data.foldl (Regrouping.push a b) ⟨0, 0, []⟩ = r at h
  have hleft := h.left
  dsimp only
  by_cases hbits : 0 < r.bits
  · refine ⟨_, b - r.bits, if_pos (by simpa using hbits), fun g hg => ?_, by omega, ?_⟩
    · rcases List.mem_append.1 hg with hg | hg
      · exact h.groups g hg
      · rw [List.mem_singleton.1 hg, Nat.and_two_pow_sub_one_eq_mod]
        exact Nat.mod_lt _ (by positivity)
    · simp only [bitsOfGroups_append, bitsOfGroups_cons, bitsOfGroups_nil, List.append_nil,
        bitsOf_last hleft (by omega), h.bits, List.append_assoc]
  · have hzero : r.bits = 0 := Nat.eq_zero_of_not_pos hbits
    refine ⟨r.out, 0, ?_, h.groups, hb, ?_⟩
    · simp [hzero]
    · rw [h.bits, hzero]
      simp [bitsOf]

/-- Without padding there are zeros left, fewer than a group. -/
theorem convertBits_noPad {data out : List ℕ} (hb : 0 < b) (hword : a + b ≤ 32)
    (hdata : ∀ v ∈ data, v < 2 ^ a) :
    convertBits data a b false = some out ↔ (∀ g ∈ out, g < 2 ^ b) ∧ ∃ k, k < a ∧ k < b ∧
      bitsOfGroups a data = bitsOfGroups b out ++ List.replicate k false := by
  have h := regroups_foldl hb hword hdata
  unfold convertBits
  generalize data.foldl (Regrouping.push a b) ⟨0, 0, []⟩ = r at h
  have hleft := h.left
  dsimp only
  have hlast := @bitsOf_last b r.acc r.bits hleft (by omega)
  have hlt : ((r.acc <<< (b - r.bits)) % 2 ^ 32) &&& (2 ^ b - 1) < 2 ^ b := by
    rw [Nat.and_two_pow_sub_one_eq_mod]
    exact Nat.mod_lt _ (by positivity)
  generalize ((r.acc <<< (b - r.bits)) % 2 ^ 32) &&& (2 ^ b - 1) = last at hlast hlt
  have hzeros : last = 0 ↔ bitsOf r.bits r.acc = List.replicate r.bits false := by
    have hrep : List.replicate b false =
        List.replicate r.bits false ++ List.replicate (b - r.bits) false := by
      rw [List.replicate_append_replicate, Nat.add_sub_cancel' hleft.le]
    constructor
    · rintro rfl
      rw [bitsOf_zero, hrep] at hlast
      exact (List.append_inj hlast (by simp)).1.symm
    · intro hz
      refine bitsOf_inj hlt (by positivity) ?_
      rw [hlast, hz, ← hrep, bitsOf_zero]
  simp only [Bool.false_and, Bool.false_eq_true, if_false, Bool.not_false, Bool.true_and]
  constructor
  · intro hsome
    split at hsome
    · cases hsome
    · rename_i hcond
      cases hsome
      simp only [Bool.or_eq_true, decide_eq_true_eq, bne_iff_ne, not_or, not_le, not_not] at hcond
      exact ⟨h.groups, r.bits, hcond.1, hleft, hzeros.1 hcond.2 ▸ h.bits⟩
  · rintro ⟨hout, k, hka, hkb, hk⟩
    rw [h.bits] at hk
    have hlen := congrArg List.length hk
    simp only [List.length_append, length_bitsOfGroups, length_bitsOf, List.length_replicate]
      at hlen
    -- the zeros are what is left, since neither makes a group
    have hbits : r.bits = k := by
      have h₁ := congrArg (· % b) hlen
      simpa [Nat.mul_add_mod, Nat.mod_eq_of_lt hleft, Nat.mod_eq_of_lt hkb] using h₁
    subst hbits
    have hcount : r.out.length = out.length := Nat.eq_of_mul_eq_mul_left hb (by omega)
    obtain ⟨h₁, h₂⟩ := List.append_inj hk (by simp [hcount])
    rw [if_neg, bitsOfGroups_inj h.groups hout hcount h₁]
    simp only [Bool.or_eq_true, decide_eq_true_eq, bne_iff_ne, not_or, not_le, not_not]
    exact ⟨hka, hzeros.2 h₂⟩

/-- Larger groups are taken back from the smaller ones that are made of them, and from no
others. -/
theorem convertBits_inverse {large small : List ℕ} (hab : b ≤ a) (hb : 0 < b) (hword : a + b ≤ 32)
    (hlarge : ∀ v ∈ large, v < 2 ^ a) (hsmall : ∀ v ∈ small, v < 2 ^ b) :
    convertBits small b a false = some large ↔ convertBits large a b true = some small := by
  obtain ⟨out, k, hout, hgroups, hk, hbits⟩ := convertBits_pad hb hword hlarge
  rw [convertBits_noPad (by omega) (by omega) hsmall, hout, Option.some.injEq]
  constructor
  · rintro ⟨-, m, hm, -, hmbits⟩
    have hlen := congrArg List.length hbits
    have hmlen := congrArg List.length hmbits
    simp only [List.length_append, length_bitsOfGroups, List.length_replicate] at hlen hmlen
    obtain rfl : k = m := by
      have hmod : a * large.length + k ≡ a * large.length + m [MOD b] := by
        rw [← hlen, ← hmlen]
        exact (Nat.modEq_zero_iff_dvd.2 ⟨_, rfl⟩).trans (Nat.modEq_zero_iff_dvd.2 ⟨_, rfl⟩).symm
      exact (Nat.ModEq.add_left_cancel' _ hmod).eq_of_lt_of_lt hk hm
    refine bitsOfGroups_inj hgroups hsmall ?_ (hbits.trans hmbits.symm)
    exact Nat.eq_of_mul_eq_mul_left hb (by omega)
  · rintro rfl
    exact ⟨hlarge, k, hk, by omega, hbits⟩

end

/-! ## Numbers from bits -/

def ofBits : List Bool → ℕ
  | [] => 0
  | b :: bs => (b.toNat <<< bs.length) ||| ofBits bs

theorem ofBits_lt (bs : List Bool) : ofBits bs < 2 ^ bs.length := by
  induction bs with
  | nil => exact Nat.one_pos
  | cons b bs ih =>
    rw [ofBits, ← Nat.shiftLeft_add_eq_or_of_lt ih, Nat.shiftLeft_eq, List.length_cons, pow_succ]
    cases b <;> simp <;> omega

theorem bitsOf_ofBits (bs : List Bool) : bitsOf bs.length (ofBits bs) = bs := by
  induction bs with
  | nil => rfl
  | cons b bs ih =>
    have hhead : (ofBits (b :: bs)).testBit bs.length = b := by
      rw [ofBits, Nat.testBit_or, Nat.testBit_lt_two_pow (ofBits_lt bs)]
      cases b <;> simp
    have htail : bitsOf bs.length (ofBits (b :: bs)) = bitsOf bs.length (ofBits bs) :=
      bitsOf_congr fun i hi => by
        rw [ofBits, Nat.testBit_or, Nat.testBit_shiftLeft, decide_eq_false (not_le.2 hi),
          Bool.false_and, Bool.false_or]
    rw [List.length_cons, bitsOf, hhead, htail, ih]

theorem ofBits_bitsOf {k n : ℕ} (h : n < 2 ^ k) : ofBits (bitsOf k n) = n := by
  have hlt := ofBits_lt (bitsOf k n)
  have hbits := bitsOf_ofBits (bitsOf k n)
  rw [length_bitsOf] at hlt hbits
  exact bitsOf_inj hlt h hbits

/-! ## Chunks -/

variable {α : Type}

/-- Parts of `size` elements; the last can be shorter. -/
def chunks (size : ℕ) (xs : List α) : List (List α) :=
  (List.range ((xs.length + size - 1) / size)).map fun k => (xs.drop (size * k)).take size

theorem chunks_append {size : ℕ} (hsize : 0 < size) {xs : List α} (hxs : xs.length = size)
    (ys : List α) : chunks size (xs ++ ys) = xs :: chunks size ys := by
  have hcount : ((xs ++ ys).length + size - 1) / size = (ys.length + size - 1) / size + 1 := by
    rw [List.length_append, hxs, ← Nat.add_div_right _ hsize]
    congr 1
    omega
  unfold chunks
  rw [hcount, List.range_succ_eq_map, List.map_cons, List.map_map, Nat.mul_zero, List.drop_zero,
    List.take_left' hxs]
  congr 1
  refine List.map_congr_left fun k _ => ?_
  rw [Function.comp_apply, Nat.mul_succ, Nat.add_comm, ← List.drop_drop, List.drop_left' hxs]

theorem chunks_nil {size : ℕ} (hsize : 0 < size) : chunks size ([] : List α) = [] := by
  have hcount : (([] : List α).length + size - 1) / size = 0 :=
    Nat.div_eq_of_lt (by simp [hsize])
  rw [chunks, hcount]
  rfl

theorem chunks_bitsOfGroups {k : ℕ} (hk : 0 < k) (gs : List ℕ) :
    chunks k (bitsOfGroups k gs) = gs.map (bitsOf k) := by
  induction gs with
  | nil => exact chunks_nil hk
  | cons g gs ih => rw [bitsOfGroups_cons, chunks_append hk (length_bitsOf k g), ih, List.map_cons]

/-- Bits that make whole groups are those of the numbers of the chunks. -/
theorem bitsOfGroups_chunks {k n : ℕ} (hk : 0 < k) {bs : List Bool} (h : bs.length = k * n) :
    bitsOfGroups k ((chunks k bs).map ofBits) = bs ∧ (chunks k bs).length = n ∧
      ∀ c ∈ chunks k bs, c.length = k := by
  induction n generalizing bs with
  | zero =>
    obtain rfl := List.length_eq_zero_iff.1 h
    rw [chunks_nil hk]
    exact ⟨rfl, rfl, nofun⟩
  | succ n ih =>
    have htake : (bs.take k).length = k := by
      rw [List.length_take, h, Nat.mul_succ]
      omega
    have hdrop : (bs.drop k).length = k * n := by
      rw [List.length_drop, h, Nat.mul_succ]
      omega
    obtain ⟨hbits, hcount, hlen⟩ := ih hdrop
    have hsplit : chunks k bs = bs.take k :: chunks k (bs.drop k) := by
      rw [← chunks_append hk htake, List.take_append_drop]
    have hhead := bitsOf_ofBits (bs.take k)
    rw [htake] at hhead
    rw [hsplit, List.map_cons, bitsOfGroups_cons, hhead, hbits, List.take_append_drop,
      List.length_cons, hcount]
    exact ⟨rfl, rfl, List.forall_mem_cons.2 ⟨htake, hlen⟩⟩

end BitGroups
