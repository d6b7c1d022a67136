import Mathlib.Data.List.GetD
import Mathlib.Data.List.TakeWhile
import SatsPay.BigEndian

/-!
# Base 58

Bytes as one number in base 58, with a `1` for each leading zero byte.
-/

namespace Base58

open BigEndian

def alphabet : List Char := "123456789ABCDEFGHJKLMNPQRSTUVWXYZabcdefghijkmnopqrstuvwxyz".toList

def digitChar (d : ℕ) : Char := alphabet.getD d '1'

def zeros (bs : List ℕ) : ℕ := (bs.takeWhile (· == 0)).length

def encode (bs : List ℕ) : List Char :=
  List.replicate (zeros bs) '1' ++ (digits 58 (value 256 bs)).map digitChar

def decode (cs : List Char) : Option (List ℕ) :=
  (cs.mapM (alphabet.idxOf? ·)).map fun ds =>
    List.replicate (zeros ds) 0 ++ digits 256 (value 58 ds)

theorem idxOf?_digitChar {d : ℕ} (h : d < 58) : alphabet.idxOf? (digitChar d) = some d := by
  revert d
  decide +kernel

theorem mapM_digitChar {ds : List ℕ} (h : ∀ d ∈ ds, d < 58) :
    (ds.map digitChar).mapM (alphabet.idxOf? ·) = some ds := by
  induction ds with
  | nil => rfl
  | cons d ds ih =>
    rw [List.forall_mem_cons] at h
    rw [List.map_cons, List.mapM_cons, idxOf?_digitChar h.1, ih h.2]
    rfl

theorem zeros_append_value {b : ℕ} (hb : 1 < b) {ds : List ℕ} (hds : ∀ d ∈ ds, d < b) :
    List.replicate (zeros ds) 0 ++ digits b (value b ds) = ds := by
  have hzeros : List.replicate (zeros ds) 0 = ds.takeWhile (· == 0) := by
    refine (List.eq_replicate_iff.2 ⟨rfl, fun d hd => ?_⟩).symm
    simpa using List.mem_takeWhile_imp hd
  rw [hzeros, ← dropWhile_eq_digits hb hds, List.takeWhile_append_dropWhile]

theorem zeros_replicate_append {k : ℕ} {ds : List ℕ} (h : ds.head? ≠ some 0) :
    zeros (List.replicate k 0 ++ ds) = k := by
  induction k with
  | zero =>
    cases ds with
    | nil => rfl
    | cons d ds =>
      have hd : d ≠ 0 := fun hd => h (by rw [hd]; rfl)
      rw [List.replicate_zero, List.nil_append, zeros,
        List.takeWhile_cons_of_neg (by simpa using hd), List.length_nil]
  | succ k ih =>
    rw [zeros, List.replicate_succ, List.cons_append, List.takeWhile_cons_of_pos (by simp),
      List.length_cons]
    exact congrArg (· + 1) ih

theorem value_replicate_append (b k : ℕ) (ds : List ℕ) :
    value b (List.replicate k 0 ++ ds) = value b ds := by
  induction k with
  | zero => rfl
  | succ k ih => rw [List.replicate_succ, List.cons_append, value_zero_cons, ih]

theorem encode_eq (bs : List ℕ) :
    encode bs = (List.replicate (zeros bs) 0 ++ digits 58 (value 256 bs)).map digitChar := by
  rw [encode, List.map_append, List.map_replicate]
  rfl

theorem decode_encode {bs : List ℕ} (h : ∀ b ∈ bs, b < 256) : decode (encode bs) = some bs := by
  have hlt : ∀ d ∈ List.replicate (zeros bs) 0 ++ digits 58 (value 256 bs), d < 58 := by
    intro d hd
    rcases List.mem_append.1 hd with hd | hd
    · rw [List.eq_of_mem_replicate hd]
      norm_num
    · exact digits_lt (by norm_num) hd
  rw [decode, encode_eq, mapM_digitChar hlt, Option.map_some,
    zeros_replicate_append (head_digits _), value_replicate_append, value_digits,
    zeros_append_value (by norm_num) h]

theorem of_idxOf? {c : Char} {d : ℕ} (h : alphabet.idxOf? c = some d) :
    d < 58 ∧ digitChar d = c := by
  obtain ⟨hd, heq, -⟩ := List.idxOf?_eq_some_iff.1 h
  exact ⟨hd, by rw [digitChar, List.getD_eq_getElem _ _ hd, heq]⟩

theorem of_mapM_idxOf? {cs : List Char} {ds : List ℕ} (h : cs.mapM (alphabet.idxOf? ·) = some ds) :
    (∀ d ∈ ds, d < 58) ∧ ds.map digitChar = cs := by
  induction cs generalizing ds with
  | nil =>
    obtain rfl := Option.some.inj h
    exact ⟨nofun, rfl⟩
  | cons c cs ih =>
    rw [List.mapM_cons, Option.bind_eq_bind, Option.bind_eq_some_iff] at h
    obtain ⟨d, hd, h⟩ := h
    obtain ⟨ds', hds, h⟩ := Option.bind_eq_some_iff.1 h
    obtain rfl := Option.some.inj h
    obtain ⟨hlt, hc⟩ := of_idxOf? hd
    obtain ⟨hall, hcs⟩ := ih hds
    exact ⟨List.forall_mem_cons.2 ⟨hlt, hall⟩, by rw [List.map_cons, hc, hcs]⟩

/-- A text is decoded as what it is the encoding of, and nothing else is. -/
theorem decode_eq_some_iff {cs : List Char} {bs : List ℕ} (h : ∀ b ∈ bs, b < 256) :
    decode cs = some bs ↔ encode bs = cs := by
  constructor
  · intro hdecode
    obtain ⟨ds, hds, hbs⟩ := Option.map_eq_some_iff.1 hdecode
    obtain ⟨hlt, hcs⟩ := of_mapM_idxOf? hds
    rw [encode_eq, ← hbs, zeros_replicate_append (head_digits _), value_replicate_append,
      value_digits, zeros_append_value (by norm_num) hlt, hcs]
  · rintro rfl
    exact decode_encode h

theorem decode_lt {cs : List Char} {bs : List ℕ} (h : decode cs = some bs) : ∀ b ∈ bs, b < 256 := by
  obtain ⟨ds, -, rfl⟩ := Option.map_eq_some_iff.1 h
  intro b hb
  rcases List.mem_append.1 hb with hb | hb
  · rw [List.eq_of_mem_replicate hb]
    norm_num
  · exact digits_lt (by norm_num) hb

/-- Two characters a byte are enough. -/
theorem length_encode_le {bs : List ℕ} (h : ∀ b ∈ bs, b < 256) :
    (encode bs).length ≤ 2 * bs.length := by
  have hsplit := congrArg List.length (zeros_append_value (by norm_num) h)
  rw [List.length_append, List.length_replicate] at hsplit
  have hvalue : value 256 bs < 58 ^ (2 * (digits 256 (value 256 bs)).length) := by
    rw [pow_mul]
    refine ((length_digits_le_iff (b := 256) (by norm_num)).1 le_rfl).trans_le ?_
    exact Nat.pow_le_pow_left (by norm_num) _
  have hlen := (length_digits_le_iff (b := 58) (by norm_num)).2 hvalue
  rw [encode, List.length_append, List.length_replicate, List.length_map]
  omega

theorem encode_subset (bs : List ℕ) : ∀ c ∈ encode bs, c ∈ alphabet := by
  intro c hc
  rcases List.mem_append.1 hc with hc | hc
  · rw [List.eq_of_mem_replicate hc]
    decide
  · obtain ⟨d, hd, rfl⟩ := List.mem_map.1 hc
    have hd : d < alphabet.length := digits_lt (b := 58) (by norm_num) hd
    rw [digitChar, List.getD_eq_getElem _ _ hd]
    exact List.getElem_mem hd

/-- The first character, when the number is so large. -/
theorem head_encode {bs : List ℕ} {k : ℕ} (hz : bs.head? ≠ some 0) (hlow : 58 ^ k ≤ value 256 bs)
    (hhigh : value 256 bs < 58 ^ (k + 1)) :
    (encode bs).head? = some (digitChar (value 256 bs / 58 ^ k)) := by
  have hzeros : zeros bs = 0 := zeros_replicate_append (k := 0) hz
  rw [encode, hzeros, List.replicate_zero, List.nil_append, List.head?_map,
    head_digits_of_lt (by norm_num) hlow hhigh, Option.map_some]

end Base58
