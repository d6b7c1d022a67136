import SatsPay.BigEndian

/-!
# RLP

Strings of bytes and lists of them, each behind its length, and numbers as their shortest bytes.
The readers take only what is as short as it can be.
-/

namespace Rlp

open BigEndian

/-! ## Strings and lists -/

def readUint (bs : List ℕ) : Option ℕ := if bs.head? = some 0 then none else some (value 256 bs)

@[simp] theorem readUint_digits (n : ℕ) : readUint (digits 256 n) = some n := by
  rw [readUint, if_neg (head_digits n), value_digits]

def header (offset n : ℕ) : List ℕ :=
  if n < 56 then [offset + n] else (offset + 55 + (digits 256 n).length) :: digits 256 n

/-- A string; a byte below 128 is its own. -/
def str (bs : List ℕ) : List ℕ :=
  if bs.length = 1 ∧ value 256 bs < 0x80 then bs else header 0x80 bs.length ++ bs

def list (items : List (List ℕ)) : List ℕ :=
  header 0xc0 (items.flatMap str).length ++ items.flatMap str

def readHeader (offset : ℕ) : List ℕ → Option (ℕ × List ℕ)
  | [] => none
  | b :: rest =>
    if b < offset then none
    else if b < offset + 56 then some (b - offset, rest)
    else
      let ds := rest.take (b - (offset + 55))
      if b ≤ offset + 63 ∧ b - (offset + 55) ≤ rest.length ∧ ds.head? ≠ some 0 ∧ 56 ≤ value 256 ds then
        some (value 256 ds, rest.drop (b - (offset + 55)))
      else none

def readStr : List ℕ → Option (List ℕ × List ℕ)
  | [] => none
  | b :: rest =>
    if b < 0x80 then some ([b], rest)
    else (readHeader 0x80 (b :: rest)).bind fun (len, rest) =>
      if len ≤ rest.length ∧ ¬ (len = 1 ∧ value 256 (rest.take len) < 0x80) then
        some (rest.take len, rest.drop len)
      else none

/-- The strings of a payload, `fuel` at most. -/
def readStrs : ℕ → List ℕ → Option (List (List ℕ))
  | _, [] => some []
  | 0, _ => none
  | fuel + 1, b :: bs => (readStr (b :: bs)).bind fun (s, rest) => (readStrs fuel rest).map (s :: ·)

def readList (bs : List ℕ) : Option (List (List ℕ)) :=
  (readHeader 0xc0 bs).bind fun (len, payload) =>
    if payload.length = len then readStrs payload.length payload else none

theorem header_eq_cons (offset n : ℕ) : ∃ b t, header offset n = b :: t ∧ offset ≤ b := by
  unfold header
  split
  · exact ⟨_, _, rfl, Nat.le_add_right _ _⟩
  · exact ⟨_, _, rfl, by omega⟩

theorem readHeader_header {offset n : ℕ} (hn : n < 256 ^ 8) (rest : List ℕ) :
    readHeader offset (header offset n ++ rest) = some (n, rest) := by
  unfold header
  split
  · rename_i hshort
    rw [List.singleton_append, readHeader, if_neg (by omega), if_pos (by omega),
      Nat.add_sub_cancel_left]
  · rename_i hlong
    have hlen : (digits 256 n).length ≤ 8 := (length_digits_le_iff (by norm_num)).2 hn
    have hpos : 1 ≤ (digits 256 n).length := by
      by_contra h
      have : n < 256 ^ 0 := (length_digits_le_iff (by norm_num)).1 (by omega)
      omega
    have hsub : offset + 55 + (digits 256 n).length - (offset + 55) = (digits 256 n).length := by omega
    rw [List.cons_append, readHeader, if_neg (by omega), if_neg (by omega), hsub]
    dsimp only
    rw [List.take_left, List.drop_left, value_digits, if_pos]
    exact ⟨by omega, by simp, head_digits n, by omega⟩

theorem str_ne_nil (bs : List ℕ) : str bs ≠ [] := by
  unfold str
  split
  · rename_i h
    exact List.ne_nil_of_length_pos (by omega)
  · obtain ⟨b, t, h, -⟩ := header_eq_cons 0x80 bs.length
    simp [h]

theorem readStr_str {bs : List ℕ} (hbs : bs.length < 256 ^ 8) (rest : List ℕ) :
    readStr (str bs ++ rest) = some (bs, rest) := by
  unfold str
  split
  · rename_i h
    obtain ⟨b, rfl⟩ := List.length_eq_one_iff.1 h.1
    rw [value_singleton] at h
    rw [List.singleton_append, readStr, if_pos h.2]
  · rename_i h
    obtain ⟨b, t, hb, hle⟩ := header_eq_cons 0x80 bs.length
    have hheader := @readHeader_header 0x80 bs.length hbs (bs ++ rest)
    rw [hb] at hheader
    rw [hb, List.append_assoc, List.cons_append, readStr, if_neg (by omega), ← List.cons_append,
      hheader, Option.bind_some]
    dsimp only
    rw [List.take_left, List.drop_left, if_pos]
    exact ⟨by simp, h⟩

theorem readStrs_flatMap {items : List (List ℕ)} (h : ∀ bs ∈ items, bs.length < 256 ^ 8) {fuel : ℕ}
    (hfuel : items.length ≤ fuel) : readStrs fuel (items.flatMap str) = some items := by
  induction items generalizing fuel with
  | nil => cases fuel <;> rfl
  | cons bs items ih =>
    rw [List.forall_mem_cons] at h
    obtain ⟨fuel, rfl⟩ := Nat.exists_eq_add_of_lt (Nat.lt_of_lt_of_le (Nat.succ_pos _) hfuel)
    rw [Nat.zero_add] at hfuel ⊢
    have hread := readStr_str h.1 (items.flatMap str)
    rw [List.flatMap_cons]
    cases hs : str bs ++ items.flatMap str with
    | nil => exact absurd (List.append_eq_nil_iff.1 hs).1 (str_ne_nil bs)
    | cons b t =>
      rw [hs] at hread
      rw [readStrs, hread, Option.bind_some]
      dsimp only
      rw [ih h.2 (by simpa using hfuel), Option.map_some]

theorem length_le_str (bs : List ℕ) : bs.length ≤ (str bs).length := by
  unfold str
  split
  · exact le_rfl
  · rw [List.length_append]
    exact Nat.le_add_left _ _

theorem length_lt_of_mem {items : List (List ℕ)} (h : (items.flatMap str).length < 256 ^ 8)
    {bs : List ℕ} (hbs : bs ∈ items) : bs.length < 256 ^ 8 :=
  ((length_le_str bs).trans (List.sublist_flatten_of_mem
    (List.mem_map_of_mem hbs)).length_le).trans_lt h

theorem header_lt {offset n b : ℕ} (ho : offset ≤ 0xc0) (hn : n < 256 ^ 8)
    (hb : b ∈ header offset n) : b < 256 := by
  unfold header at hb
  split at hb
  · rw [List.mem_singleton.1 hb]
    omega
  · rcases List.mem_cons.1 hb with rfl | hb
    · have := (length_digits_le_iff (b := 256) (by norm_num)).2 hn
      omega
    · exact digits_lt (by norm_num) hb

theorem str_lt {bs : List ℕ} (hbs : ∀ b ∈ bs, b < 256) (hlen : bs.length < 256 ^ 8) :
    ∀ b ∈ str bs, b < 256 := by
  unfold str
  split
  · exact hbs
  · intro b hb
    rcases List.mem_append.1 hb with hb | hb
    · exact header_lt (by norm_num) hlen hb
    · exact hbs b hb

/-- What is written is bytes. -/
theorem list_lt {items : List (List ℕ)} (hitems : ∀ bs ∈ items, ∀ b ∈ bs, b < 256)
    (h : (items.flatMap str).length < 256 ^ 8) : ∀ b ∈ list items, b < 256 := by
  intro b hb
  rcases List.mem_append.1 hb with hb | hb
  · exact header_lt le_rfl h hb
  · obtain ⟨bs, hbs, hb⟩ := List.mem_flatMap.1 hb
    exact str_lt (hitems bs hbs) (length_lt_of_mem h hbs) b hb

/-- What is written is read. -/
theorem readList_list {items : List (List ℕ)} (h : (items.flatMap str).length < 256 ^ 8) :
    readList (list items) = some items := by
  have hitems : ∀ bs ∈ items, bs.length < 256 ^ 8 := fun bs hbs => length_lt_of_mem h hbs
  have hcount : items.length ≤ (items.flatMap str).length := by
    clear h hitems
    induction items with
    | nil => exact le_rfl
    | cons bs items ih =>
      have := List.length_pos_iff.2 (str_ne_nil bs)
      rw [List.length_cons, List.flatMap_cons, List.length_append]
      omega
  rw [readList, list, readHeader_header h, Option.bind_some]
  dsimp only
  rw [if_pos rfl, readStrs_flatMap hitems hcount]

end Rlp
