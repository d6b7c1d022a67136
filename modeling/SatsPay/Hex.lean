import Mathlib.Tactic

/-!
# Hexadecimals

Bytes as two digits each. Both cases are read, and the lower one is written.
-/

namespace Hex

def digit? (c : Char) : Option ℕ :=
  if '0' ≤ c ∧ c ≤ '9' then some (c.toNat - '0'.toNat)
  else if 'a' ≤ c ∧ c ≤ 'f' then some (c.toNat - 'a'.toNat + 10)
  else if 'A' ≤ c ∧ c ≤ 'F' then some (c.toNat - 'A'.toNat + 10)
  else none

def encode (bs : List ℕ) : List Char :=
  bs.flatMap fun b => [Nat.digitChar (b / 16), Nat.digitChar (b % 16)]

def decode : List Char → Option (List ℕ)
  | [] => some []
  | [_] => none
  | a :: b :: cs => (digit? a).bind fun x => (digit? b).bind fun y =>
      (decode cs).map ((16 * x + y) :: ·)

theorem digit?_digitChar {n : ℕ} (h : n < 16) : digit? (Nat.digitChar n) = some n := by
  revert n
  decide +kernel

theorem decode_encode {bs : List ℕ} (h : ∀ b ∈ bs, b < 256) : decode (encode bs) = some bs := by
  induction bs with
  | nil => rfl
  | cons b bs ih =>
    rw [List.forall_mem_cons] at h
    show decode (Nat.digitChar (b / 16) :: Nat.digitChar (b % 16) :: encode bs) = _
    rw [decode, digit?_digitChar (by omega), digit?_digitChar (by omega), Option.bind_some,
      Option.bind_some, ih h.2, Option.map_some, Nat.div_add_mod]

@[simp] theorem length_encode (bs : List ℕ) : (encode bs).length = 2 * bs.length := by
  induction bs with
  | nil => rfl
  | cons b bs ih =>
    show (encode bs).length + 1 + 1 = _
    rw [ih, List.length_cons]
    ring

theorem encode_subset {bs : List ℕ} (h : ∀ b ∈ bs, b < 256) :
    ∀ c ∈ encode bs, ∃ n < 16, c = Nat.digitChar n := by
  intro c hc
  obtain ⟨b, hb, hc⟩ := List.mem_flatMap.1 hc
  have hlt := h b hb
  simp only [List.mem_cons, List.not_mem_nil, or_false] at hc
  rcases hc with rfl | rfl
  · exact ⟨b / 16, by omega, rfl⟩
  · exact ⟨b % 16, by omega, rfl⟩

/-- Only what the digits stand for matters. -/
theorem decode_congr {cs ds : List Char} (h : cs.map digit? = ds.map digit?) :
    decode cs = decode ds := by
  induction cs using decode.induct generalizing ds with
  | case1 =>
    obtain rfl := List.map_eq_nil_iff.1 h.symm
    rfl
  | case2 c =>
    obtain ⟨d, rfl⟩ := List.length_eq_one_iff.1 (by simpa using (congrArg List.length h).symm)
    rfl
  | case3 a b cs ih =>
    obtain ⟨d, ds, rfl⟩ := List.exists_cons_of_length_eq_add_one
      (by simpa using (congrArg List.length h).symm)
    obtain ⟨e, ds, rfl⟩ := List.exists_cons_of_length_eq_add_one
      (by simpa using (congrArg List.length h).symm)
    simp only [List.map_cons, List.cons.injEq] at h
    rw [decode, decode, h.1, h.2.1, ih h.2.2]

theorem digit?_lt {c : Char} {n : ℕ} (h : digit? c = some n) : n < 16 := by
  unfold digit? at h
  split at h
  · rename_i hc
    obtain rfl := Option.some.inj h
    have : c.toNat ≤ '9'.toNat := hc.2
    have : '9'.toNat - '0'.toNat < 16 := by decide
    omega
  · split at h
    · rename_i hc
      obtain rfl := Option.some.inj h
      have : c.toNat ≤ 'f'.toNat := hc.2
      have : 'f'.toNat - 'a'.toNat + 10 < 16 := by decide
      omega
    · obtain ⟨hc, h⟩ := Option.ite_none_right_eq_some.1 h
      obtain rfl := Option.some.inj h
      have : c.toNat ≤ 'F'.toNat := hc.2
      have : 'F'.toNat - 'A'.toNat + 10 < 16 := by decide
      omega

/-- An even number of digits is read. -/
theorem exists_decode {cs : List Char} {n : ℕ} (hlen : cs.length = 2 * n)
    (hcs : ∀ c ∈ cs, (digit? c).isSome) :
    ∃ bs, decode cs = some bs ∧ bs.length = n ∧ ∀ b ∈ bs, b < 256 := by
  induction n generalizing cs with
  | zero =>
    obtain rfl := List.length_eq_zero_iff.1 hlen
    exact ⟨[], rfl, rfl, nofun⟩
  | succ n ih =>
    obtain ⟨a, cs, rfl⟩ := List.exists_cons_of_length_eq_add_one hlen
    obtain ⟨b, cs, rfl⟩ := List.exists_cons_of_length_eq_add_one (Nat.succ.inj hlen)
    rw [List.forall_mem_cons, List.forall_mem_cons] at hcs
    obtain ⟨x, hx⟩ := Option.isSome_iff_exists.1 hcs.1
    obtain ⟨y, hy⟩ := Option.isSome_iff_exists.1 hcs.2.1
    obtain ⟨bs, hbs, hn, hlt⟩ := ih (by simpa [Nat.mul_add] using hlen) hcs.2.2
    have hx' := digit?_lt hx
    have hy' := digit?_lt hy
    refine ⟨(16 * x + y) :: bs, ?_, by rw [List.length_cons, hn], ?_⟩
    · rw [decode, hx, hy, hbs]
      rfl
    · exact List.forall_mem_cons.2 ⟨by omega, hlt⟩

end Hex
