import SatsPay.Numeric
import Mathlib.Data.Nat.Digits.Lemmas

/-!
# Reading a stored integer back

A `numeric` comes from the store as groups of four digits without the zero groups at
its end, and is decoded to a `BigDecimal` whose scale says how many zeros are left
out. Printed, it has an exponent when these are more than 15, and then it is no
`u128` to the parser.
-/

namespace SatsPay

/-- A `BigDecimal` of an integer: `mantissa` and this many zeros. -/
structure Decoded where
  mantissa : ℕ
  zeros : ℕ
  deriving DecidableEq, Repr

def wireGroups (n : ℕ) : List ℕ := (Nat.digits 10000 n).dropWhile (· == 0)

def decodeNumeric (n : ℕ) : Decoded :=
  ⟨Nat.ofDigits 10000 (wireGroups n),
    4 * ((Nat.digits 10000 n).length - (wireGroups n).length)⟩

/-- `Display` of a `BigDecimal` -/
def Decoded.text (d : Decoded) : List Char :=
  if 15 < d.zeros then Nat.toDigits 10 d.mantissa ++ 'e' :: '+' :: Nat.toDigits 10 d.zeros
  else Nat.toDigits 10 d.mantissa ++ List.replicate d.zeros '0'

def storedText (n : ℤ) : String :=
  String.ofList (if n < 0 then '-' :: (decodeNumeric n.natAbs).text else
    (decodeNumeric n.natAbs).text)

/-- `to_string().parse::<u128>()` of what a column holds. -/
def readStored (n : ℤ) : Option ℕ := parseU128 (storedText n).toList

/-! ## Zero groups -/

/-- What is left out, and what stays. -/
theorem exists_zeroGroups (n : ℕ) : ∃ z,
    Nat.digits 10000 n = List.replicate z 0 ++ wireGroups n ∧ (decodeNumeric n).zeros = 4 * z := by
  have htake : (Nat.digits 10000 n).takeWhile (· == 0) =
      List.replicate ((Nat.digits 10000 n).takeWhile (· == 0)).length 0 :=
    List.eq_replicate_iff.2 ⟨rfl, fun x hx => by
      simpa using List.all_eq_true.1 List.all_takeWhile x hx⟩
  have happ : (Nat.digits 10000 n).takeWhile (· == 0) ++ wireGroups n = Nat.digits 10000 n :=
    List.takeWhile_append_dropWhile
  refine ⟨((Nat.digits 10000 n).takeWhile (· == 0)).length, ?_, ?_⟩
  · rw [← htake]
    exact happ.symm
  · have hlen := congrArg List.length happ
    rw [List.length_append] at hlen
    show 4 * _ = _
    omega

/-- The lowest group on the wire is not zero. -/
theorem not_dvd_mantissa {n : ℕ} (hn : n ≠ 0) : ¬ 10000 ∣ (decodeNumeric n).mantissa := by
  obtain ⟨z, hz, -⟩ := exists_zeroGroups n
  cases hg : wireGroups n with
  | nil =>
    rw [hg, List.append_nil] at hz
    have := Nat.ofDigits_digits 10000 n
    rw [hz, Nat.ofDigits_replicate_zero] at this
    exact absurd this.symm hn
  | cons g gs =>
    have hg₀ : g ≠ 0 := by
      have := List.head?_dropWhile_not (· == 0) (Nat.digits 10000 n)
      rw [show (Nat.digits 10000 n).dropWhile (· == 0) = g :: gs from hg] at this
      simpa using this
    have hlt : g < 10000 := by
      refine Nat.digits_lt_base (by norm_num) (m := n) ?_
      rw [hz, hg]
      exact List.mem_append_right _ List.mem_cons_self
    show ¬ 10000 ∣ Nat.ofDigits 10000 (wireGroups n)
    rw [hg, Nat.ofDigits_cons]
    omega

theorem decodeNumeric_value (n : ℕ) :
    n = (decodeNumeric n).mantissa * 10 ^ (decodeNumeric n).zeros := by
  obtain ⟨z, hz, hzeros⟩ := exists_zeroGroups n
  have hn := Nat.ofDigits_digits 10000 n
  rw [hz, Nat.ofDigits_append, Nat.ofDigits_replicate_zero, List.length_replicate, zero_add] at hn
  rw [hzeros, pow_mul, mul_comm]
  exact hn.symm

/-- More than 15 zeros are left out of the multiples of `10 ^ 16`. -/
theorem lt_zeros_iff {n : ℕ} (hn : n ≠ 0) : 15 < (decodeNumeric n).zeros ↔ 10 ^ 16 ∣ n := by
  obtain ⟨z, -, hz⟩ := exists_zeroGroups n
  have hv := decodeNumeric_value n
  constructor
  · intro h
    rw [hv]
    exact Dvd.dvd.mul_left (pow_dvd_pow 10 (by omega)) _
  · intro hd
    by_contra hle
    have hm := not_dvd_mantissa hn
    rw [hv, hz, show 16 = 4 * z + (16 - 4 * z) by omega, pow_add, mul_comm (10 ^ (4 * z))] at hd
    have hd' := Nat.dvd_of_mul_dvd_mul_right (Nat.pos_of_ne_zero (by positivity)) hd
    exact hm (dvd_trans (pow_dvd_pow 10 (show 4 ≤ 16 - 4 * z by omega)) hd')

/-! ## Reading back -/

theorem parseU128_text {n : ℕ} (h : ¬ 15 < (decodeNumeric n).zeros) :
    parseU128 (decodeNumeric n).text = if n < 2 ^ 128 then some n else none := by
  have hne : (decodeNumeric n).text ≠ [] := by
    unfold Decoded.text
    rw [if_neg h]
    simp [Nat.toDigits_ne_nil]
  have hd : ∀ c ∈ (decodeNumeric n).text, c.isDigit := by
    unfold Decoded.text
    rw [if_neg h]
    intro c hc
    rcases List.mem_append.1 hc with hc | hc
    · exact Nat.isDigit_of_mem_toDigits (by norm_num) (by norm_num) hc
    · rw [List.eq_of_mem_replicate hc]
      rfl
  have hv : Nat.ofDigitChars 10 (decodeNumeric n).text 0 = n := by
    unfold Decoded.text
    rw [if_neg h, ofDigitChars_append_zero, ofDigitChars_zeros, Nat.ofDigitChars_ten_toDigits,
      List.length_replicate, Nat.add_zero]
    exact (decodeNumeric_value n).symm
  rw [parseU128_of_digits hne hd, hv]

theorem parseU128_exponent {n : ℕ} (h : 15 < (decodeNumeric n).zeros) :
    parseU128 (decodeNumeric n).text = none := by
  unfold Decoded.text
  rw [if_pos h]
  obtain ⟨c, ds, hcd⟩ := List.exists_cons_of_ne_nil
    (Nat.toDigits_ne_nil (n := (decodeNumeric n).mantissa) (b := 10))
  have hc : c ≠ '+' := by
    rintro rfl
    have := Nat.isDigit_of_mem_toDigits (b := 10) (n := (decodeNumeric n).mantissa) (c := '+')
      (by norm_num) (by norm_num) (by rw [hcd]; exact List.mem_cons_self)
    cases this
  rw [hcd, List.cons_append]
  exact parseU128_not_digit (d := 'e') hc (by simp) (by decide)

def ReadsBack (n : ℤ) : Prop := n = 0 ∨ 0 < n ∧ n < 2 ^ 128 ∧ ¬ (10 ^ 16 : ℤ) ∣ n

instance (n : ℤ) : Decidable (ReadsBack n) := by unfold ReadsBack; infer_instance

theorem readStored_eq (n : ℤ) :
    readStored n = if ReadsBack n then some n.toNat else none := by
  unfold readStored storedText
  rw [String.toList_ofList]
  by_cases hneg : n < 0
  · rw [if_pos hneg, if_neg (by unfold ReadsBack; omega)]
    exact parseU128_not_digit (d := '-') (by decide) List.mem_cons_self (by decide)
  rw [if_neg hneg]
  obtain ⟨m, rfl⟩ := Int.eq_ofNat_of_zero_le (not_lt.1 hneg)
  rw [Int.natAbs_natCast, Int.toNat_natCast]
  by_cases hm : m = 0
  · subst hm
    rw [if_pos (.inl rfl)]
    decide
  have hdvd : (10 ^ 16 : ℤ) ∣ m ↔ 10 ^ 16 ∣ m := by
    rw [← Int.natCast_dvd_natCast]
    norm_num
  by_cases hz : 15 < (decodeNumeric m).zeros
  · rw [parseU128_exponent hz, if_neg]
    rintro (h | ⟨-, -, h⟩)
    · exact hm (by exact_mod_cast h)
    · exact h (hdvd.2 ((lt_zeros_iff hm).1 hz))
  · rw [parseU128_text hz]
    refine if_congr ⟨fun h => .inr ⟨by omega, by exact_mod_cast h, fun hd => ?_⟩, ?_⟩ rfl rfl
    · exact hz ((lt_zeros_iff hm).2 (hdvd.1 hd))
    · rintro (h | ⟨-, h, -⟩)
      · omega
      · exact_mod_cast h

/-- `to_string().parse::<u128>().unwrap_or(default)` of a column. -/
@[irreducible] def readU128 (default : ℕ) (stored : ℤ) : ℕ := (readStored stored).getD default

/-- `to_string().parse::<BigInt>().unwrap_or(0)` of a column: one printed with an exponent is no
integer to the parser. -/
def readBigInt (stored : ℤ) : ℤ := if 15 < (decodeNumeric stored.natAbs).zeros then 0 else stored

theorem readBigInt_eq (n : ℤ) : readBigInt n = if (10 ^ 16 : ℤ) ∣ n then 0 else n := by
  unfold readBigInt
  by_cases hn : n = 0
  · subst hn
    simp
  · have hd : (10 ^ 16 : ℤ) ∣ n ↔ 10 ^ 16 ∣ n.natAbs := by
      rw [← Int.natCast_dvd]
      norm_num
    rw [if_congr ((lt_zeros_iff (Int.natAbs_ne_zero.2 hn)).trans hd.symm) rfl rfl]

/-- What is read is nothing, or what is stored. -/
theorem readBigInt_eq_or (n : ℤ) : readBigInt n = 0 ∨ readBigInt n = n := by
  unfold readBigInt
  split
  · exact .inl rfl
  · exact .inr rfl

end SatsPay
