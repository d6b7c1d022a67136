import Mathlib.Data.Rat.Floor
import Mathlib.Tactic.Linarith
import Mathlib.Tactic.NormNum

/-!
# Amounts

A `BigDecimal` is a rational. A `numeric(39, 0)` column rounds it half away from
zero to an integer and rejects what then has more than 39 digits.
-/

namespace SatsPay

def parseDigits (ds : List Char) : Option ℕ :=
  if ds ≠ [] ∧ ds.all Char.isDigit then some (Nat.ofDigitChars 10 ds 0) else none

/-- `str::parse::<u128>` -/
def parseU128 (s : List Char) : Option ℕ :=
  let ds := match s with
    | '+' :: ds => ds
    | ds => ds
  (parseDigits ds).bind fun n => if n < 2 ^ 128 then some n else none

def saturate64 (n : ℕ) : ℕ := min n (2 ^ 64 - 1)
def saturate128 (n : ℕ) : ℕ := min n (2 ^ 128 - 1)

theorem saturate128_le (n : ℕ) : saturate128 n ≤ n := Nat.min_le_left _ _

theorem saturate128_of_lt {n : ℕ} (h : n < 2 ^ 128) : saturate128 n = n := by
  unfold saturate128
  omega

@[irreducible] def asI32 (n : ℕ) : ℤ := (n : ℤ).bmod (2 ^ 32)

def roundHalfAway (q : ℚ) : ℤ := if 0 ≤ q then ⌊q + 1 / 2⌋ else -⌊-q + 1 / 2⌋

/-- The value a `numeric(39, 0)` column stores, if it stores one. -/
def numeric39 (q : ℚ) : Option ℤ :=
  if |roundHalfAway q| < 10 ^ 39 then some (roundHalfAway q) else none

/-! ## Digits -/

theorem ofDigitChars_append_zero (l m : List Char) :
    Nat.ofDigitChars 10 (l ++ m) 0 =
      Nat.ofDigitChars 10 l 0 * 10 ^ m.length + Nat.ofDigitChars 10 m 0 := by
  rw [Nat.ofDigitChars_append, Nat.ofDigitChars_eq_ofDigitChars_zero, Nat.mul_comm]

theorem ofDigitChars_zeros (k : ℕ) : Nat.ofDigitChars 10 (List.replicate k '0') 0 = 0 := by simp

theorem parseU128_lt {s : List Char} {n : ℕ} (h : parseU128 s = some n) : n < 2 ^ 128 := by
  unfold parseU128 at h
  obtain ⟨m, -, hm⟩ := Option.bind_eq_some_iff.1 h
  split at hm
  · cases hm
    assumption
  · cases hm

theorem parseU128_of_digits {ds : List Char} (hne : ds ≠ []) (hd : ∀ c ∈ ds, c.isDigit) :
    parseU128 ds =
      if Nat.ofDigitChars 10 ds 0 < 2 ^ 128 then some (Nat.ofDigitChars 10 ds 0) else none := by
  cases ds with
  | nil => exact absurd rfl hne
  | cons c ds =>
    have hc : c ≠ '+' := by
      rintro rfl
      exact absurd (hd _ List.mem_cons_self) (by decide)
    have hp : parseDigits (c :: ds) = some (Nat.ofDigitChars 10 (c :: ds) 0) :=
      if_pos ⟨hne, List.all_eq_true.2 hd⟩
    have hu : parseU128 (c :: ds) =
        (parseDigits (c :: ds)).bind fun n => if n < 2 ^ 128 then some n else none := by
      simp [parseU128, hc]
    rw [hu, hp, Option.bind_some]

theorem parseU128_digits {ds : List Char} (hne : ds ≠ []) (hd : ∀ c ∈ ds, c.isDigit)
    (hlt : Nat.ofDigitChars 10 ds 0 < 2 ^ 128) :
    parseU128 ds = some (Nat.ofDigitChars 10 ds 0) := by
  rw [parseU128_of_digits hne hd, if_pos hlt]

/-- A character that is neither a digit nor a sign in front. -/
theorem parseU128_not_digit {c d : Char} {ds : List Char} (hc : c ≠ '+') (hd : d ∈ c :: ds)
    (hdd : d.isDigit = false) : parseU128 (c :: ds) = none := by
  have hp : parseDigits (c :: ds) = none := by
    refine if_neg fun h => ?_
    have := List.all_eq_true.1 h.2 d hd
    rw [hdd] at this
    cases this
  have hu : parseU128 (c :: ds) =
      (parseDigits (c :: ds)).bind fun n => if n < 2 ^ 128 then some n else none := by
    simp [parseU128, hc]
  rw [hu, hp, Option.bind_none]

/-! ## Rounding -/

@[simp] theorem roundHalfAway_int (n : ℤ) : roundHalfAway n = n := by
  have h₁ : ⌊(n : ℚ) + 1 / 2⌋ = n := by rw [Int.floor_eq_iff]; constructor <;> linarith
  have h₂ : ⌊-(n : ℚ) + 1 / 2⌋ = -n := by rw [Int.floor_eq_iff]; push_cast; constructor <;> linarith
  unfold roundHalfAway
  split
  · exact h₁
  · rw [h₂, neg_neg]

theorem roundHalfAway_neg (q : ℚ) : roundHalfAway (-q) = -roundHalfAway q := by
  unfold roundHalfAway
  rcases lt_trichotomy q 0 with h | h | h
  · rw [if_pos (by linarith), if_neg (by linarith), neg_neg]
  · subst h; norm_num
  · rw [if_neg (by linarith), if_pos h.le, neg_neg]

theorem le_roundHalfAway {m : ℤ} {q : ℚ} (h : (m : ℚ) ≤ q) : m ≤ roundHalfAway q := by
  unfold roundHalfAway
  split
  · exact Int.le_floor.2 (by linarith)
  · rename_i hq
    -- below zero the floor is taken of the absolute value
    have : ⌊-q + 1 / 2⌋ < -m + 1 := Int.floor_lt.2 (by push_cast; linarith)
    omega

theorem roundHalfAway_nonneg_iff (q : ℚ) : 0 ≤ roundHalfAway q ↔ -(1 / 2) < q := by
  unfold roundHalfAway
  split
  · rename_i hq
    exact ⟨fun _ => by linarith, fun _ => Int.floor_nonneg.2 (by linarith)⟩
  · rw [Int.neg_nonneg, ← Int.lt_add_one_iff, Int.floor_lt]
    push_cast
    constructor <;> intro h <;> linarith

theorem roundHalfAway_le_neg_iff {q : ℚ} {n : ℤ} (hn : 0 < n) :
    roundHalfAway q ≤ -n ↔ q ≤ -(n - 1 / 2) := by
  have hn' : (1 : ℚ) ≤ n := by exact_mod_cast hn
  unfold roundHalfAway
  split
  · rename_i hq
    have := Int.floor_nonneg.2 (show (0 : ℚ) ≤ q + 1 / 2 by linarith)
    exact ⟨fun h => by omega, fun h => by linarith⟩
  · rw [neg_le_neg_iff, Int.le_floor]
    constructor <;> intro h <;> linarith

theorem sub_one_le_of_roundHalfAway {q : ℚ} (hq : q < 0) : (roundHalfAway q : ℚ) - 1 ≤ q := by
  unfold roundHalfAway
  rw [if_neg (not_le.2 hq)]
  have := Int.lt_floor_add_one (-q + 1 / 2)
  push_cast
  linarith

theorem numeric39_eq_some {q : ℚ} {n : ℤ} :
    numeric39 q = some n ↔ roundHalfAway q = n ∧ |n| < 10 ^ 39 := by
  unfold numeric39
  split <;> rename_i h
  · constructor
    · rintro ⟨⟩; exact ⟨rfl, h⟩
    · rintro ⟨rfl, -⟩; rfl
  · simp only [reduceCtorEq, false_iff, not_and]
    rintro rfl; exact h

theorem numeric39_int_eq_some {m n : ℤ} : numeric39 m = some n ↔ m = n ∧ |n| < 10 ^ 39 := by
  rw [numeric39_eq_some, roundHalfAway_int]

theorem numeric39_neg {q : ℚ} : numeric39 (-q) = (numeric39 q).map Neg.neg := by
  unfold numeric39
  rw [roundHalfAway_neg, abs_neg]
  split <;> rfl

/-- What a column stores of `q`, if it stores anything, is not negative. -/
theorem numeric39_nonneg_iff (q : ℚ) :
    (∀ n, numeric39 q = some n → 0 ≤ n) ↔ -(1 / 2) < q ∨ q ≤ -(10 ^ 39 - 1 / 2) := by
  rw [← roundHalfAway_nonneg_iff]
  have hle : roundHalfAway q ≤ -10 ^ 39 ↔ q ≤ -(10 ^ 39 - 1 / 2) := by
    rw [roundHalfAway_le_neg_iff (by norm_num)]; norm_num
  rw [← hle]
  constructor
  · intro h
    by_contra hc
    obtain ⟨h₁, h₂⟩ := not_or.1 hc
    exact h₁ (h _ (numeric39_eq_some.2 ⟨rfl, abs_lt.2 ⟨not_le.1 h₂, by linarith [not_le.1 h₁]⟩⟩))
  · rintro h n hn
    obtain ⟨rfl, hlt⟩ := numeric39_eq_some.1 hn
    rcases h with h | h
    · exact h
    · exact absurd h (not_le.2 (abs_lt.1 hlt).1)

/-- A debit that the balance covers is covered once it is stored. -/
theorem covered_of_numeric39 {b n : ℤ} {q : ℚ} (hb : 0 ≤ b + q) (hn : numeric39 q = some n) :
    0 ≤ b + n := by
  obtain ⟨rfl, -⟩ := numeric39_eq_some.1 hn
  have := le_roundHalfAway (m := -b) (q := q) (by push_cast; linarith)
  omega

theorem numeric39_of_int {q : ℚ} {m n : ℤ} (hq : q = m) (h : numeric39 q = some n) : n = m := by
  rw [hq] at h
  exact (numeric39_int_eq_some.1 h).1.symm

end SatsPay
