import Mathlib.Tactic
import Mathlib.Data.Nat.Digits.Lemmas

/-!
# Numerals

Numbers as digits of a base, the highest first.
-/

namespace BigEndian

def value (b : ℕ) (ds : List ℕ) : ℕ := Nat.ofDigits b ds.reverse

/-- The fewest digits that spell a number. -/
def digits (b n : ℕ) : List ℕ := (Nat.digits b n).reverse

section
variable {b : ℕ}

@[simp] theorem value_nil : value b [] = 0 := rfl

@[simp] theorem value_snoc (ds : List ℕ) (d : ℕ) : value b (ds ++ [d]) = b * value b ds + d := by
  rw [value, value, List.reverse_append, List.reverse_singleton, List.singleton_append,
    Nat.ofDigits_cons, Nat.add_comm]

@[simp] theorem value_singleton (d : ℕ) : value b [d] = d := by
  rw [value, List.reverse_singleton, Nat.ofDigits_singleton]

@[simp] theorem value_digits (n : ℕ) : value b (digits b n) = n := by
  rw [value, digits, List.reverse_reverse, Nat.ofDigits_digits]

theorem value_append (ds es : List ℕ) :
    value b (ds ++ es) = value b es + b ^ es.length * value b ds := by
  rw [value, value, value, List.reverse_append, Nat.ofDigits_append, List.length_reverse]

theorem value_zero_cons (ds : List ℕ) : value b (0 :: ds) = value b ds := by
  rw [value, List.reverse_cons, Nat.ofDigits_append, Nat.ofDigits_singleton, Nat.mul_zero,
    Nat.add_zero]
  rfl

theorem value_dropWhile (ds : List ℕ) : value b (ds.dropWhile (· == 0)) = value b ds := by
  induction ds with
  | nil => rfl
  | cons d ds ih =>
    by_cases hd : d = 0
    · rw [List.dropWhile_cons_of_pos (by simp [hd]), ih, hd, value_zero_cons]
    · rw [List.dropWhile_cons_of_neg (by simp [hd])]

theorem head_digits (n : ℕ) : (digits b n).head? ≠ some 0 := by
  rw [digits, List.head?_reverse]
  intro h
  have hne : Nat.digits b n ≠ [] := by
    rintro hnil
    rw [hnil] at h
    cases h
  rw [List.getLast?_eq_getLast_of_ne_nil hne] at h
  exact Nat.getLast_digit_ne_zero b (Nat.digits_ne_nil_iff_ne_zero.1 hne) (Option.some.inj h)

variable (hb : 1 < b)
include hb

theorem digits_lt {n d : ℕ} (hd : d ∈ digits b n) : d < b :=
  Nat.digits_lt_base hb (List.mem_reverse.1 hd)

theorem length_digits_le_iff {k n : ℕ} : (digits b n).length ≤ k ↔ n < b ^ k := by
  rw [digits, List.length_reverse, Nat.digits_length_le_iff hb]

theorem value_lt {ds : List ℕ} (hds : ∀ d ∈ ds, d < b) : value b ds < b ^ ds.length := by
  rw [value, ← List.length_reverse]
  exact Nat.ofDigits_lt_base_pow_length hb fun d hd => hds d (List.mem_reverse.1 hd)

/-- Digits without a leading zero are the fewest. -/
theorem digits_value {ds : List ℕ} (hds : ∀ d ∈ ds, d < b) (hhead : ds.head? ≠ some 0) :
    digits b (value b ds) = ds := by
  have hdigits : Nat.digits b (Nat.ofDigits b ds.reverse) = ds.reverse := by
    refine Nat.digits_ofDigits b hb _ (fun d hd => hds d (List.mem_reverse.1 hd)) ?_
    intro hne hzero
    refine hhead ?_
    rw [← List.getLast?_reverse, List.getLast?_eq_getLast_of_ne_nil hne, hzero]
  rw [digits, value, hdigits, List.reverse_reverse]

/-- Without its leading zeros, a spelling is the shortest. -/
theorem dropWhile_eq_digits {ds : List ℕ} (hds : ∀ d ∈ ds, d < b) :
    ds.dropWhile (· == 0) = digits b (value b ds) := by
  have hhead : (ds.dropWhile (· == 0)).head? ≠ some 0 := by
    intro h
    have := List.head?_dropWhile_not (· == 0) ds
    rw [h] at this
    simp at this
  rw [← value_dropWhile ds,
    digits_value hb (fun d hd => hds d (List.dropWhile_sublist _ |>.mem hd)) hhead]

/-- The leading digit. -/
theorem head_digits_of_lt {k n : ℕ} (hlow : b ^ k ≤ n) (hhigh : n < b ^ (k + 1)) :
    (digits b n).head? = some (n / b ^ k) := by
  have hlen : (Nat.digits b n).length = k + 1 := by
    have h₁ := (Nat.digits_length_le_iff hb (k := k + 1) n).2 hhigh
    have h₂ := mt (Nat.digits_length_le_iff hb (k := k) n).1 (not_lt.2 hlow)
    omega
  have hdiv : n / b ^ k < b := Nat.div_lt_of_lt_mul (by rwa [← pow_succ])
  have hdigit : (Nat.digits b n).getD k 0 = n / b ^ k := by
    rw [Nat.getD_digits n k (by omega), Nat.mod_eq_of_lt hdiv]
  rw [digits, List.head?_reverse, List.getLast?_eq_getElem?, hlen, Nat.add_sub_cancel, ← hdigit,
    List.getD_eq_getElem?_getD, List.getElem?_eq_getElem (by omega), Option.getD_some]

end

end BigEndian
