import Mathlib
import SatsPay.DexTracking
import SatsPay.SwapQuotes
import SatsPay.ZerWithdrawals

/-!
# Amounts as people write them

Amounts are printed without trailing zeros, and the two venues' amounts are read by two readers.
Both read back what is printed, and a decimal that fits as its value in ledger units, rounded
down.
-/

namespace SatsPay

def formatAmount (amount : ℕ) (coin : Coin) : String :=
  let divisor := 10 ^ coin.decimals
  let fracStr := padLeft coin.decimals (Nat.toDigits 10 (amount % divisor))
  let trimmed := fracStr.rdropWhile (· == '0')
  if trimmed = [] then String.ofList (Nat.toDigits 10 (amount / divisor))
  else String.ofList (Nat.toDigits 10 (amount / divisor) ++ '.' :: trimmed)

def IsDecimal (s whole frac : List Char) : Prop :=
  (s = whole ∧ frac = [] ∨ s = whole ++ '.' :: frac) ∧
    (∀ c ∈ whole, c.isDigit) ∧ ∀ c ∈ frac, c.isDigit

def decimalValue (whole frac : List Char) : ℚ :=
  Nat.ofDigitChars 10 whole 0 + Nat.ofDigitChars 10 frac 0 / 10 ^ frac.length

/-- The value in ledger units, rounded down. -/
def ledgerUnits (whole frac : List Char) : ℕ := ⌊decimalValue whole frac * 10 ^ 8⌋₊

section
variable {s whole frac : List Char}

theorem ledgerUnits_eq (whole frac : List Char) : ledgerUnits whole frac =
    Nat.ofDigitChars 10 whole 0 * 10 ^ 8 +
      Nat.ofDigitChars 10 frac 0 * 10 ^ 8 / 10 ^ frac.length := by
  have hsplit : decimalValue whole frac * 10 ^ 8 = ((Nat.ofDigitChars 10 whole 0 * 10 ^ 8 : ℕ) : ℚ) +
      ((Nat.ofDigitChars 10 frac 0 * 10 ^ 8 : ℕ) : ℚ) / ((10 ^ frac.length : ℕ) : ℚ) := by
    rw [decimalValue]
    push_cast
    ring
  rw [ledgerUnits, hsplit, add_comm, Nat.floor_add_natCast (by positivity), Nat.floor_div_eq_div,
    Nat.add_comm]

/-- The first eight digits of a fraction. -/
theorem ofDigitChars_eight (h : ∀ c ∈ frac, c.isDigit) :
    Nat.ofDigitChars 10 ((padZeros 8 frac).take 8) 0 =
      Nat.ofDigitChars 10 frac 0 * 10 ^ 8 / 10 ^ frac.length := by
  rcases le_total frac.length 8 with hlen | hlen
  · have hpow : (10 : ℕ) ^ 8 = 10 ^ (8 - frac.length) * 10 ^ frac.length := by
      rw [← pow_add, Nat.sub_add_cancel hlen]
    rw [List.take_of_length_le (by simp [padZeros]; omega), padZeros, ofDigitChars_append_zero,
      ofDigitChars_zeros, List.length_replicate, Nat.add_zero, hpow, ← Nat.mul_assoc,
      Nat.mul_div_cancel _ (by positivity)]
  · obtain ⟨k, hk⟩ := Nat.exists_eq_add_of_le hlen
    have hdigits : ∀ c ∈ frac.drop 8, c.isDigit := fun c hc => h c (List.mem_of_mem_drop hc)
    have htail := ofDigitChars_lt hdigits
    have hdrop : (frac.drop 8).length = k := by
      rw [List.length_drop, hk]
      omega
    have hsplit : Nat.ofDigitChars 10 frac 0 =
        Nat.ofDigitChars 10 (frac.take 8) 0 * 10 ^ k + Nat.ofDigitChars 10 (frac.drop 8) 0 := by
      rw [← hdrop, ← ofDigitChars_append_zero, List.take_append_drop]
    rw [hdrop] at htail
    rw [padZeros, Nat.sub_eq_zero_of_le hlen, List.replicate_zero, List.append_nil, hsplit, hk,
      pow_add, Nat.mul_comm (10 ^ 8) (10 ^ k), Nat.mul_div_mul_right _ _ (by positivity),
      Nat.mul_comm, Nat.mul_add_div (by positivity), Nat.div_eq_of_lt htail, Nat.add_zero]

theorem parseU128_eight (h : ∀ c ∈ frac, c.isDigit) :
    parseU128 ((padZeros 8 frac).take 8) =
      some (Nat.ofDigitChars 10 frac 0 * 10 ^ 8 / 10 ^ frac.length) := by
  have hlen : ((padZeros 8 frac).take 8).length = 8 := by
    rw [List.length_take, padZeros, List.length_append, List.length_replicate]
    omega
  have hdigits : ∀ c ∈ (padZeros 8 frac).take 8, c.isDigit := by
    intro c hc
    rcases List.mem_append.1 (List.mem_of_mem_take hc) with hc | hc
    · exact h c hc
    · rw [List.eq_of_mem_replicate hc]
      rfl
  have hlt := ofDigitChars_lt hdigits
  rw [hlen] at hlt
  rw [parseU128_digits (fun hnil => by simp [hnil] at hlen) hdigits (hlt.trans (by norm_num)),
    ofDigitChars_eight h]

theorem IsDecimal.parts (h : IsDecimal s whole frac) :
    (splitOnce '.' s).getD (s, []) = (whole, frac) := by
  obtain ⟨⟨rfl, rfl⟩ | rfl, hwhole, -⟩ := h
  · rw [splitOnce_whole hwhole]
    rfl
  · rw [splitOnce_point hwhole]
    rfl

theorem IsDecimal.mem (h : IsDecimal s whole frac) {c : Char} (hc : c ∈ s) : c.isDigit ∨ c = '.' := by
  obtain ⟨⟨rfl, rfl⟩ | rfl, hwhole, hfrac⟩ := h
  · exact .inl (hwhole c hc)
  · rcases List.mem_append.1 hc with hc | hc
    · exact .inl (hwhole c hc)
    · rcases List.mem_cons.1 hc with rfl | hc
      · exact .inr rfl
      · exact .inl (hfrac c hc)

theorem splitOnce_eq_some {c : Char} {before after : List Char}
    (h : splitOnce c s = some (before, after)) : s = before ++ c :: after := by
  unfold splitOnce at h
  split at h
  · cases h
  · rename_i d after' hdrop
    obtain ⟨rfl, rfl⟩ := Prod.mk.inj (Option.some.inj h)
    have hd : d = c := by
      have hhead := List.head_dropWhile_not (p := (· != c)) (l := s) (by simp [hdrop])
      simpa [hdrop] using hhead
    subst hd
    rw [← hdrop, List.takeWhile_append_dropWhile]

theorem isDecimal_of_parts (h : (splitOnce '.' s).getD (s, []) = (whole, frac))
    (hwhole : ∀ c ∈ whole, c.isDigit) (hfrac : ∀ c ∈ frac, c.isDigit) :
    IsDecimal s whole frac := by
  refine ⟨?_, hwhole, hfrac⟩
  cases hsplit : splitOnce '.' s with
  | none =>
    rw [hsplit] at h
    obtain ⟨rfl, rfl⟩ := Prod.mk.inj h
    exact .inl ⟨rfl, rfl⟩
  | some parts =>
    rw [hsplit] at h
    obtain rfl : parts = (whole, frac) := h
    exact .inr (splitOnce_eq_some hsplit)

/-! ## The readers -/

theorem head_ne_of_isDecimal (h : IsDecimal s whole frac) {c : Char} (hc : c.isDigit = false)
    (hpoint : c ≠ '.') : s.head? ≠ some c := by
  intro hhead
  rcases h.mem (List.mem_of_mem_head? hhead) with h | h
  · rw [hc] at h
    cases h
  · exact hpoint h

theorem filter_lt (m b : ℕ) : (some m).filter (· < b) = if m < b then some m else none := by
  by_cases h : m < b
  · rw [if_pos h]
    exact Option.filter_some_pos (decide_eq_true h)
  · rw [if_neg h]
    exact Option.filter_some_neg (by simpa using h)

theorem humanToLedger_of_isDecimal {human : String}
    (h : IsDecimal ((trim human.toList).filter (· != ',')) whole frac)
    (hne : (trim human.toList).filter (· != ',') ≠ []) :
    humanToLedger human =
      if ledgerUnits whole frac < 2 ^ 128 then some (ledgerUnits whole frac) else none := by
  have hhead : ((trim human.toList).filter (· != ',')).head? ≠ some '-' :=
    head_ne_of_isDecimal h rfl (by decide)
  have hdigits : ¬ (¬ whole.all Char.isDigit ∨ ¬ frac.all Char.isDigit) := by
    rw [not_or, not_not, not_not]
    exact ⟨List.all_eq_true.2 h.2.1, List.all_eq_true.2 h.2.2⟩
  unfold humanToLedger
  dsimp only
  rw [if_neg (not_or.2 ⟨hne, hhead⟩), h.parts]
  dsimp only
  rw [if_neg hdigits, parseU128_eight h.2.2, ledgerUnits_eq]
  generalize Nat.ofDigitChars 10 frac 0 * 10 ^ 8 / 10 ^ frac.length = f
  by_cases hwhole : whole = []
  · subst hwhole
    rw [if_pos (rfl : ([] : List Char) = []), Nat.ofDigitChars_nil, Option.bind_eq_bind,
      Option.bind_some, Option.bind_some, filter_lt]
  · rw [if_neg hwhole, parseU128_of_digits hwhole h.2.1]
    by_cases hlt : Nat.ofDigitChars 10 whole 0 < 2 ^ 128
    · rw [if_pos hlt, Option.bind_eq_bind, Option.bind_some, Option.bind_some, filter_lt]
    · have hbig : ¬ Nat.ofDigitChars 10 whole 0 * 10 ^ 8 + f < 2 ^ 128 := by omega
      rw [if_neg hlt, if_neg hbig]
      rfl

/-- ChangeNOW's amounts: the decimals, with commas or without, that fit. -/
theorem humanToLedger_eq_some_iff {human : String} {n : ℕ} :
    humanToLedger human = some n ↔
      (trim human.toList).filter (· != ',') ≠ [] ∧
      ∃ whole frac, IsDecimal ((trim human.toList).filter (· != ',')) whole frac ∧
        ledgerUnits whole frac = n ∧ n < 2 ^ 128 := by
  constructor
  · intro h
    have hne : (trim human.toList).filter (· != ',') ≠ [] := fun hnil => by
      simp [humanToLedger, hnil] at h
    obtain ⟨⟨whole, frac⟩, hparts⟩ : ∃ p, (splitOnce '.' ((trim human.toList).filter (· != ','))).getD
        ((trim human.toList).filter (· != ','), []) = p := ⟨_, rfl⟩
    have hdigits : whole.all Char.isDigit ∧ frac.all Char.isDigit := by
      by_contra hnot
      rw [not_and_or] at hnot
      unfold humanToLedger at h
      dsimp only at h
      rw [hparts] at h
      dsimp only at h
      rw [if_pos hnot] at h
      split at h <;> cases h
    have hdec := isDecimal_of_parts hparts (List.all_eq_true.1 hdigits.1)
      (List.all_eq_true.1 hdigits.2)
    rw [humanToLedger_of_isDecimal hdec hne] at h
    split at h
    · rename_i hlt
      exact ⟨hne, whole, frac, hdec, Option.some.inj h, Option.some.inj h ▸ hlt⟩
    · cases h
  · rintro ⟨hne, whole, frac, hdec, rfl, hlt⟩
    rw [humanToLedger_of_isDecimal hdec hne, if_pos hlt]

theorem takeBytes_digits {n : ℕ} {ds : List Char} (h : ∀ c ∈ ds, c.isDigit) :
    takeBytes n ds = some (ds.take n) := by
  induction ds generalizing n with
  | nil => cases n <;> rfl
  | cons c ds ih =>
    cases n with
    | zero => rfl
    | succ n =>
      rw [List.forall_mem_cons] at h
      have hsize : c.utf8Size = 1 := by
        have hdigit := h.1
        simp only [Char.isDigit, Bool.and_eq_true, decide_eq_true_eq, UInt32.le_iff_toNat_le] at hdigit
        have h57 : c.val.toNat ≤ 57 := hdigit.2
        rw [Char.utf8Size_eq_one_iff, UInt32.le_iff_toNat_le]
        exact h57.trans (by decide)
      rw [takeBytes, hsize, if_pos (by omega), Nat.add_sub_cancel, ih h.2]
      rfl

theorem padZeros_take (ds : List Char) : padZeros 8 (ds.take 8) = (padZeros 8 ds).take 8 := by
  unfold padZeros
  rcases le_total ds.length 8 with h | h
  · rw [List.take_of_length_le h, List.take_of_length_le (by simp; omega)]
  · rw [List.length_take, min_eq_left h, Nat.sub_self, Nat.sub_eq_zero_of_le h, List.replicate_zero,
      List.append_nil, List.append_nil]

theorem saturate128_add (m n : ℕ) : saturate128 (saturate128 m + n) = saturate128 (m + n) := by
  unfold saturate128
  omega

/-- SwapKit's amounts, when the fraction has only digits and there is no `+` in front. -/
theorem parseHumanToLedger_of_digits {amount : String}
    (hparts : (splitOnce '.' (trim amount.toList)).getD (trim amount.toList, []) = (whole, frac))
    (hplus : whole.head? ≠ some '+') (hfrac : ∀ c ∈ frac, c.isDigit) :
    parseHumanToLedger amount = some (if whole ≠ [] ∧ (∀ c ∈ whole, c.isDigit) ∧
      Nat.ofDigitChars 10 whole 0 < 2 ^ 128 then some (saturate128 (ledgerUnits whole frac))
      else none) := by
  have hparse : ¬ (whole ≠ [] ∧ (∀ c ∈ whole, c.isDigit) ∧ Nat.ofDigitChars 10 whole 0 < 2 ^ 128) →
      parseU128 whole = none := by
    intro hnot
    cases whole with
    | nil => rfl
    | cons c cs =>
      have hc : c ≠ '+' := fun hc => hplus (by rw [hc]; rfl)
      by_cases hdigits : ∀ d ∈ c :: cs, d.isDigit
      · rw [parseU128_of_digits (List.cons_ne_nil c cs) hdigits,
          if_neg fun hlt => hnot ⟨List.cons_ne_nil c cs, hdigits, hlt⟩]
      · simp only [not_forall] at hdigits
        obtain ⟨d, hd, hdigit⟩ := hdigits
        exact parseU128_not_digit hc hd (by simpa using hdigit)
  unfold parseHumanToLedger
  dsimp only
  split
  · rename_i hnil
    rw [hnil] at hparts
    obtain ⟨rfl, rfl⟩ := Prod.mk.inj hparts
    rw [if_neg (by simp)]
  · rw [hparts]
    dsimp only
    by_cases hwhole : whole ≠ [] ∧ (∀ c ∈ whole, c.isDigit) ∧ Nat.ofDigitChars 10 whole 0 < 2 ^ 128
    · rw [parseU128_digits hwhole.1 hwhole.2.1 hwhole.2.2, if_pos hwhole]
      dsimp only
      rw [takeBytes_digits hfrac, Option.map_some, padZeros_take, parseU128_eight hfrac,
        Option.map_some, saturate128_add, ledgerUnits_eq]
    · rw [hparse hwhole, if_neg hwhole]

/-! ## What is printed -/

theorem coinDecimals (coin : Coin) : coin.decimals = 8 := by cases coin <;> rfl

theorem coinDecimals_digits {n : ℕ} {c : Char} (h : c ∈ padLeft 8 (Nat.toDigits 10 n)) :
    c.isDigit := by
  rcases List.mem_append.1 h with h | h
  · rw [List.eq_of_mem_replicate h]
    rfl
  · exact Nat.isDigit_of_mem_toDigits (by norm_num) (by norm_num) h

/-- Zeros that are cut off at the end are what the digits were multiplied with. -/
theorem ofDigitChars_rdropWhile (ds : List Char) : ∃ k, (ds.rdropWhile (· == '0')).length + k =
    ds.length ∧ Nat.ofDigitChars 10 (ds.rdropWhile (· == '0')) 0 * 10 ^ k =
      Nat.ofDigitChars 10 ds 0 := by
  have hsplit := List.rdropWhile_append_rtakeWhile (p := (· == '0')) (l := ds)
  have hzeros : ds.rtakeWhile (· == '0') = List.replicate (ds.rtakeWhile (· == '0')).length '0' :=
    List.eq_replicate_iff.2 ⟨rfl, fun c hc => by simpa using List.mem_rtakeWhile_imp hc⟩
  refine ⟨(ds.rtakeWhile (· == '0')).length, by rw [← List.length_append, hsplit], ?_⟩
  conv_rhs => rw [← hsplit, ofDigitChars_append_zero]
  rw [show Nat.ofDigitChars 10 (ds.rtakeWhile (· == '0')) 0 = 0 by rw [hzeros, ofDigitChars_zeros],
    Nat.add_zero]

theorem formatAmount_isDecimal (n : ℕ) (coin : Coin) : ∃ whole frac,
    IsDecimal (formatAmount n coin).toList whole frac ∧ whole ≠ [] ∧
      Nat.ofDigitChars 10 whole 0 = n / 10 ^ 8 ∧ ledgerUnits whole frac = n := by
  obtain ⟨k, hlen, hvalue⟩ := ofDigitChars_rdropWhile (padLeft 8 (Nat.toDigits 10 (n % 10 ^ 8)))
  have hwidth : (padLeft 8 (Nat.toDigits 10 (n % 10 ^ 8))).length = 8 :=
    length_padLeft ((Nat.length_toDigits_le_iff (by norm_num) (by norm_num)).2
      (Nat.mod_lt _ (by norm_num)))
  have hwhole : ∀ c ∈ Nat.toDigits 10 (n / 10 ^ 8), c.isDigit := fun c hc =>
    Nat.isDigit_of_mem_toDigits (by norm_num) (by norm_num) hc
  set trimmed := (padLeft 8 (Nat.toDigits 10 (n % 10 ^ 8))).rdropWhile (· == '0') with htrimmed
  have hfrac : ∀ c ∈ trimmed, c.isDigit := fun c hc =>
    coinDecimals_digits ((List.rdropWhile_prefix (· == '0') _).subset hc)
  rw [padLeft, ofDigitChars_append_zero, ofDigitChars_zeros, Nat.zero_mul, Nat.zero_add,
    Nat.ofDigitChars_ten_toDigits] at hvalue
  refine ⟨Nat.toDigits 10 (n / 10 ^ 8), trimmed, ⟨?_, hwhole, hfrac⟩, Nat.toDigits_ne_nil,
    Nat.ofDigitChars_ten_toDigits, ?_⟩
  · unfold formatAmount
    dsimp only
    rw [coinDecimals, ← htrimmed]
    split
    · rename_i hnil
      exact .inl ⟨String.toList_ofList, hnil⟩
    · exact .inr String.toList_ofList
  · have hpow : (10 : ℕ) ^ 8 = 10 ^ k * 10 ^ trimmed.length := by
      rw [← pow_add, ← hwidth, ← hlen, Nat.add_comm]
    have hunits : Nat.ofDigitChars 10 trimmed 0 * 10 ^ 8 / 10 ^ trimmed.length = n % 10 ^ 8 := by
      conv_lhs => rw [hpow, ← Nat.mul_assoc, hvalue]
      exact Nat.mul_div_cancel _ (by positivity)
    rw [ledgerUnits_eq, hunits, Nat.ofDigitChars_ten_toDigits]
    omega

/-! ## The readers agree -/

theorem comma_of_isDecimal {text : List Char} (h : IsDecimal text whole frac) :
    text.filter (· != ',') = text := by
  refine List.filter_eq_self.2 fun c hc => ?_
  rcases h.mem hc with hdigit | rfl
  · have hne : c ≠ ',' := by
      rintro rfl
      cases hdigit
    simpa using hne
  · rfl

theorem trim_of_isDecimal {text : List Char} (h : IsDecimal text whole frac) : trim text = text := by
  refine trim_eq_self fun c hc => ?_
  rcases h.mem hc with hdigit | rfl
  · exact not_whitespace_of_isDigit hdigit
  · rfl

/-- On a decimal that fits, both readers agree. -/
theorem readers_agree {text : String} (h : IsDecimal (trim text.toList) whole frac)
    (hne : whole ≠ []) (hlt : ledgerUnits whole frac < 2 ^ 128) :
    parseHumanToLedger text = some (some (ledgerUnits whole frac)) ∧
      humanToLedger text = some (ledgerUnits whole frac) := by
  have hwhole : Nat.ofDigitChars 10 whole 0 < 2 ^ 128 := by
    rw [ledgerUnits_eq] at hlt
    generalize Nat.ofDigitChars 10 frac 0 * 10 ^ 8 / 10 ^ frac.length = f at hlt
    omega
  have hplus : whole.head? ≠ some '+' := fun hhead =>
    absurd (h.2.1 _ (List.mem_of_mem_head? hhead)) (by decide)
  have hcomma := comma_of_isDecimal h
  have htext : trim text.toList ≠ [] := by
    obtain ⟨⟨hs, -⟩ | hs, -⟩ := h
    · rwa [hs]
    · rw [hs]
      simp
  constructor
  · rw [parseHumanToLedger_of_digits h.parts hplus h.2.2, if_pos ⟨hne, h.2.1, hwhole⟩,
      saturate128_of_lt hlt]
  · rw [humanToLedger_of_isDecimal (by rwa [hcomma]) (by rwa [hcomma]), if_pos hlt]

/-- ChangeNOW's reader takes the decimals, with commas or without, that fit. SwapKit's takes those
with digits before the point, and no more than the largest amount. On decimals that fit they
agree, and both read what is printed. -/
theorem human_amounts :
    (∀ human n, humanToLedger human = some n ↔
      (trim human.toList).filter (· != ',') ≠ [] ∧
      ∃ whole frac, IsDecimal ((trim human.toList).filter (· != ',')) whole frac ∧
        ⌊decimalValue whole frac * 10 ^ 8⌋₊ = n ∧ n < 2 ^ 128) ∧
    (∀ amount whole frac, (trim amount.toList = whole ∧ frac = [] ∧ '.' ∉ whole ∨
        trim amount.toList = whole ++ '.' :: frac ∧ '.' ∉ whole) →
      whole.head? ≠ some '+' → (∀ c ∈ frac, c.isDigit) →
      parseHumanToLedger amount = some (if whole ≠ [] ∧ (∀ c ∈ whole, c.isDigit) ∧
        Nat.ofDigitChars 10 whole 0 < 2 ^ 128
        then some (min ⌊decimalValue whole frac * 10 ^ 8⌋₊ (2 ^ 128 - 1)) else none)) ∧
    (∀ text whole frac, IsDecimal (trim text.toList) whole frac → whole ≠ [] →
      ⌊decimalValue whole frac * 10 ^ 8⌋₊ < 2 ^ 128 →
      parseHumanToLedger text = some (some ⌊decimalValue whole frac * 10 ^ 8⌋₊) ∧
        humanToLedger text = some ⌊decimalValue whole frac * 10 ^ 8⌋₊) ∧
    ∀ n < 2 ^ 128, ∀ coin, parseHumanToLedger (formatAmount n coin) = some (some n) ∧
      humanToLedger (formatAmount n coin) = some n := by
  refine ⟨fun _ _ => humanToLedger_eq_some_iff, ?_, fun _ _ _ => readers_agree, ?_⟩
  · intro amount whole frac htext hplus hfrac
    refine parseHumanToLedger_of_digits ?_ hplus hfrac
    rcases htext with ⟨htext, rfl, hpoint⟩ | ⟨htext, hpoint⟩
    · rw [htext, splitOnce_eq_none_iff.2 hpoint]
      rfl
    · have hne : ∀ c ∈ whole, (c != '.') = true := fun c hc => by
        have : c ≠ '.' := by
          rintro rfl
          exact hpoint hc
        simpa using this
      rw [htext, splitOnce]
      simp [List.dropWhile_append_of_pos hne, List.takeWhile_append_of_pos hne]
  · intro n hn coin
    obtain ⟨whole, frac, hdec, hne, -, hunits⟩ := formatAmount_isDecimal n coin
    rw [← trim_of_isDecimal hdec] at hdec
    have hagree := readers_agree hdec hne (by rwa [hunits])
    rwa [hunits] at hagree

end

/-- Commas are left out by one reader only, and an amount that is too large is one for the other. -/
theorem thousand_read_once : humanToLedger "1,000" = some (1000 * 10 ^ 8) ∧
    parseHumanToLedger "1,000" = some none ∧
    parseHumanToLedger "340282366920938463463374607431768211455" = some (some (2 ^ 128 - 1)) ∧
    humanToLedger "340282366920938463463374607431768211455" = none := by
  decide +kernel

theorem half_bitcoin_read : parseHumanToLedger (formatAmount 50000000 .btc) = some (some 50000000) ∧
    humanToLedger (formatAmount 50000000 .btc) = some 50000000 :=
  human_amounts.2.2.2 50000000 (by norm_num) .btc

end SatsPay
