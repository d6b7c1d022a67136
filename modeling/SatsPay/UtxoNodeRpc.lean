import SatsPay.Json

/-!
# Amounts that a node reports

`scantxoutset` on a Core-style node: how its answer becomes deposits, and for which
amounts the value that is credited is the value of the output.
-/

namespace SatsPay

def satoshisPerCoin : ℕ := 10 ^ 8

def parseDecimalCoins (s : List Char) : Option ℕ :=
  let s := trim s
  if s.head? = some '-' then some 0
  else
    let (intPart, fracPart) := (splitOnce '.' s).getD (s, [])
    let intPart := if intPart = [] then ['0'] else intPart
    (parseU128 intPart).bind fun int =>
      let digits := fracPart.filter Char.isDigit
      let frac := digits ++ List.replicate (8 - digits.length) '0'
      (parseU128 (frac.take 8)).map fun frac =>
        saturate128 (saturate128 (int * satoshisPerCoin) + frac)

def tryIntoU64 (n : ℕ) : Option ℕ := if n < 2 ^ 64 then some n else none

def coinAmountToSats : Value → Option ℕ
  | .string s => (parseDecimalCoins s.toList).bind tryIntoU64
  | .number n => (parseDecimalCoins n.toText).bind tryIntoU64
  | _ => none

structure ScannedUtxo where
  txid : String
  vout : ℕ
  valueSats : ℕ
  scriptPubkeyHex : String
  confirmations : ℕ
  deriving DecidableEq

def confirmationsOf (tip utxoHeight : Option ℕ) : ℕ :=
  match tip, utxoHeight with
  | some scan, some h => min (scan - h + 1) (2 ^ 64 - 1) % 2 ^ 32
  | _, _ => 1

def parseUnspent (tip : Option ℕ) (u : Value) : Option ScannedUtxo := do
  let txid ← (← u.get "txid").asStr
  let vout ← (← u.get "vout").asU64
  let valueSats ← coinAmountToSats (← u.get "amount")
  let scriptPubkeyHex := ((u.get "scriptPubKey").bind Value.asStr).getD ""
  pure ⟨txid, vout % 2 ^ 32, valueSats, scriptPubkeyHex,
    confirmationsOf tip ((u.get "height").bind Value.asU64)⟩

def parseScantxoutset (result : Value) : Option (List ScannedUtxo) := do
  let unspents ← (← result.get "unspents").asArray
  unspents.mapM (parseUnspent ((result.get "height").bind Value.asU64))

structure OnchainTx where
  txHash : String
  vout : ℕ
  amount : ℕ
  confirmations : ℕ
  address : String

inductive ChainError where
  | rpc (message : String)
  | unreadable (result : Value)

/-- `result` is what the call to the node came to. -/
def scanAddress (result : Except ChainError Value) (address : String) :
    Except ChainError (List OnchainTx) :=
  match result with
  | .error e => .error e
  | .ok v =>
    match parseScantxoutset v with
    | none => .error (.unreadable v)
    | some scanned => .ok (scanned.map fun u =>
      ⟨u.txid, u.vout, u.valueSats, u.confirmations, address⟩)

/-- The amount that the deposit watcher hands to `credit_deposit`. -/
def OnchainTx.credited (tx : OnchainTx) : ℚ := tx.amount

/-! ## Reading decimal text -/

theorem not_whitespace_of_isDigit {c : Char} (h : c.isDigit) : isWhitespace c = false := by
  simp only [Char.isDigit, Bool.and_eq_true, decide_eq_true_eq, UInt32.le_iff_toNat_le] at h
  simp only [isWhitespace, Char.toNat, Bool.or_eq_false_iff, Bool.and_eq_false_iff,
    beq_eq_false_iff_ne, decide_eq_false_iff_not]
  have h₁ : 48 ≤ c.val.toNat := h.1
  have h₂ : c.val.toNat ≤ 57 := h.2
  omega

section
variable {i f : List Char}

theorem splitOnce_point (hi : ∀ c ∈ i, c.isDigit) :
    splitOnce '.' (i ++ '.' :: f) = some (i, f) := by
  have hne : ∀ c ∈ i, (c != '.') = true := by
    intro c hc
    have : c ≠ '.' := by
      rintro rfl
      exact absurd (hi _ hc) (by decide)
    simpa using this
  simp [splitOnce, List.dropWhile_append_of_pos hne, List.takeWhile_append_of_pos hne]

theorem splitOnce_whole (hi : ∀ c ∈ i, c.isDigit) : splitOnce '.' i = none := by
  have : i.dropWhile (· != '.') = [] := by
    rw [List.dropWhile_eq_nil_iff]
    intro c hc
    have : c ≠ '.' := by
      rintro rfl
      exact absurd (hi _ hc) (by decide)
    simpa using this
  rw [splitOnce, this]

/-- Digits, a point and at most 8 digits: the value in satoshis. -/
theorem parseDecimalCoins_point (hd : ∀ c ∈ i ++ f, c.isDigit) (hf : f.length ≤ 8)
    (hlt : Nat.ofDigitChars 10 (i ++ f) 0 * 10 ^ (8 - f.length) < 2 ^ 127) :
    parseDecimalCoins (i ++ '.' :: f) =
      some (Nat.ofDigitChars 10 (i ++ f) 0 * 10 ^ (8 - f.length)) := by
  have hi : ∀ c ∈ i, c.isDigit := fun c hc => hd c (List.mem_append_left _ hc)
  have hf' : ∀ c ∈ f, c.isDigit := fun c hc => hd c (List.mem_append_right _ hc)
  have htrim : trim (i ++ '.' :: f) = i ++ '.' :: f := by
    refine trim_eq_self fun c hc => ?_
    rcases List.mem_append.1 hc with hc | hc
    · exact not_whitespace_of_isDigit (hi c hc)
    · rcases List.mem_cons.1 hc with rfl | hc
      · rfl
      · exact not_whitespace_of_isDigit (hf' c hc)
  have hhead : (i ++ '.' :: f).head? ≠ some '-' := by
    intro h
    have hm := List.mem_of_mem_head? h
    rcases List.mem_append.1 hm with hm | hm
    · exact absurd (hi _ hm) (by decide)
    · rcases List.mem_cons.1 hm with hm | hm
      · exact absurd hm (by decide)
      · exact absurd (hf' _ hm) (by decide)
  -- the two parts of the value
  have hval : Nat.ofDigitChars 10 (i ++ f) 0 * 10 ^ (8 - f.length) =
      Nat.ofDigitChars 10 i 0 * 10 ^ 8 + Nat.ofDigitChars 10 f 0 * 10 ^ (8 - f.length) := by
    rw [ofDigitChars_append_zero, Nat.add_mul, Nat.mul_assoc, ← Nat.pow_add,
      Nat.add_sub_cancel' hf]
  rw [hval] at hlt ⊢
  have hint : parseU128 (if i = [] then ['0'] else i) = some (Nat.ofDigitChars 10 i 0) := by
    split
    · rename_i h; subst h; decide
    · rename_i h; exact parseU128_digits h hi (by omega)
  have hpad : Nat.ofDigitChars 10 (f ++ List.replicate (8 - f.length) '0') 0 =
      Nat.ofDigitChars 10 f 0 * 10 ^ (8 - f.length) := by
    rw [ofDigitChars_append_zero, ofDigitChars_zeros, List.length_replicate, Nat.add_zero]
  have hfrac : parseU128 ((f ++ List.replicate (8 - f.length) '0').take 8) =
      some (Nat.ofDigitChars 10 f 0 * 10 ^ (8 - f.length)) := by
    have hlen : (f ++ List.replicate (8 - f.length) '0').length = 8 := by simp; omega
    rw [List.take_of_length_le hlen.le, ← hpad]
    refine parseU128_digits ?_ ?_ ?_
    · intro h; rw [h] at hlen; cases hlen
    · intro c hc
      rcases List.mem_append.1 hc with hc | hc
      · exact hf' c hc
      · rw [(List.mem_replicate.1 hc).2]; rfl
    · rw [hpad]; omega
  unfold parseDecimalCoins
  simp only [htrim, hhead, if_false, splitOnce_point hi, Option.getD_some, hint, Option.bind_some,
    List.filter_eq_self.2 hf', hfrac, Option.map_some, saturate128, satoshisPerCoin]
  congr 1
  omega

theorem parseDecimalCoins_whole (hne : i ≠ []) (hd : ∀ c ∈ i, c.isDigit)
    (hlt : Nat.ofDigitChars 10 i 0 * 10 ^ 8 < 2 ^ 127) :
    parseDecimalCoins i = some (Nat.ofDigitChars 10 i 0 * 10 ^ 8) := by
  have htrim : trim i = i := trim_eq_self fun c hc => not_whitespace_of_isDigit (hd c hc)
  have hhead : i.head? ≠ some '-' := by
    intro h
    exact absurd (hd _ (List.mem_of_mem_head? h)) (by decide)
  have hint : parseU128 i = some (Nat.ofDigitChars 10 i 0) := parseU128_digits hne hd (by omega)
  have hfrac : parseU128 (List.take 8 ([] ++ List.replicate (8 - 0) '0')) = some 0 := by decide
  unfold parseDecimalCoins
  simp only [htrim, hhead, if_false, splitOnce_whole hd, Option.getD_none, hne, hint,
    Option.bind_some, List.filter_nil, List.length_nil, hfrac, Option.map_some, saturate128,
    satoshisPerCoin]
  congr 1
  omega

theorem digit_le {c : Char} (h : c.isDigit) : c.toNat - '0'.toNat ≤ 9 := by
  simp only [Char.isDigit, Bool.and_eq_true, decide_eq_true_eq, UInt32.le_iff_toNat_le] at h
  have h₂ : c.val.toNat ≤ 57 := h.2
  simp only [Char.toNat, Char.reduceVal, UInt32.reduceToNat]
  omega

theorem digit_pos {c : Char} (h : c.isDigit) (h₀ : c ≠ '0') : 0 < c.toNat - '0'.toNat := by
  simp only [Char.isDigit, Bool.and_eq_true, decide_eq_true_eq, UInt32.le_iff_toNat_le] at h
  have h₁ : 48 ≤ c.val.toNat := h.1
  have hne : c.val.toNat ≠ 48 := by
    intro he
    exact h₀ (Char.ext (UInt32.toNat_inj.1 he))
  simp only [Char.toNat, Char.reduceVal, UInt32.reduceToNat]
  omega

theorem ofDigitChars_cons_zero (c : Char) (ds : List Char) :
    Nat.ofDigitChars 10 (c :: ds) 0 =
      (c.toNat - '0'.toNat) * 10 ^ ds.length + Nat.ofDigitChars 10 ds 0 := by
  rw [Nat.ofDigitChars_cons, Nat.ofDigitChars_eq_ofDigitChars_zero, Nat.mul_zero, Nat.zero_add,
    Nat.mul_comm]

theorem ofDigitChars_lt {ds : List Char} (hd : ∀ c ∈ ds, c.isDigit) :
    Nat.ofDigitChars 10 ds 0 < 10 ^ ds.length := by
  induction ds with
  | nil => simp
  | cons c ds ih =>
    have hc := digit_le (hd c List.mem_cons_self)
    have hds := ih fun c' hc' => hd c' (List.mem_cons_of_mem _ hc')
    rw [ofDigitChars_cons_zero, List.length_cons, Nat.pow_succ]
    have := Nat.mul_le_mul_right (10 ^ ds.length) hc
    omega

/-- A text in exponent form with more than one digit: the exponent is read as
more digits, and the value is at least a coin. -/
theorem parseDecimalCoins_lead {d : Char} (hd : d.isDigit) (h₀ : d ≠ '0')
    (hw : ∀ c ∈ f, isWhitespace c = false) :
    ∃ v, parseDecimalCoins (d :: '.' :: f) = some v ∧ 10 ^ 8 ≤ v ∧ v < 10 ^ 9 := by
  have htrim : trim (d :: '.' :: f) = d :: '.' :: f := by
    refine trim_eq_self fun c hc => ?_
    rcases List.mem_cons.1 hc with rfl | hc
    · exact not_whitespace_of_isDigit hd
    · rcases List.mem_cons.1 hc with rfl | hc
      · rfl
      · exact hw c hc
  have hhead : d ≠ '-' := by
    rintro rfl
    exact absurd hd (by decide)
  have hsplit : splitOnce '.' (d :: '.' :: f) = some ([d], f) :=
    splitOnce_point (i := [d]) (by simpa using hd)
  have hint : parseU128 [d] = some (d.toNat - '0'.toNat) := by
    have hv : Nat.ofDigitChars 10 [d] 0 = d.toNat - '0'.toNat := by
      rw [ofDigitChars_cons_zero, Nat.ofDigitChars_nil, List.length_nil, Nat.pow_zero,
        Nat.mul_one, Nat.add_zero]
    have hlt := digit_le hd
    rw [parseU128_digits (by simp) (by simpa using hd) (by rw [hv]; omega), hv]
  have hfrac : ∃ x, parseU128 ((f.filter Char.isDigit ++
      List.replicate (8 - (f.filter Char.isDigit).length) '0').take 8) = some x ∧ x < 10 ^ 8 := by
    have hdig : ∀ c ∈ (f.filter Char.isDigit ++
        List.replicate (8 - (f.filter Char.isDigit).length) '0').take 8, c.isDigit := by
      intro c hc
      rcases List.mem_append.1 (List.mem_of_mem_take hc) with hc | hc
      · exact (List.mem_filter.1 hc).2
      · rw [(List.mem_replicate.1 hc).2]; rfl
    have hlen : ((f.filter Char.isDigit ++
        List.replicate (8 - (f.filter Char.isDigit).length) '0').take 8).length = 8 := by
      rw [List.length_take, List.length_append, List.length_replicate]
      omega
    have hlt := ofDigitChars_lt hdig
    rw [hlen] at hlt
    refine ⟨_, parseU128_digits ?_ hdig (by omega), hlt⟩
    intro h; rw [h] at hlen; cases hlen
  obtain ⟨x, hx, hlt⟩ := hfrac
  have h₁ := digit_le hd
  have h₂ := digit_pos hd h₀
  refine ⟨(d.toNat - '0'.toNat) * 10 ^ 8 + x, ?_, by omega, by omega⟩
  unfold parseDecimalCoins
  simp only [htrim, List.head?_cons, Option.some.injEq, hhead, if_false, hsplit, Option.getD_some,
    List.cons_ne_nil, hint, Option.bind_some, hx, Option.map_some, saturate128, satoshisPerCoin]
  omega

/-- In exponent form with one digit there is no point, and nothing is read. -/
theorem parseDecimalCoins_noPoint {d : Char} (hd : d.isDigit)
    (hw : ∀ c ∈ f, isWhitespace c = false ∧ c ≠ '.') :
    parseDecimalCoins (d :: 'e' :: f) = none := by
  have htrim : trim (d :: 'e' :: f) = d :: 'e' :: f := by
    refine trim_eq_self fun c hc => ?_
    rcases List.mem_cons.1 hc with rfl | hc
    · exact not_whitespace_of_isDigit hd
    · rcases List.mem_cons.1 hc with rfl | hc
      · rfl
      · exact (hw c hc).1
  have hne : ∀ c, c.isDigit → c ≠ '-' ∧ c ≠ '.' ∧ c ≠ '+' := by
    intro c hc
    refine ⟨?_, ?_, ?_⟩ <;>
    · rintro rfl
      exact absurd hc (by decide)
  have hsplit : splitOnce '.' (d :: 'e' :: f) = none := by
    have hnil : (d :: 'e' :: f).dropWhile (· != '.') = [] := by
      rw [List.dropWhile_eq_nil_iff]
      intro c hc
      rcases List.mem_cons.1 hc with rfl | hc
      · simpa using (hne _ hd).2.1
      · rcases List.mem_cons.1 hc with rfl | hc
        · decide
        · simpa using (hw c hc).2
    rw [splitOnce, hnil]
  have hint : parseU128 (d :: 'e' :: f) = none := by
    have hp : parseDigits (d :: 'e' :: f) = none := if_neg (by simp [Char.isDigit])
    simp [parseU128, (hne _ hd).2.2, hp]
  unfold parseDecimalCoins
  simp only [htrim, List.head?_cons, Option.some.injEq, (hne _ hd).1, if_false, hsplit,
    Option.getD_none, List.cons_ne_nil, hint, Option.bind_none]

end

/-! ## What a node sends -/

/-- A decimal coin value of `sats` satoshis with at most 8 digits after the point. -/
inductive CoinText (sats : ℕ) : List Char → Prop
  | whole (i : List Char) (hne : i ≠ []) (hd : ∀ c ∈ i, c.isDigit)
      (hv : Nat.ofDigitChars 10 i 0 * 10 ^ 8 = sats) : CoinText sats i
  | point (i f : List Char) (hd : ∀ c ∈ i ++ f, c.isDigit) (hf : f.length ≤ 8)
      (hv : Nat.ofDigitChars 10 (i ++ f) 0 * 10 ^ (8 - f.length) = sats) :
      CoinText sats (i ++ '.' :: f)

/-- How a value of `sats` satoshis stands in the answer. -/
inductive NodeAmount (sats : ℕ) where
  | text (s : String) (h : CoinText sats s.toList)
  | integer (n : ℕ) (h : n * 10 ^ 8 = sats)
  | float

def significant (n : ℕ) : List Char := (Nat.toDigits 10 n).rdropWhile (· == '0')

/-- The float that prints as `n` satoshis. -/
def floatOf (n : ℕ) : Number :=
  .float false (significant n) ((Nat.toDigits 10 n).length - (significant n).length - 8)

/-- `shown n` is the shortest decimal, in satoshis, of the float nearest to `n` satoshis. -/
def NodeAmount.value (shown : ℕ → ℕ) {sats : ℕ} : NodeAmount sats → Value
  | .text s _ => .string s
  | .integer n _ => .number (.posInt n)
  | .float => .number (floatOf (shown sats))

/-- A double keeps 15 digits, and what it is printed as is close to what was read. -/
structure ShortestPrint (shown : ℕ → ℕ) : Prop where
  exact : ∀ n, n < 10 ^ 15 → shown n = n
  close : ∀ n, n ≤ 2 * shown n ∧ shown n ≤ 2 * n

theorem digits_eq (n : ℕ) : ∃ k, Nat.toDigits 10 n = significant n ++ List.replicate k '0' ∧
    (Nat.toDigits 10 n).length = (significant n).length + k := by
  have h : significant n ++ (Nat.toDigits 10 n).rtakeWhile (· == '0') = Nat.toDigits 10 n :=
    List.rdropWhile_append_rtakeWhile ..
  have hz : (Nat.toDigits 10 n).rtakeWhile (· == '0') =
      List.replicate ((Nat.toDigits 10 n).rtakeWhile (· == '0')).length '0' :=
    List.eq_replicate_of_mem fun c hc => by simpa using List.mem_rtakeWhile_imp hc
  rw [hz] at h
  refine ⟨_, h.symm, ?_⟩
  have := congrArg List.length h
  simpa using this.symm

theorem isDigit_of_mem_significant {n : ℕ} {c : Char} (h : c ∈ significant n) : c.isDigit :=
  Nat.isDigit_of_mem_toDigits (by norm_num) (by norm_num) ((List.rdropWhile_prefix ..).mem h)

theorem length_toDigits_le {n k : ℕ} (hk : 0 < k) :
    (Nat.toDigits 10 n).length ≤ k ↔ n < 10 ^ k := Nat.length_toDigits_le_iff (by norm_num) hk

theorem value_significant {n k : ℕ} (hk : Nat.toDigits 10 n = significant n ++ List.replicate k '0') :
    Nat.ofDigitChars 10 (significant n) 0 * 10 ^ k = n := by
  have h := Nat.ofDigitChars_ten_toDigits (n := n)
  rwa [hk, ofDigitChars_append_zero, ofDigitChars_zeros, List.length_replicate, Nat.add_zero] at h

theorem floatOf_toText {n : ℕ} (h₀ : 0 < n) : (floatOf n).toText =
    floatText (significant n) ((Nat.toDigits 10 n).length - (significant n).length - 8) := by
  obtain ⟨k, hk, -⟩ := digits_eq n
  have hval := value_significant hk
  have hnz : (significant n).all (· == '0') = false := by
    by_contra hall
    rw [Bool.not_eq_false, List.all_eq_true] at hall
    have hz : significant n = List.replicate (significant n).length '0' :=
      List.eq_replicate_of_mem fun c hc => by simpa using hall c hc
    rw [hz, ofDigitChars_zeros] at hval
    omega
  simp [floatOf, Number.toText, hnz]

/-- From 1000 satoshis on a float is printed without an exponent. -/
theorem floatText_plain {n : ℕ} (hlo : 1000 ≤ n) (hhi : n < 10 ^ 24) :
    ∃ i f, (floatOf n).toText = i ++ '.' :: f ∧ (∀ c ∈ i ++ f, c.isDigit) ∧ f.length ≤ 8 ∧
      Nat.ofDigitChars 10 (i ++ f) 0 * 10 ^ (8 - f.length) = n := by
  obtain ⟨k, hk, hlen⟩ := digits_eq n
  have h₁ : 3 < (Nat.toDigits 10 n).length := by
    rw [← not_le, length_toDigits_le (by norm_num)]
    omega
  have h₂ : (Nat.toDigits 10 n).length ≤ 24 := (length_toDigits_le (by norm_num)).2 hhi
  have hval := value_significant hk
  have hdig : ∀ c ∈ significant n, c.isDigit := fun c hc => isDigit_of_mem_significant hc
  have hexp : ((Nat.toDigits 10 n).length : ℤ) - (significant n).length - 8 = k - 8 := by omega
  rw [floatOf_toText (by omega), hexp]
  unfold floatText
  by_cases h8 : 8 ≤ k
  · -- a whole number of coins
    rw [if_pos ⟨by omega, by omega⟩, show ((k : ℤ) - 8).toNat = k - 8 by omega]
    refine ⟨significant n ++ List.replicate (k - 8) '0', ['0'], rfl, ?_, by simp, ?_⟩
    · intro c hc
      simp only [List.mem_append, List.mem_replicate, List.mem_singleton] at hc
      rcases hc with (hc | ⟨-, rfl⟩) | rfl
      · exact hdig c hc
      · rfl
      · rfl
    · have hlast : Nat.ofDigitChars 10 ['0'] 0 = 0 := by decide
      rw [ofDigitChars_append_zero, ofDigitChars_append_zero, ofDigitChars_zeros, hlast,
        List.length_replicate, Nat.add_zero, Nat.add_zero, Nat.mul_assoc, Nat.mul_assoc,
        ← Nat.pow_add, ← Nat.pow_add]
      refine Eq.trans ?_ hval
      congr 2
      simp only [List.length_singleton]
      omega
  · rw [if_neg (by omega)]
    by_cases hp : 8 < (Nat.toDigits 10 n).length
    · -- the point falls among the digits
      rw [if_pos ⟨by omega, by omega⟩]
      have hf : ((significant n).drop (((significant n).length : ℤ) + (k - 8)).toNat).length =
          8 - k := by
        rw [List.length_drop]
        omega
      refine ⟨_, _, rfl, ?_, by omega, ?_⟩
      · rw [List.take_append_drop]; exact hdig
      · rw [List.take_append_drop, hf, show 8 - (8 - k) = k by omega]
        exact hval
    · -- less than a coin
      rw [if_neg (by omega), if_pos ⟨by omega, by omega⟩]
      refine ⟨['0'], _, rfl, ?_, ?_, ?_⟩
      · intro c hc
        simp only [List.mem_append, List.mem_replicate, List.mem_singleton] at hc
        rcases hc with rfl | ⟨-, rfl⟩ | hc
        · rfl
        · rfl
        · exact hdig c hc
      · rw [List.length_append, List.length_replicate]
        omega
      · have hlast : Nat.ofDigitChars 10 ['0'] 0 = 0 := by decide
        rw [ofDigitChars_append_zero, ofDigitChars_append_zero, ofDigitChars_zeros, hlast,
          Nat.zero_mul, Nat.zero_mul, Nat.zero_add, Nat.zero_add, List.length_append,
          List.length_replicate]
        refine Eq.trans ?_ hval
        congr 2
        omega

theorem exponentText_chars {k : ℤ} :
    ∀ c ∈ exponentText k, isWhitespace c = false ∧ c ≠ '.' := by
  have hdig : ∀ m, ∀ c ∈ Nat.toDigits 10 m, isWhitespace c = false ∧ c ≠ '.' := by
    intro m c hc
    have hd : c.isDigit := Nat.isDigit_of_mem_toDigits (by norm_num) (by norm_num) hc
    refine ⟨not_whitespace_of_isDigit hd, ?_⟩
    rintro rfl
    exact absurd hd (by decide)
  intro c hc
  rcases List.mem_cons.1 hc with rfl | hc
  · decide
  split at hc
  · rename_i hneg
    rw [intText, if_pos hneg] at hc
    rcases List.mem_cons.1 hc with rfl | hc
    · decide
    · exact hdig _ c hc
  · rename_i hneg
    rcases List.mem_cons.1 hc with rfl | hc
    · decide
    · rw [intText, if_neg hneg] at hc
      exact hdig _ c hc

/-- Below 1000 satoshis a float is printed with an exponent: it is read as
nothing, or as a coin and more. -/
theorem floatText_exponent {n : ℕ} (h₀ : 0 < n) (hlt : n < 1000) :
    ((significant n).length = 1 ∧ parseDecimalCoins (floatOf n).toText = none) ∨
    (1 < (significant n).length ∧
      ∃ v, parseDecimalCoins (floatOf n).toText = some v ∧ 10 ^ 8 ≤ v ∧ v < 10 ^ 9) := by
  obtain ⟨k, hk, hlen⟩ := digits_eq n
  have h₁ : (Nat.toDigits 10 n).length ≤ 3 := (length_toDigits_le (by norm_num)).2 hlt
  have hdig : ∀ c ∈ significant n, c.isDigit := fun c hc => isDigit_of_mem_significant hc
  have hval := value_significant hk
  have hexp : ((Nat.toDigits 10 n).length : ℤ) - (significant n).length - 8 = k - 8 := by omega
  rw [floatOf_toText h₀, hexp]
  cases hs : significant n with
  | nil =>
    rw [hs, Nat.ofDigitChars_nil] at hval
    omega
  | cons d ds =>
    rw [hs] at hdig hlen hval
    -- the leading digit counts
    have hd₀ : d ≠ '0' := by
      rintro rfl
      have hds := ofDigitChars_lt fun c hc => hdig c (List.mem_cons_of_mem _ hc)
      rw [ofDigitChars_cons_zero, Nat.sub_self, Nat.zero_mul, Nat.zero_add] at hval
      have hn : n < 10 ^ (ds.length + k) := by
        rw [← hval, Nat.pow_add]
        exact Nat.mul_lt_mul_of_pos_right hds (by positivity)
      have hpos : 0 < ds.length + k := by
        by_contra hz
        rw [Nat.eq_zero_of_not_pos hz, Nat.pow_zero] at hn
        omega
      have := (length_toDigits_le hpos).2 hn
      simp only [List.length_cons] at hlen
      omega
    rw [List.length_cons] at hlen
    unfold floatText
    rw [if_neg (by omega), if_neg (by simp only [List.length_cons]; omega),
      if_neg (by simp only [List.length_cons]; omega)]
    cases ds with
    | nil =>
      exact .inl ⟨rfl, parseDecimalCoins_noPoint (hdig _ List.mem_cons_self)
        fun c hc => exponentText_chars c (List.mem_cons_of_mem _ hc)⟩
    | cons d' ds =>
      refine .inr ⟨by simp, parseDecimalCoins_lead (hdig _ List.mem_cons_self) hd₀ ?_⟩
      intro c hc
      rcases List.mem_append.1 hc with hc | hc
      · exact not_whitespace_of_isDigit (hdig c (List.mem_cons_of_mem _ hc))
      · exact (exponentText_chars c hc).1

/-! ## Which amounts are read as they are -/

structure UnspentOutput where
  txid : String
  vout : ℕ
  sats : ℕ
  amount : NodeAmount sats
  scriptPubKey : Option String
  height : Option ℕ

def UnspentOutput.toValue (shown : ℕ → ℕ) (o : UnspentOutput) : Value :=
  .object ([("txid", .string o.txid), ("vout", .number (.posInt o.vout)),
    ("amount", o.amount.value shown)] ++
    (o.scriptPubKey.toList.map fun s => ("scriptPubKey", .string s)) ++
    o.height.toList.map fun h => ("height", .number (.posInt h)))

def scanResult (shown : ℕ → ℕ) (tip : ℕ) (outs : List UnspentOutput) : Value :=
  .object [("height", .number (.posInt tip)), ("unspents", .array (outs.map (·.toValue shown)))]

/-- Each amount is read as it is or not at all, and so is each deposit that a scan
reports and the watcher credits. -/
structure ReadExactly (shown : ℕ → ℕ) (outs : List UnspentOutput) : Prop where
  amount : ∀ o ∈ outs, ∀ v, coinAmountToSats (o.amount.value shown) = some v → v = o.sats
  deposits : ∀ tip address txs, scanAddress (.ok (scanResult shown tip outs)) address = .ok txs →
    txs.map (fun tx => (tx.txHash, tx.vout, tx.credited)) =
      outs.map fun o => (o.txid, o.vout % 2 ^ 32, (o.sats : ℚ))

/-- Text and integers; of the floats those whose value is zero, those printed with
an exponent after one digit, and those without an exponent that read back as the
value or as one that is out of range. -/
def UnspentOutput.PrintsBack (shown : ℕ → ℕ) (o : UnspentOutput) : Prop :=
  match o.amount with
  | .text _ _ => True
  | .integer _ _ => True
  | .float =>
    if o.sats < 1000 then (significant o.sats).length ≤ 1
    else shown o.sats = o.sats ∨ 2 ^ 64 ≤ shown o.sats

theorem tryIntoU64_eq_some {n v : ℕ} : tryIntoU64 n = some v ↔ n = v ∧ n < 2 ^ 64 := by
  unfold tryIntoU64
  split <;> rename_i h
  · rw [Option.some.injEq, and_iff_left h]
  · exact ⟨fun he => (nomatch he), fun he => absurd he.2 h⟩

section
variable {shown : ℕ → ℕ} {sats : ℕ}

theorem coinAmountToSats_text {s : String} (h : CoinText sats s.toList) (hlt : sats < 2 ^ 64) :
    coinAmountToSats (.string s) = some sats := by
  have hp : parseDecimalCoins s.toList = some sats := by
    generalize s.toList = l at h
    cases h with
    | whole _ hne hd hv => rw [parseDecimalCoins_whole hne hd (by omega), hv]
    | point i f hd hf hv => rw [parseDecimalCoins_point hd hf (by omega), hv]
  rw [coinAmountToSats, hp, Option.bind_some, tryIntoU64, if_pos hlt]

theorem coinAmountToSats_integer {n : ℕ} (h : n * 10 ^ 8 = sats) (hlt : sats < 2 ^ 64) :
    coinAmountToSats (.number (.posInt n)) = some sats := by
  have hp : parseDecimalCoins (Nat.toDigits 10 n) = some sats := by
    have hd : ∀ c ∈ Nat.toDigits 10 n, c.isDigit := fun c hc =>
      Nat.isDigit_of_mem_toDigits (by norm_num) (by norm_num) hc
    rw [parseDecimalCoins_whole Nat.toDigits_ne_nil hd
      (by rw [Nat.ofDigitChars_ten_toDigits]; omega), Nat.ofDigitChars_ten_toDigits, h]
  rw [coinAmountToSats, Number.toText, hp, Option.bind_some, tryIntoU64, if_pos hlt]

theorem coinAmountToSats_float (hs : ShortestPrint shown) (hlt : sats < 2 ^ 64) :
    (∀ v, coinAmountToSats (.number (floatOf (shown sats))) = some v → v = sats) ↔
      if sats < 1000 then (significant sats).length ≤ 1
      else shown sats = sats ∨ 2 ^ 64 ≤ shown sats := by
  simp only [coinAmountToSats]
  split
  · rename_i hsmall
    rw [hs.exact sats (by omega)]
    rcases Nat.eq_zero_or_pos sats with rfl | hpos
    · have hz : (parseDecimalCoins (floatOf 0).toText).bind tryIntoU64 = some 0 := by decide
      have hl : (significant 0).length ≤ 1 := by decide
      rw [hz]
      exact ⟨fun _ => hl, fun _ v hv => (Option.some.inj hv).symm⟩
    · rcases floatText_exponent hpos hsmall with ⟨hone, hp⟩ | ⟨hmore, v, hp, hlo, hhi⟩
      · rw [hp, hone]
        simp
      · rw [hp, Option.bind_some]
        constructor
        · intro h
          have := h v (tryIntoU64_eq_some.2 ⟨rfl, by omega⟩)
          omega
        · intro h
          omega
  · rename_i hbig
    have hlo : 1000 ≤ shown sats := by
      by_cases h15 : sats < 10 ^ 15
      · rw [hs.exact sats h15]; omega
      · have := (hs.close sats).1
        omega
    have hhi : shown sats < 10 ^ 24 := by
      have := (hs.close sats).2
      omega
    obtain ⟨i, f, htext, hd, hf, hv⟩ := floatText_plain hlo hhi
    rw [htext, parseDecimalCoins_point hd hf (by omega), hv, Option.bind_some]
    constructor
    · intro h
      by_cases hr : shown sats < 2 ^ 64
      · exact .inl (h _ (tryIntoU64_eq_some.2 ⟨rfl, hr⟩))
      · exact .inr (not_lt.1 hr)
    · rintro h v hv'
      obtain ⟨rfl, hr⟩ := tryIntoU64_eq_some.1 hv'
      rcases h with h | h
      · exact h
      · omega

end

section
variable {shown : ℕ → ℕ}

theorem amount_exact_iff (hs : ShortestPrint shown) {o : UnspentOutput} (hlt : o.sats < 2 ^ 64) :
    (∀ v, coinAmountToSats (o.amount.value shown) = some v → v = o.sats) ↔ o.PrintsBack shown := by
  obtain ⟨txid, vout, sats, amount, script, height⟩ := o
  cases amount with
  | text s h =>
    simp only [NodeAmount.value, UnspentOutput.PrintsBack, coinAmountToSats_text h hlt]
    simp
  | integer n h =>
    simp only [NodeAmount.value, UnspentOutput.PrintsBack, coinAmountToSats_integer h hlt]
    simp
  | float => exact coinAmountToSats_float hs hlt

theorem parseUnspent_toValue {tip : Option ℕ} {o : UnspentOutput} {u : ScannedUtxo}
    (h : parseUnspent tip (o.toValue shown) = some u) :
    u.txid = o.txid ∧ u.vout = o.vout % 2 ^ 32 ∧
      coinAmountToSats (o.amount.value shown) = some u.valueSats := by
  have htxid : (o.toValue shown).get "txid" = some (.string o.txid) := rfl
  have hvout : (o.toValue shown).get "vout" = some (.number (.posInt o.vout)) := rfl
  have hamount : (o.toValue shown).get "amount" = some (o.amount.value shown) := rfl
  simp only [parseUnspent, htxid, hvout, hamount, Option.bind_eq_bind, Option.bind_some,
    Value.asStr, Value.asU64] at h
  obtain ⟨v, hv, h⟩ := Option.bind_eq_some_iff.1 h
  cases h
  exact ⟨rfl, rfl, hv⟩

theorem mapM_parseUnspent {tip : Option ℕ} : ∀ {outs : List UnspentOutput} {us : List ScannedUtxo},
    (∀ o ∈ outs, ∀ v, coinAmountToSats (o.amount.value shown) = some v → v = o.sats) →
    (outs.map (·.toValue shown)).mapM (parseUnspent tip) = some us →
    us.map (fun u => (u.txid, u.vout, (u.valueSats : ℚ))) =
      outs.map fun o => (o.txid, o.vout % 2 ^ 32, (o.sats : ℚ))
  | [], us, _, h => by
    cases h
    rfl
  | o :: outs, us, ha, h => by
    rw [List.map_cons, List.mapM_cons] at h
    obtain ⟨u, hu, h⟩ := Option.bind_eq_some_iff.1 h
    obtain ⟨us', hus, h⟩ := Option.bind_eq_some_iff.1 h
    cases h
    obtain ⟨htxid, hvout, hv⟩ := parseUnspent_toValue hu
    have hsats := ha o List.mem_cons_self _ hv
    have ih := mapM_parseUnspent (fun o ho => ha o (List.mem_cons_of_mem _ ho)) hus
    rw [List.map_cons, List.map_cons, ih, htxid, hvout, hsats]

/-- What a scan reports is exact if and only if every amount prints back. -/
theorem readExactly_iff (hs : ShortestPrint shown) {outs : List UnspentOutput}
    (hlt : ∀ o ∈ outs, o.sats < 2 ^ 64) :
    ReadExactly shown outs ↔ ∀ o ∈ outs, o.PrintsBack shown := by
  constructor
  · intro h o ho
    exact (amount_exact_iff hs (hlt o ho)).1 (h.amount o ho)
  · intro h
    have hamount : ∀ o ∈ outs, ∀ v, coinAmountToSats (o.amount.value shown) = some v → v = o.sats :=
      fun o ho => (amount_exact_iff hs (hlt o ho)).2 (h o ho)
    refine ⟨hamount, fun tip address txs htxs => ?_⟩
    simp only [scanAddress] at htxs
    split at htxs
    · cases htxs
    · rename_i us hus
      cases htxs
      have hmap : (outs.map (·.toValue shown)).mapM (parseUnspent (some tip)) = some us := hus
      rw [List.map_map]
      exact mapM_parseUnspent hamount hmap

end

/-! 150 satoshis as the JSON number `0.0000015` are printed as `1.5e-6` and read as
156000000; as text they are read as they are. -/

def dust : UnspentOutput := ⟨"aa", 0, 150, .float, none, none⟩

def dustAsText : UnspentOutput :=
  ⟨"aa", 0, 150, .text "0.00000150" (.point ['0'] ['0', '0', '0', '0', '0', '1', '5', '0']
    (List.all_eq_true.1 rfl) (by decide) (by decide)), none, none⟩

theorem shortestPrint_id : ShortestPrint id where
  exact _ _ := rfl
  close n := by
    rw [id_eq]
    omega

theorem readExactly_two_outputs :
    ReadExactly id [dustAsText, ⟨"bb", 1, 12345678, .float, none, none⟩] :=
  (readExactly_iff shortestPrint_id (by simp [dustAsText])).2
    (by simp [dustAsText, UnspentOutput.PrintsBack])

theorem dust_misread : coinAmountToSats (dust.amount.value id) = some 156000000 ∧
    ¬ ReadExactly id [dust] := by
  have hread : coinAmountToSats (dust.amount.value id) = some 156000000 := by decide +kernel
  refine ⟨hread, fun h => ?_⟩
  have := h.amount dust (List.mem_singleton_self _) _ hread
  exact absurd this (by decide)

end SatsPay
