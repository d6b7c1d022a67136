import SatsPay.Numeric
import Mathlib.Data.List.DropRight

/-!
# Text and JSON values

How text is cut, the values a provider or a node answers with, and the text that a
number is printed as.
-/

namespace SatsPay

/-- The Unicode property `White_Space`. -/
def isWhitespace (c : Char) : Bool :=
  let n := c.toNat
  (9 ≤ n && n ≤ 13) || n == 0x20 || n == 0x85 || n == 0xA0 || n == 0x1680 ||
    (0x2000 ≤ n && n ≤ 0x200A) || n == 0x2028 || n == 0x2029 || n == 0x202F || n == 0x205F ||
    n == 0x3000

def trim (s : List Char) : List Char := (s.dropWhile isWhitespace).rdropWhile isWhitespace

def splitOnce (c : Char) (s : List Char) : Option (List Char × List Char) :=
  match s.dropWhile (· != c) with
  | [] => none
  | _ :: after => some (s.takeWhile (· != c), after)

theorem trim_eq_self {s : List Char} (h : ∀ c ∈ s, isWhitespace c = false) : trim s = s := by
  have h₁ : s.dropWhile isWhitespace = s := by
    cases s with
    | nil => rfl
    | cons c s => rw [List.dropWhile_cons_of_neg (by simp [h c List.mem_cons_self])]
  rw [trim, h₁, List.rdropWhile_eq_self_iff]
  intro hne
  simp [h _ (List.getLast_mem hne)]

theorem splitOnce_eq_none_iff {c : Char} {l : List Char} : splitOnce c l = none ↔ c ∉ l := by
  unfold splitOnce
  split
  · rename_i h
    rw [List.dropWhile_eq_nil_iff] at h
    exact iff_of_true rfl fun hc => absurd (h c hc) (by simp)
  · rename_i d after h
    refine iff_of_false nofun fun hc => hc ?_
    have hd : d = c := by
      have := List.head_dropWhile_not (p := (· != c)) (l := l) (by simp [h])
      simpa [h] using this
    have hmem : d ∈ l.dropWhile (· != c) := h ▸ List.mem_cons_self
    exact hd ▸ (List.dropWhile_suffix _).subset hmem

/-- The first `n` bytes of a text, or all of it, if they end with a character. -/
def takeBytes : ℕ → List Char → Option (List Char)
  | 0, _ => some []
  | _ + 1, [] => some []
  | n + 1, c :: cs => if c.utf8Size ≤ n + 1 then
    (takeBytes (n + 1 - c.utf8Size) cs).map (c :: ·) else none

def fromHexDigit (c : Char) : Option ℕ :=
  if c.isDigit then some (c.toNat - '0'.toNat)
  else if 'a' ≤ c ∧ c ≤ 'f' then some (c.toNat - 'a'.toNat + 10)
  else if 'A' ≤ c ∧ c ≤ 'F' then some (c.toNat - 'A'.toNat + 10)
  else none

/-- `from_str_radix` with radix 16, of a type whose values are below `limit`. -/
def fromStrRadix16 (limit : ℕ) (s : List Char) : Option ℕ :=
  let ds := match s with
    | '+' :: ds => ds
    | ds => ds
  if ds = [] then none
  else (ds.foldlM (fun n c => (fromHexDigit c).map (16 * n + ·)) 0).filter (· < limit)

/-- A float is given by its digits: the shortest decimal that reads back as it is
`digits * 10 ^ exp`. -/
inductive Number where
  | posInt (n : ℕ)
  | negInt (n : ℕ)
  | float (neg : Bool) (digits : List Char) (exp : ℤ)
  deriving DecidableEq, Repr

inductive Value where
  | null
  | bool (b : Bool)
  | number (n : Number)
  | string (s : String)
  | array (xs : List Value)
  | object (fields : List (String × Value))

namespace Value

def get (key : String) : Value → Option Value
  | .object fields => fields.lookup key
  | _ => none

def asStr : Value → Option String
  | .string s => some s
  | _ => none

def asU64 : Value → Option ℕ
  | .number (.posInt n) => some n
  | _ => none

def asArray : Value → Option (List Value)
  | .array xs => some xs
  | _ => none

end Value

def intText (k : ℤ) : List Char :=
  if k < 0 then '-' :: Nat.toDigits 10 k.natAbs else Nat.toDigits 10 k.natAbs

/-- An exponent has its sign. -/
def exponentText (k : ℤ) : List Char := 'e' :: if k < 0 then intText k else '+' :: intText k

/-- A positive float: plain while its point is near its digits, else with an exponent. -/
def floatText (digits : List Char) (exp : ℤ) : List Char :=
  let point : ℤ := digits.length + exp
  if 0 ≤ exp ∧ point ≤ 16 then digits ++ List.replicate exp.toNat '0' ++ ['.', '0']
  else if 0 < point ∧ point ≤ 16 then digits.take point.toNat ++ '.' :: digits.drop point.toNat
  else if -5 < point ∧ point ≤ 0 then
    '0' :: '.' :: (List.replicate (-point).toNat '0' ++ digits)
  else match digits with
    | [] => []
    | [d] => d :: exponentText (point - 1)
    | d :: ds => d :: '.' :: (ds ++ exponentText (point - 1))

def Number.toText : Number → List Char
  | .posInt n => Nat.toDigits 10 n
  | .negInt n => '-' :: Nat.toDigits 10 n
  | .float neg digits exp =>
    (if neg then ['-'] else []) ++
      if digits.all (· == '0') then ['0', '.', '0'] else floatText digits exp

end SatsPay
