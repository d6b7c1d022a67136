import Mathlib.Tactic
import SatsPay.Json

/-!
# Internet addresses

Addresses as numbers of 32 and 128 bits, their octets and segments, the reader of
their text, and blocks of addresses. A block fixes the high bits, so each test on
octets is membership in blocks.
-/

namespace SatsPay

/-! ## Blocks -/

/-- The numbers that agree with `base` above the low `host` bits. -/
structure Cidr where
  base : ℕ
  host : ℕ
  deriving DecidableEq, Repr

def Cidr.Has (c : Cidr) (n : ℕ) : Prop := n / 2 ^ c.host = c.base / 2 ^ c.host

instance (c : Cidr) (n : ℕ) : Decidable (c.Has n) := inferInstanceAs (Decidable (_ = _))

theorem and_shiftLeft (x m k : ℕ) : x &&& m <<< k = ((x >>> k) &&& m) <<< k := by
  apply Nat.eq_of_testBit_eq
  intro i
  by_cases hk : k ≤ i
  · simp [hk]
  · simp [hk]

/-- A mask of the high `w` bits compares what is above the low `k` bits. -/
theorem and_high_eq {x : ℕ} (b w k : ℕ) (hx : x < 2 ^ (w + k)) :
    (x &&& (2 ^ w - 1) <<< k = b <<< k) ↔ x / 2 ^ k = b := by
  have hlt : x / 2 ^ k < 2 ^ w := by
    rw [Nat.div_lt_iff_lt_mul (by positivity), ← pow_add]
    exact hx
  rw [and_shiftLeft, Nat.and_two_pow_sub_one_eq_mod, Nat.shiftRight_eq_div_pow,
    Nat.mod_eq_of_lt hlt, Nat.shiftLeft_eq, Nat.shiftLeft_eq]
  exact Nat.mul_left_inj (by positivity)

/-! ## Addresses -/

inductive IpAddr where
  | v4 (b : BitVec 32)
  | v6 (b : BitVec 128)
  deriving DecidableEq

namespace Ipv4Addr

def octet (b : BitVec 32) (i : ℕ) : ℕ := b.toNat / 2 ^ (8 * (3 - i)) % 2 ^ 8

def ofOctets (o0 o1 o2 o3 : ℕ) : BitVec 32 :=
  BitVec.ofNat 32 (o0 * 2 ^ 24 + o1 * 2 ^ 16 + o2 * 2 ^ 8 + o3)

def block (o0 o1 o2 o3 len : ℕ) : Cidr := ⟨(ofOctets o0 o1 o2 o3).toNat, 32 - len⟩

def isLoopback (b : BitVec 32) : Bool := octet b 0 == 127

def isPrivate (b : BitVec 32) : Bool :=
  octet b 0 == 10 || (octet b 0 == 172 && (16 ≤ octet b 1 && octet b 1 ≤ 31)) ||
    (octet b 0 == 192 && octet b 1 == 168)

def isLinkLocal (b : BitVec 32) : Bool := octet b 0 == 169 && octet b 1 == 254

def isBroadcast (b : BitVec 32) : Bool := b == ofOctets 255 255 255 255

def isDocumentation (b : BitVec 32) : Bool :=
  (octet b 0 == 192 && octet b 1 == 0 && octet b 2 == 2) ||
    (octet b 0 == 198 && octet b 1 == 51 && octet b 2 == 100) ||
    (octet b 0 == 203 && octet b 1 == 0 && octet b 2 == 113)

def isMulticast (b : BitVec 32) : Bool := 224 ≤ octet b 0 && octet b 0 ≤ 239

def isUnspecified (b : BitVec 32) : Bool := b == ofOctets 0 0 0 0

theorem octet_zero (b : BitVec 32) : octet b 0 = b.toNat / 2 ^ 24 := by
  have := b.isLt
  unfold octet
  omega

theorem octet_one (b : BitVec 32) : octet b 1 = b.toNat / 2 ^ 16 % 2 ^ 8 := rfl

theorem octet_two (b : BitVec 32) : octet b 2 = b.toNat / 2 ^ 8 % 2 ^ 8 := rfl

theorem has_slash8 (b : BitVec 32) {o0 : ℕ} (h0 : o0 < 256) :
    (block o0 0 0 0 8).Has b.toNat ↔ octet b 0 = o0 := by
  simp only [Cidr.Has, block, ofOctets, octet_zero, BitVec.toNat_ofNat]
  omega

theorem has_slash16 (b : BitVec 32) {o0 o1 : ℕ} (h0 : o0 < 256) (h1 : o1 < 256) :
    (block o0 o1 0 0 16).Has b.toNat ↔ octet b 0 = o0 ∧ octet b 1 = o1 := by
  simp only [Cidr.Has, block, ofOctets, octet_zero, octet_one, BitVec.toNat_ofNat]
  omega

theorem has_slash24 (b : BitVec 32) {o0 o1 o2 : ℕ} (h0 : o0 < 256) (h1 : o1 < 256)
    (h2 : o2 < 256) :
    (block o0 o1 o2 0 24).Has b.toNat ↔ octet b 0 = o0 ∧ octet b 1 = o1 ∧ octet b 2 = o2 := by
  simp only [Cidr.Has, block, ofOctets, octet_zero, octet_one, octet_two, BitVec.toNat_ofNat]
  omega

theorem has_slash32 (b : BitVec 32) (o0 o1 o2 o3 : ℕ) :
    (block o0 o1 o2 o3 32).Has b.toNat ↔ b = ofOctets o0 o1 o2 o3 := by
  rw [← BitVec.toNat_inj]
  simp [Cidr.Has, block]

theorem has_private12 (b : BitVec 32) :
    (block 172 16 0 0 12).Has b.toNat ↔ octet b 0 = 172 ∧ 16 ≤ octet b 1 ∧ octet b 1 ≤ 31 := by
  simp only [Cidr.Has, block, ofOctets, octet_zero, octet_one, BitVec.toNat_ofNat]
  omega

theorem has_shared10 (b : BitVec 32) :
    (block 100 64 0 0 10).Has b.toNat ↔ octet b 0 = 100 ∧ 64 ≤ octet b 1 ∧ octet b 1 < 128 := by
  simp only [Cidr.Has, block, ofOctets, octet_zero, octet_one, BitVec.toNat_ofNat]
  omega

theorem has_multicast4 (b : BitVec 32) :
    (block 224 0 0 0 4).Has b.toNat ↔ 224 ≤ octet b 0 ∧ octet b 0 ≤ 239 := by
  simp only [Cidr.Has, block, ofOctets, octet_zero, BitVec.toNat_ofNat]
  omega

end Ipv4Addr

namespace Ipv6Addr

def segment (b : BitVec 128) (i : ℕ) : ℕ := b.toNat / 2 ^ (16 * (7 - i)) % 2 ^ 16

def ofSegments (g : List ℕ) : BitVec 128 := BitVec.ofNat 128 (g.foldl (· * 2 ^ 16 + ·) 0)

def block (s len : ℕ) : Cidr := ⟨s * 2 ^ 112, 128 - len⟩

def isLoopback (b : BitVec 128) : Bool := b == ofSegments [0, 0, 0, 0, 0, 0, 0, 1]

def isUnspecified (b : BitVec 128) : Bool := b == ofSegments [0, 0, 0, 0, 0, 0, 0, 0]

def isMulticast (b : BitVec 128) : Bool := segment b 0 &&& 0xff00 == 0xff00

def toIpv4Mapped (b : BitVec 128) : Option (BitVec 32) :=
  if (List.range 5).all (segment b · == 0) && segment b 5 == 0xffff then
    some (BitVec.ofNat 32 (segment b 6 * 2 ^ 16 + segment b 7))
  else none

theorem segment_zero (b : BitVec 128) : segment b 0 = b.toNat / 2 ^ 112 := by
  have := b.isLt
  unfold segment
  omega

/-- A test of the first segment under a mask of its high bits is one of a block. -/
theorem masked_iff_has (b : BitVec 128) (s w r : ℕ) (hw : w + r = 16) :
    (segment b 0 &&& (2 ^ w - 1) <<< r == s <<< r) = true ↔ (block (s <<< r) w).Has b.toNat := by
  have hlt : segment b 0 < 2 ^ (w + r) := by
    rw [hw]
    exact Nat.mod_lt _ (by positivity)
  have hhost : 128 - w = 112 + r := by omega
  rw [beq_iff_eq, and_high_eq s w r hlt, segment_zero, Cidr.Has, block, hhost, pow_add,
    ← Nat.div_div_eq_div_mul, ← Nat.div_div_eq_div_mul, Nat.mul_div_cancel _ (by positivity),
    Nat.shiftLeft_eq, Nat.mul_div_cancel _ (by positivity)]

theorem toIpv4Mapped_eq_some {b : BitVec 128} {a : BitVec 32} :
    toIpv4Mapped b = some a ↔ b.toNat / 2 ^ 32 = 0xffff ∧ b.toNat % 2 ^ 32 = a.toNat := by
  have hb := b.isLt
  have ha := a.isLt
  have hlow : segment b 6 * 2 ^ 16 + segment b 7 = b.toNat % 2 ^ 32 := by
    unfold segment
    omega
  have hhigh : ((List.range 5).all (segment b · == 0) && segment b 5 == 0xffff) = true ↔
      b.toNat / 2 ^ 32 = 0xffff := by
    simp [List.range_succ, segment]
    omega
  rw [toIpv4Mapped, hlow]
  by_cases hc : b.toNat / 2 ^ 32 = 0xffff
  · rw [if_pos (hhigh.mpr hc), Option.some.injEq, ← BitVec.toNat_inj, BitVec.toNat_ofNat,
      Nat.mod_mod, and_iff_right hc]
  · rw [if_neg (fun h => hc (hhigh.mp h))]
    exact ⟨nofun, fun h => absurd h.1 hc⟩

end Ipv6Addr

/-! ## Texts -/

def readGivenChar (c : Char) : List Char → Option (List Char)
  | d :: rest => if d = c then some rest else none
  | [] => none

/-- `read_separator`: before every part but the first one stands `sep`. -/
def readSeparator {α : Type} (sep : Char) (index : ℕ) (inner : List Char → Option (α × List Char))
    (s : List Char) : Option (α × List Char) :=
  if index = 0 then inner s else (readGivenChar sep s).bind inner

def toDigit (radix : ℕ) (c : Char) : Option ℕ := (fromHexDigit c).filter (· < radix)

def readNumber (radix maxDigits : ℕ) (allowZeroPrefix : Bool) (s : List Char) :
    Option (ℕ × List Char) :=
  let digits := s.takeWhile fun c => (toDigit radix c).isSome
  if maxDigits < digits.length then none
  else if digits = [] then none
  else if !allowZeroPrefix && digits.head? == some '0' && 1 < digits.length then none
  else some ((digits.filterMap (toDigit radix)).foldl (radix * · + ·) 0,
    s.dropWhile fun c => (toDigit radix c).isSome)

def readOctet (index : ℕ) (s : List Char) : Option (ℕ × List Char) :=
  (readSeparator '.' index (readNumber 10 3 false) s).filter (·.1 < 2 ^ 8)

def readIpv4Addr (s : List Char) : Option (BitVec 32 × List Char) := do
  let (o0, s) ← readOctet 0 s
  let (o1, s) ← readOctet 1 s
  let (o2, s) ← readOctet 2 s
  let (o3, s) ← readOctet 3 s
  some (Ipv4Addr.ofOctets o0 o1 o2 o3, s)

/-- `read_groups` with `left` places left, of which the last two may be an IPv4 address. -/
def readGroups : ℕ → ℕ → List Char → List ℕ × Bool × List Char
  | 0, _, s => ([], false, s)
  | left + 1, index, s =>
    match (if 0 < left then readSeparator ':' index readIpv4Addr s else none) with
    | some (b, rest) => ([b.toNat / 2 ^ 16, b.toNat % 2 ^ 16], true, rest)
    | none =>
      match readSeparator ':' index (readNumber 16 4 true) s with
      | some (g, rest) =>
        let (gs, v4, rest) := readGroups left (index + 1) rest
        (g :: gs, v4, rest)
      | none => ([], false, s)

def readIpv6Addr (s : List Char) : Option (BitVec 128 × List Char) :=
  let (head, headIpv4, rest) := readGroups 8 0 s
  if head.length = 8 then some (Ipv6Addr.ofSegments head, rest)
  -- an IPv4 part does not stand before `::`
  else if headIpv4 then none
  else do
    let rest ← readGivenChar ':' rest
    let rest ← readGivenChar ':' rest
    let (tail, _, rest) := readGroups (8 - (head.length + 1)) 0 rest
    let zeros := List.replicate (8 - tail.length - head.length) 0
    some (Ipv6Addr.ofSegments (head ++ zeros ++ tail), rest)

/-- `str::parse::<IpAddr>`, which reads the whole text. -/
def parseIpAddr (s : String) : Option IpAddr :=
  let read := (readIpv4Addr s.toList).map (Prod.map IpAddr.v4 id)
    |>.orElse fun _ => (readIpv6Addr s.toList).map (Prod.map IpAddr.v6 id)
  read.bind fun (ip, rest) => if rest = [] then some ip else none

example : parseIpAddr "::ffff:127.0.0.1" = some (.v6 0xffff7f000001#128) := by
  decide +kernel

example : parseIpAddr "0127.0.0.1" = none := by decide +kernel

end SatsPay
