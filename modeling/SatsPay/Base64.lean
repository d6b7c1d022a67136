import Mathlib.Data.List.GetD
import Mathlib.Data.List.TakeWhile
import SatsPay.BitGroups

/-!
# Base 64

Bytes in groups of six bits, padded to whole groups of four characters.
-/

namespace Base64

open BitGroups

def alphabet : List Char :=
  "ABCDEFGHIJKLMNOPQRSTUVWXYZabcdefghijklmnopqrstuvwxyz0123456789+/".toList

def groupChar (g : ℕ) : Char := alphabet.getD g 'A'

def padding (length : ℕ) : List Char := List.replicate ((4 - length % 4) % 4) '='

def encode (bs : List ℕ) : List Char :=
  let groups := (convertBits bs 8 6 true).getD []
  groups.map groupChar ++ padding groups.length

def decode (cs : List Char) : Option (List ℕ) := do
  let body := cs.takeWhile (· != '=')
  let groups ← body.mapM (alphabet.idxOf? ·)
  if cs.dropWhile (· != '=') = padding groups.length ∧ groups.length % 4 ≠ 1 then
    convertBits groups 6 8 false
  else none

theorem idxOf?_groupChar {g : ℕ} (h : g < 64) :
    alphabet.idxOf? (groupChar g) = some g ∧ groupChar g ≠ '=' := by
  have hall : ∀ g < 64, alphabet.idxOf? (groupChar g) = some g ∧ groupChar g ≠ '=' := by
    decide +kernel
  exact hall g h

theorem mapM_groupChar {gs : List ℕ} (h : ∀ g ∈ gs, g < 64) :
    (gs.map groupChar).mapM (alphabet.idxOf? ·) = some gs := by
  induction gs with
  | nil => rfl
  | cons g gs ih =>
    rw [List.forall_mem_cons] at h
    rw [List.map_cons, List.mapM_cons, (idxOf?_groupChar h.1).1, ih h.2]
    rfl

theorem decode_encode {bs : List ℕ} (h : ∀ b ∈ bs, b < 256) : decode (encode bs) = some bs := by
  obtain ⟨groups, k, hgroups, hlt, hk, hbits⟩ :=
    convertBits_pad (a := 8) (b := 6) (by norm_num) (by norm_num) h
  have hlen := congrArg List.length hbits
  rw [length_bitsOfGroups, List.length_append, length_bitsOfGroups, List.length_replicate] at hlen
  have hbody : ∀ c ∈ groups.map groupChar, (c != '=') = true := by
    intro c hc
    obtain ⟨g, hg, rfl⟩ := List.mem_map.1 hc
    simpa using (idxOf?_groupChar (hlt g hg)).2
  have hpad : (padding groups.length).takeWhile (· != '=') = [] ∧
      (padding groups.length).dropWhile (· != '=') = padding groups.length := by
    unfold padding
    cases (4 - groups.length % 4) % 4 <;> exact ⟨rfl, rfl⟩
  unfold decode encode
  rw [hgroups, Option.getD_some]
  dsimp only
  rw [List.takeWhile_append_of_pos hbody, List.dropWhile_append_of_pos hbody, hpad.1, hpad.2,
    List.append_nil, mapM_groupChar hlt, Option.bind_eq_bind, Option.bind_some,
    if_pos ⟨rfl, by omega⟩]
  exact (convertBits_inverse (by norm_num) (by norm_num) (by norm_num) h hlt).2 hgroups

end Base64
