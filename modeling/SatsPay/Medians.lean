import Mathlib.Tactic

/-!
# Medians of a majority

In a sorted list, an element with enough others on both sides lies between two of the majority.
-/

namespace Medians

variable {α : Type} [LinearOrder α]

theorem exists_mem_of_sublist {s t honest corrupt : List α} (hperm : s.Perm (honest ++ corrupt))
    (hsub : t.Sublist s) (h : corrupt.length < t.length) : ∃ x ∈ t, x ∈ honest := by
  by_contra hnone
  have hcount : t.length ≤ s.countP (· ∉ honest) := by
    refine le_trans (le_of_eq ?_) (hsub.countP_le)
    exact (List.countP_eq_length.2 fun x hx =>
      decide_eq_true (show x ∉ honest from fun hmem => hnone ⟨x, hx, hmem⟩)).symm
  have hhonest : honest.countP (· ∉ honest) = 0 :=
    List.countP_eq_zero.2 fun x hx => by simpa using hx
  rw [hperm.countP_eq, List.countP_append, hhonest, Nat.zero_add] at hcount
  exact absurd (hcount.trans List.countP_le_length) (not_le.2 h)

/-- With more elements up to it, and from it on, than there are others, it is between two of
`honest`. -/
theorem between_of_majority {s honest corrupt : List α} (hs : s.Pairwise (· ≤ ·))
    (hperm : s.Perm (honest ++ corrupt)) {i : ℕ} {x : α} (hx : s[i]? = some x)
    (hlow : corrupt.length ≤ i) (hhigh : i + corrupt.length < s.length) :
    (∃ low ∈ honest, low ≤ x) ∧ ∃ high ∈ honest, x ≤ high := by
  obtain ⟨hi, rfl⟩ := List.getElem?_eq_some_iff.1 hx
  constructor
  · obtain ⟨low, hlowmem, hhonest⟩ := exists_mem_of_sublist hperm (List.take_sublist (i + 1) s)
      (by rw [List.length_take]; omega)
    refine ⟨low, hhonest, ?_⟩
    obtain ⟨j, hj, rfl⟩ := List.mem_iff_getElem.1 hlowmem
    rw [List.length_take] at hj
    rw [List.getElem_take]
    exact (hs.sortedLE).getElem_le_getElem_of_le (by omega)
  · obtain ⟨high, hhighmem, hhonest⟩ := exists_mem_of_sublist hperm (List.drop_sublist i s)
      (by rw [List.length_drop]; omega)
    refine ⟨high, hhonest, ?_⟩
    obtain ⟨j, hj, rfl⟩ := List.mem_iff_getElem.1 hhighmem
    rw [List.getElem_drop]
    exact (hs.sortedLE).getElem_le_getElem_of_le (by omega)

end Medians
