import Mathlib.Data.List.Basic
import Mathlib.Tactic

/-!
# Counters of fixed windows

A counter begins a window with a hit, and numbers the hits of the window from one. Where the
windows begin `gap` apart, a limit on the numbers is a limit on the hits of any stretch of time.
-/

namespace SatsPay

structure Hit where
  time : ℕ
  /-- When its window began. -/
  start : ℕ
  nth : ℕ

namespace Hit

/-- `h'` is the next of the same window, or the first of another. -/
def Next (gap : ℕ) (h h' : Hit) : Prop :=
  (h'.start = h.start ∧ h'.nth = h.nth + 1) ∨
    (h.start + gap ≤ h'.start ∧ h'.start = h'.time ∧ h'.nth = 1)

inductive Windowed (gap : ℕ) : List Hit → Prop
  | nil : Windowed gap []
  | first (time : ℕ) : Windowed gap [⟨time, time, 1⟩]
  | next {h h' : Hit} {l : List Hit} (hl : Windowed gap (h :: l)) (hn : h.Next gap h')
      (ht : h.time ≤ h'.time) : Windowed gap (h' :: h :: l)

abbrev since (a max : ℕ) (h : Hit) : Bool := decide (a ≤ h.time ∧ h.nth ≤ max)

section
variable {gap a max : ℕ} {h : Hit} {l : List Hit}

theorem Windowed.tail {h : Hit} {l : List Hit} (hl : Windowed gap (h :: l)) : Windowed gap l := by
  cases hl with
  | first => exact .nil
  | next hl => exact hl

theorem Windowed.time_le (hl : Windowed gap (h :: l)) : ∀ x ∈ h :: l, x.time ≤ h.time := by
  generalize he : h :: l = s at hl
  induction hl generalizing h l with
  | nil => cases he
  | first time =>
    cases he
    simp
  | next hl hn ht ih =>
    cases he
    intro x hx
    rcases List.mem_cons.1 hx with rfl | hx
    · exact le_refl _
    · exact (ih rfl x hx).trans ht

theorem Windowed.start_le (hl : Windowed gap (h :: l)) : h.start ≤ h.time ∧ 1 ≤ h.nth := by
  generalize he : h :: l = s at hl
  induction hl generalizing h l with
  | nil => cases he
  | first time =>
    cases he
    simp
  | next hl hn ht ih =>
    cases he
    obtain ⟨hs, hi⟩ := ih rfl
    rcases hn with ⟨h₁, h₂⟩ | ⟨-, h₂, h₃⟩ <;> omega

/-- How many windows before the current one may reach beyond `a`. -/
def earlier (gap a start : ℕ) : ℕ := if start < a then 0 else 1 + (start - a) / gap

theorem earlier_next {start start' : ℕ} (hgap : 0 < gap) (hs : start + gap ≤ start')
    (ha : a ≤ start') : earlier gap a start + 1 ≤ earlier gap a start' := by
  unfold earlier
  rw [if_neg (not_lt.2 ha)]
  split
  · exact Nat.le_add_right _ _
  · rename_i h
    have hstep : (start - a) / gap + 1 ≤ (start' - a) / gap := by
      rw [← Nat.add_div_right _ hgap]
      exact Nat.div_le_div_right (by omega)
    rw [Nat.add_assoc]
    exact Nat.add_le_add_left hstep 1

/-- The hits since `a`: those of the current window, and `max` at most of each one before. -/
theorem Windowed.since_le (hgap : 0 < gap) (hl : Windowed gap (h :: l)) :
    ((h :: l).filter (since a max)).length ≤ min h.nth max + max * earlier gap a h.start := by
  generalize he : h :: l = s at hl
  induction hl generalizing h l with
  | nil => cases he
  | first time =>
    cases he
    by_cases hx : since a max ⟨time, time, 1⟩
    · have hm : 1 ≤ max := (of_decide_eq_true hx).2
      rw [List.filter_cons_of_pos hx]
      simp [hm]
    · simp [hx]
  | @next g g' l hl hn ht ih =>
    cases he
    have hrest := ih rfl
    by_cases ha : g'.time < a
    · -- then it is all before `a`
      have hnone : (g' :: g :: l).filter (since a max) = [] := by
        refine List.filter_eq_nil_iff.2 fun x hx => ?_
        have hxt := (Windowed.next hl hn ht).time_le x hx
        simp only [decide_eq_true_eq, not_and]
        omega
      rw [hnone]
      exact Nat.zero_le _
    have hcons : ((g' :: g :: l).filter (since a max)).length ≤
        ((g :: l).filter (since a max)).length + if g'.nth ≤ max then 1 else 0 := by
      by_cases hx : since a max g'
      · rw [List.filter_cons_of_pos hx, if_pos (of_decide_eq_true hx).2, List.length_cons]
      · rw [List.filter_cons_of_neg hx]
        exact Nat.le_add_right _ _
    rcases hn with ⟨hs, hi⟩ | ⟨hs, hs', hi⟩
    · rw [hs, hi]
      rw [hi] at hcons
      split at hcons <;> omega
    · have hearlier := Nat.mul_le_mul_left max (earlier_next hgap hs (hs' ▸ not_lt.1 ha))
      rw [Nat.mul_add, Nat.mul_one] at hearlier
      rw [hi] at hcons ⊢
      split at hcons <;> omega

/-- In `k` gaps of time the hits are those of `k + 1` windows at most. -/
theorem Windowed.length_le (hgap : 0 < gap) {l : List Hit} (hl : Windowed gap l) (a k max : ℕ) :
    (l.filter fun h => decide (a ≤ h.time ∧ h.time < a + k * gap ∧ h.nth ≤ max)).length ≤
      (k + 1) * max := by
  induction l with
  | nil => exact Nat.zero_le _
  | cons h l ih =>
    by_cases hk : h.time < a + k * gap
    · have hall : (h :: l).filter (fun h => decide (a ≤ h.time ∧ h.time < a + k * gap ∧ h.nth ≤ max)) =
          (h :: l).filter (since a max) := by
        refine List.filter_congr fun x hx => ?_
        have hxt := hl.time_le x hx
        rw [decide_eq_decide]
        omega
      have hearlier : earlier gap a h.start ≤ k := by
        unfold earlier
        split
        · exact Nat.zero_le _
        · have hs := hl.start_le.1
          have hdiv : (h.start - a) / gap < k := by
            rw [Nat.div_lt_iff_lt_mul hgap]
            omega
          omega
      rw [hall]
      calc _ ≤ min h.nth max + max * earlier gap a h.start := hl.since_le hgap
        _ ≤ max + max * k := Nat.add_le_add (min_le_right _ _) (Nat.mul_le_mul_left _ hearlier)
        _ = (k + 1) * max := by ring
    · rw [List.filter_cons_of_neg (by simp [hk])]
      exact ih hl.tail

/-- Who is the `n`-th of a window is so of `n` since the window began. -/
theorem Windowed.nth_le (hl : Windowed gap (h :: l)) :
    h.nth ≤ ((h :: l).filter fun x => decide (h.start ≤ x.time)).length := by
  generalize he : h :: l = s at hl
  induction hl generalizing h l with
  | nil => cases he
  | first time =>
    cases he
    simp
  | @next g g' l hl hn ht ih =>
    cases he
    have hs := (Windowed.next hl hn ht).start_le.1
    rw [List.filter_cons_of_pos (by simpa using hs), List.length_cons]
    rcases hn with ⟨hs, hi⟩ | ⟨-, -, hi⟩
    · rw [hi, hs]
      exact Nat.succ_le_succ (ih rfl)
    · rw [hi]
      exact Nat.succ_le_succ (Nat.zero_le _)

end

end Hit

/-- What is under a limit for each of a list is under so many limits together. -/
theorem countP_le_of_forall_exists {α β : Type*} {l : List α} {p : α → Bool} {q : β → α → Bool}
    {n : ℕ} {is : List β} (hp : ∀ x ∈ l, p x → ∃ i ∈ is, q i x) (hn : ∀ i ∈ is, l.countP (q i) ≤ n) :
    l.countP p ≤ is.length * n := by
  induction is generalizing p with
  | nil =>
    rw [List.countP_eq_zero.2 fun x hx hpx => by simpa using hp x hx hpx]
    exact Nat.zero_le _
  | cons i is ih =>
    have hfirst : (l.filter (q i)).countP p ≤ n :=
      ((List.countP_le_length).trans_eq List.countP_eq_length_filter.symm).trans
        (hn i List.mem_cons_self)
    have hrest : (l.filter fun x => !q i x).countP p ≤ is.length * n := by
      rw [List.countP_filter]
      refine ih (fun x hx hpx => ?_) fun j hj => hn j (List.mem_cons_of_mem _ hj)
      simp only [Bool.and_eq_true, Bool.not_eq_true'] at hpx
      obtain ⟨j, hj, hq⟩ := hp x hx hpx.1
      rcases List.mem_cons.1 hj with rfl | hj
      · rw [hpx.2] at hq
        cases hq
      · exact ⟨j, hj, hq⟩
    rw [List.countP_eq_countP_filter_add l p (q i), List.length_cons, Nat.succ_mul, Nat.add_comm]
    refine Nat.add_le_add (le_trans (le_of_eq ?_) hrest) hfirst
    simp

end SatsPay
