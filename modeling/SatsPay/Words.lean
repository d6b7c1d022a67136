import Mathlib.Data.Bool.AllAny
import Mathlib.Data.List.Basic

/-!
# Words of a list

A list is cut into words at the elements that satisfy a predicate, or at the first place
where a pattern stands. The pattern here is a word and the separator after it, so that
what is found before a separator does not depend on what comes after.
-/

namespace Words

variable {α β : Type} {p : α → Bool}

def split (p : α → Bool) (l : List α) : List (List α) := (l.splitOnP p).filter (!·.isEmpty)

@[simp] theorem split_nil : split p [] = [] := rfl

def Word (p : α → Bool) (w : List α) : Prop := w ≠ [] ∧ ∀ c ∈ w, p c = false

theorem split_word {w : List α} (h : Word p w) : split p w = [w] := by
  unfold split
  rw [List.splitOnP_eq_singleton h.2]
  simp [h.1]

theorem split_append_cons (a b : List α) {c : α} (hc : p c) :
    split p (a ++ c :: b) = split p a ++ split p b := by
  unfold split
  rw [List.splitOnP_append_cons a b hc, List.filter_append]

theorem split_cons_sep (b : List α) {c : α} (hc : p c) : split p (c :: b) = split p b := by
  simpa using split_append_cons [] b hc

theorem split_word_append {w : List α} (h : Word p w) (b : List α) {c : α} (hc : p c) :
    split p (w ++ c :: b) = w :: split p b := by
  rw [split_append_cons w b hc, split_word h, List.singleton_append]

def Stops (p : α → Bool) (l : List α) : Prop := ∀ c ∈ l.head?, p c

def Starts (p : α → Bool) (l : List α) : Prop := ∀ c ∈ l.getLast?, p c

theorem split_append_stops {a b : List α} (h : Stops p b) :
    split p (a ++ b) = split p a ++ split p b := by
  cases b with
  | nil => simp
  | cons c b => rw [split_append_cons a b (h c rfl), split_cons_sep b (h c rfl)]

theorem split_starts_append {a b : List α} (h : Starts p a) :
    split p (a ++ b) = split p a ++ split p b := by
  rcases List.eq_nil_or_concat a with rfl | ⟨a, c, rfl⟩
  · simp
  · have hc : p c := h c (by simp)
    rw [List.concat_eq_append, List.append_assoc, List.singleton_append, split_append_cons a b hc,
      split_append_cons a [] hc, split_nil, List.append_nil]

theorem free_of_mem_splitOnP {l w : List α} (hw : w ∈ l.splitOnP p) : ∀ c ∈ w, p c = false := by
  induction l generalizing w with
  | nil =>
    obtain rfl : w = [] := by simpa using hw
    simp
  | cons c l ih =>
    rw [List.splitOnP_cons_eq_if_modifyHead] at hw
    split at hw
    · rcases List.mem_cons.1 hw with rfl | hw
      · simp
      · exact ih hw
    · rename_i hc
      obtain ⟨v, vs, e⟩ := List.exists_cons_of_ne_nil (List.splitOnP_ne_nil p l)
      rw [e, List.modifyHead_cons, List.mem_cons] at hw
      rcases hw with rfl | hw
      · intro d hd
        rcases List.mem_cons.1 hd with rfl | hd
        · simpa using hc
        · exact ih (e ▸ List.mem_cons_self) d hd
      · exact ih (e ▸ List.mem_cons_of_mem _ hw)

theorem word_of_mem_split {l w : List α} (hw : w ∈ split p l) : Word p w := by
  obtain ⟨hw, hne⟩ := List.mem_filter.1 hw
  exact ⟨by simpa using hne, free_of_mem_splitOnP hw⟩

theorem subset_of_mem_splitOnP {l w : List α} (hw : w ∈ l.splitOnP p) : w ⊆ l := by
  induction l generalizing w with
  | nil =>
    obtain rfl : w = [] := by simpa using hw
    exact List.Subset.refl _
  | cons c l ih =>
    rw [List.splitOnP_cons_eq_if_modifyHead] at hw
    split at hw
    · rcases List.mem_cons.1 hw with rfl | hw
      · exact List.nil_subset _
      · exact List.subset_cons_of_subset _ (ih hw)
    · obtain ⟨v, vs, e⟩ := List.exists_cons_of_ne_nil (List.splitOnP_ne_nil p l)
      rw [e, List.modifyHead_cons, List.mem_cons] at hw
      rcases hw with rfl | hw
      · exact List.cons_subset_cons _ (ih (e ▸ List.mem_cons_self))
      · exact List.subset_cons_of_subset _ (ih (e ▸ List.mem_cons_of_mem _ hw))

theorem subset_of_mem_split {l w : List α} (hw : w ∈ split p l) : w ⊆ l :=
  subset_of_mem_splitOnP (List.mem_filter.1 hw).1

theorem splitOnP_map (f : α → β) (p : β → Bool) (l : List α) :
    (l.map f).splitOnP p = (l.splitOnP (p ∘ f)).map (List.map f) := by
  induction l with
  | nil => rfl
  | cons c l ih =>
    rw [List.map_cons, List.splitOnP_cons_eq_if_modifyHead, List.splitOnP_cons_eq_if_modifyHead, ih,
      Function.comp_apply]
    split
    · rfl
    · obtain ⟨v, vs, e⟩ := List.exists_cons_of_ne_nil (List.splitOnP_ne_nil (p ∘ f) l)
      simp [e]

/-- The last piece of one list and the first one of the next are joined. -/
theorem splitOnP_append {x y P Q : List α} {A B : List (List α)} (hx : x.splitOnP p = A ++ [P])
    (hy : y.splitOnP p = Q :: B) : (x ++ y).splitOnP p = A ++ (P ++ Q) :: B := by
  induction x generalizing A P with
  | nil =>
    obtain ⟨rfl, rfl⟩ : A = [] ∧ [] = P := by
      rw [List.splitOnP_nil] at hx
      exact ⟨by simpa using (congrArg List.length hx).symm,
        by simpa using congrArg List.getLast? hx⟩
    simpa using hy
  | cons c x ih =>
    rw [List.cons_append, List.splitOnP_cons_eq_if_modifyHead]
    rw [List.splitOnP_cons_eq_if_modifyHead] at hx
    obtain ⟨A', P', hx'⟩ : ∃ A P, x.splitOnP p = A ++ [P] := by
      rcases List.eq_nil_or_concat (x.splitOnP p) with e | ⟨A, P, e⟩
      · exact absurd e (List.splitOnP_ne_nil p x)
      · exact ⟨A, P, by simpa using e⟩
    rw [hx'] at hx
    rw [ih hx']
    split
    · rename_i hc
      rw [if_pos hc, ← List.cons_append] at hx
      obtain ⟨rfl, e⟩ := List.append_inj' hx rfl
      obtain rfl : P' = P := by simpa using e
      rfl
    · rename_i hc
      rw [if_neg hc] at hx
      cases A' with
      | nil =>
        rw [List.nil_append, List.modifyHead_cons] at hx
        obtain ⟨rfl, e⟩ := @List.append_inj' _ [] _ _ _ hx rfl
        obtain rfl : c :: P' = P := by simpa using e
        rfl
      | cons a A' =>
        rw [List.cons_append, List.modifyHead_cons, ← List.cons_append] at hx
        obtain ⟨rfl, e⟩ := List.append_inj' hx rfl
        obtain rfl : P' = P := by simpa using e
        rfl

theorem split_map (f : α → β) (p : β → Bool) (l : List α) :
    split p (l.map f) = (split (p ∘ f) l).map (List.map f) := by
  unfold split
  rw [splitOnP_map, List.filter_map]
  congr 2
  funext w
  simp

/-! ## Words put together -/

theorem split_intercalate {sep : α} (hsep : p sep) {ws : List (List α)}
    (h : ∀ w ∈ ws, Word p w) : split p ([sep].intercalate ws) = ws := by
  induction ws with
  | nil => rfl
  | cons w ws ih =>
    have hw := h w List.mem_cons_self
    have ih := ih fun v hv => h v (List.mem_cons_of_mem _ hv)
    cases ws with
    | nil => simpa using split_word hw
    | cons v vs =>
      rw [List.intercalate_cons_cons, List.append_assoc, List.singleton_append,
        split_word_append hw _ hsep, ih]

theorem intercalate_inj {sep : α} (hsep : p sep) {ws vs : List (List α)}
    (hw : ∀ w ∈ ws, Word p w) (hv : ∀ v ∈ vs, Word p v)
    (e : [sep].intercalate ws = [sep].intercalate vs) : ws = vs := by
  rw [← split_intercalate hsep hw, e, split_intercalate hsep hv]

theorem splitOnP_intercalate {sep : α} (hsep : p sep) {ws : List (List α)} (hne : ws ≠ [])
    (h : ∀ w ∈ ws, ∀ c ∈ w, p c = false) : ([sep].intercalate ws).splitOnP p = ws := by
  induction ws with
  | nil => exact absurd rfl hne
  | cons w ws ih =>
    have hw := h w List.mem_cons_self
    cases ws with
    | nil => rw [List.intercalate_singleton, List.splitOnP_eq_singleton hw]
    | cons v vs =>
      rw [List.intercalate_cons_cons, List.append_assoc, List.singleton_append,
        List.splitOnP_append_cons_of_forall_mem hw sep hsep,
        ih (by simp) fun v hv => h v (List.mem_cons_of_mem _ hv)]

theorem Stops.append {a b : List α} (ha : Stops p a) (hb : Stops p b) : Stops p (a ++ b) := by
  cases a with
  | nil => exact hb
  | cons c a =>
    rintro d ⟨⟩
    exact ha c rfl

theorem Starts.append {a b : List α} (ha : Starts p a) (hb : Starts p b) : Starts p (a ++ b) := by
  rcases List.eq_nil_or_concat b with rfl | ⟨b, c, rfl⟩
  · rwa [List.append_nil]
  · intro d hd
    exact hb d (by simpa using hd)

theorem intercalate_cons_eq {sep : α} (hsep : p sep) (w : List α) (ws : List (List α)) :
    ∃ q, Stops p q ∧ [sep].intercalate (w :: ws) = w ++ q := by
  cases ws with
  | nil => exact ⟨[], by rintro c ⟨⟩, by simp⟩
  | cons v vs =>
    refine ⟨sep :: [sep].intercalate (v :: vs), ?_, by simp [List.intercalate_cons_cons]⟩
    rintro c ⟨⟩
    exact hsep

theorem intercalate_concat_eq {sep : α} (hsep : p sep) (ws : List (List α)) (v : List α) :
    ∃ x, Starts p x ∧ [sep].intercalate (ws ++ [v]) = x ++ v := by
  induction ws with
  | nil => exact ⟨[], by rintro c ⟨⟩, by simp⟩
  | cons w ws ih =>
    obtain ⟨x, hx, e⟩ := ih
    obtain ⟨u, us, hu⟩ := List.exists_cons_of_ne_nil (show ws ++ [v] ≠ [] by simp)
    refine ⟨w ++ [sep] ++ x, Starts.append ?_ hx, ?_⟩
    · intro c hc
      obtain rfl : sep = c := by simpa using hc
      exact hsep
    · rw [List.cons_append, hu, List.intercalate_cons_cons, ← hu, e]
      simp only [List.append_assoc]

theorem map_intercalate (f : α → β) (sep : α) (ws : List (List α)) :
    ([sep].intercalate ws).map f = [f sep].intercalate (ws.map (List.map f)) := by
  induction ws with
  | nil => rfl
  | cons w ws ih =>
    cases ws with
    | nil => simp
    | cons v vs =>
      rw [List.intercalate_cons_cons, List.map_append, List.map_append, ih]
      simp [List.intercalate_cons_cons]

theorem forall_mem_intercalate {P : α → Prop} {sep : List α} (hsep : ∀ c ∈ sep, P c)
    (ws : List (List α)) : (∀ c ∈ sep.intercalate ws, P c) ↔ ∀ w ∈ ws, ∀ c ∈ w, P c := by
  induction ws with
  | nil => simp
  | cons w ws ih =>
    cases ws with
    | nil => simp
    | cons v vs =>
      rw [List.intercalate_cons_cons, List.forall_mem_cons, ← ih, List.append_assoc,
        List.forall_mem_append, List.forall_mem_append]
      exact ⟨fun h => ⟨h.1, h.2.2⟩, fun h => ⟨h.1, hsep, h.2⟩⟩

theorem intercalate_start (sep : List α) {ws : List (List α)} (hne : ws ≠ [])
    (h : ∀ w ∈ ws, Word p w) : ∃ c t, p c = false ∧ sep.intercalate ws = c :: t := by
  obtain ⟨w, vs, rfl⟩ := List.exists_cons_of_ne_nil hne
  have hw := h w List.mem_cons_self
  obtain ⟨c, w', rfl⟩ := List.exists_cons_of_ne_nil hw.1
  refine ⟨c, ?_⟩
  cases vs with
  | nil => exact ⟨w', hw.2 c List.mem_cons_self, by simp⟩
  | cons v vs =>
    refine ⟨w' ++ sep ++ sep.intercalate (v :: vs), hw.2 c List.mem_cons_self, ?_⟩
    rw [List.intercalate_cons_cons]
    simp only [List.cons_append]

theorem intercalate_end (sep : List α) {ws : List (List α)} (hne : ws ≠ [])
    (h : ∀ w ∈ ws, Word p w) : ∃ d r, p d = false ∧ sep.intercalate ws = r ++ [d] := by
  induction ws with
  | nil => exact absurd rfl hne
  | cons w ws ih =>
    cases ws with
    | nil =>
      have hw := h w List.mem_cons_self
      refine ⟨w.getLast hw.1, w.dropLast, hw.2 _ (List.getLast_mem hw.1), ?_⟩
      rw [List.intercalate_singleton, List.dropLast_append_getLast]
    | cons v vs =>
      obtain ⟨d, r, hd, hr⟩ := ih (by simp) fun u hu => h u (List.mem_cons_of_mem _ hu)
      exact ⟨d, w ++ sep ++ r, hd, by rw [List.intercalate_cons_cons, hr]; simp⟩

/-! ## The first place of a pattern -/

/-- The list up to the end of the pattern's first place, and what follows. The pattern is
compared with the images of the elements. -/
def cutAfter [BEq β] (f : α → β) (pat : List β) : List α → Option (List α × List α)
  | [] => none
  | c :: l => if pat.isPrefixOf ((c :: l).map f) then
      some ((c :: l).take pat.length, (c :: l).drop pat.length)
    else (cutAfter f pat l).map fun ab => (c :: ab.1, ab.2)

theorem cutAfter_append [BEq β] {f : α → β} {pat : List β} {l a b : List α}
    (h : cutAfter f pat l = some (a, b)) : l = a ++ b := by
  induction l generalizing a with
  | nil => cases h
  | cons c l ih =>
    unfold cutAfter at h
    split at h
    · cases h
      exact (List.take_append_drop ..).symm
    · obtain ⟨⟨a', b'⟩, h', e⟩ := Option.map_eq_some_iff.1 h
      cases e
      rw [ih h', List.cons_append]

theorem suffix_of_cutAfter [BEq β] [LawfulBEq β] {f : α → β} {pat : List β} {l a b : List α}
    (h : cutAfter f pat l = some (a, b)) : pat <:+ a.map f := by
  induction l generalizing a with
  | nil => cases h
  | cons c l ih =>
    unfold cutAfter at h
    split at h
    · rename_i hp
      cases h
      have hp := List.prefix_iff_eq_take.1 (List.isPrefixOf_iff_prefix.1 hp)
      exact ⟨[], by rw [List.map_take, ← hp, List.nil_append]⟩
    · obtain ⟨⟨a', b'⟩, h', e⟩ := Option.map_eq_some_iff.1 h
      cases e
      exact (ih h').trans (List.suffix_cons ..)

theorem cutAfter_map {γ : Type} [BEq β] (g : γ → α) (f : α → β) (pat : List β) (l : List γ) :
    cutAfter f pat (l.map g) =
      (cutAfter (f ∘ g) pat l).map fun ab => (ab.1.map g, ab.2.map g) := by
  induction l with
  | nil => rfl
  | cons c l ih =>
    rw [List.map_cons, cutAfter, cutAfter, ← List.map_cons, List.map_map]
    split
    · rw [← List.map_take, ← List.map_drop]
      rfl
    · rw [ih, Option.map_map, Option.map_map]
      rfl

section
variable [BEq β] [LawfulBEq β] {f : α → β} {q : β → Bool} {w : List β} {s : β}

omit [BEq β] [LawfulBEq β] in
theorem prefix_append_cons_iff {a b : List β} {d : β} (hw : ∀ e ∈ w, q e = false) (hd : q d) :
    w ++ [s] <+: a ++ d :: b ↔ w ++ [s] <+: a ++ [d] := by
  induction w generalizing a with
  | nil => cases a <;> simp [List.cons_prefix_cons]
  | cons e w ih =>
    have he : e ≠ d := fun h => by simp [← h, hw e List.mem_cons_self] at hd
    cases a with
    | nil => simp [List.cons_prefix_cons, he]
    | cons a as =>
      simp only [List.cons_append, List.cons_prefix_cons]
      rw [ih fun e he => hw e (List.mem_cons_of_mem _ he)]

/-- What is found up to a separator is found without what follows, and what is not found up to
it is found after it. -/
theorem cutAfter_append_cons (hw : Word q w) (x y : List α) {c : α} (hc : q (f c)) :
    cutAfter f (w ++ [s]) (x ++ c :: y) =
      match cutAfter f (w ++ [s]) (x ++ [c]) with
      | some ab => some (ab.1, ab.2 ++ y)
      | none => (cutAfter f (w ++ [s]) y).map fun ab => (x ++ c :: ab.1, ab.2) := by
  have hpre : ∀ x : List α, (w ++ [s]).isPrefixOf ((x ++ c :: y).map f) =
      (w ++ [s]).isPrefixOf ((x ++ [c]).map f) := by
    intro x
    rw [Bool.eq_iff_iff, List.isPrefixOf_iff_prefix, List.isPrefixOf_iff_prefix]
    simpa using prefix_append_cons_iff (s := s) (a := x.map f) (b := y.map f) hw.2 hc
  induction x with
  | nil =>
    have hno : ¬(w ++ [s]).isPrefixOf ([c].map f) := by
      obtain ⟨e, w', rfl⟩ := List.exists_cons_of_ne_nil hw.1
      simp [List.isPrefixOf]
    have hno' : ¬(w ++ [s]).isPrefixOf ((c :: y).map f) := (hpre []) ▸ hno
    simp only [List.nil_append]
    rw [cutAfter, cutAfter, if_neg hno, if_neg hno', cutAfter]
    rfl
  | cons d x ih =>
    have hd := hpre (d :: x)
    simp only [List.cons_append] at hd ⊢
    rw [cutAfter, cutAfter, hd]
    split
    · rename_i hp
      have hlen := (List.isPrefixOf_iff_prefix.1 hp).length_le
      rw [List.length_map] at hlen
      rw [show d :: (x ++ c :: y) = d :: (x ++ [c]) ++ y by simp,
        List.take_append_of_le_length hlen, List.drop_append_of_le_length hlen]
    · rw [ih]
      cases cutAfter f (w ++ [s]) (x ++ [c]) with
      | some ab => rfl
      | none => simp [Function.comp_def]

theorem cutAfter_append_none (hw : Word q w) {x : List α} {c : α} (hc : q (f c))
    (h : cutAfter f (w ++ [s]) (x ++ [c]) = none) (y : List α) :
    cutAfter f (w ++ [s]) (x ++ c :: y) =
      (cutAfter f (w ++ [s]) y).map fun ab => (x ++ c :: ab.1, ab.2) := by
  rw [cutAfter_append_cons hw x y hc, h]

omit [BEq β] [LawfulBEq β] in
theorem eq_of_prefix_word {a : List β} {d : β} (hs : q s) (ha : ∀ e ∈ a, q e = false)
    (h : w ++ [s] <+: a ++ [d]) : w ++ [s] = a ++ [d] := by
  obtain ⟨t, ht⟩ := h
  rcases List.eq_nil_or_concat t with rfl | ⟨t, e, rfl⟩
  · simpa using ht
  · have hmem : s ∈ a := by
      have : w ++ [s] ++ t = a := by
        rw [List.concat_eq_append, ← List.append_assoc] at ht
        exact List.append_inj_left' ht rfl
      simp [← this]
    simp [ha s hmem] at hs

theorem isSuffixOf_concat (w x : List β) (s : β) :
    (w ++ [s]).isSuffixOf (x ++ [s]) = w.isSuffixOf x := by
  rw [Bool.eq_iff_iff, List.isSuffixOf_iff_suffix, List.isSuffixOf_iff_suffix,
    List.suffix_append_self_iff]

/-- After a single word, the pattern is found exactly at its end. -/
theorem cutAfter_word (hw : w ≠ []) (hs : q s) {x : List α} (hx : ∀ e ∈ x, q (f e) = false)
    (c : α) :
    cutAfter f (w ++ [s]) (x ++ [c]) =
      if (w ++ [s]).isSuffixOf ((x ++ [c]).map f) then some (x ++ [c], []) else none := by
  induction x with
  | nil =>
    obtain ⟨e, w', rfl⟩ := List.exists_cons_of_ne_nil hw
    have hsuf : ¬((e :: w') ++ [s]).isSuffixOf ([c].map f) := by
      rw [List.isSuffixOf_iff_suffix]
      exact fun h => by simpa using h.length_le
    rw [List.nil_append, if_neg hsuf, cutAfter, if_neg (by simp [List.isPrefixOf])]
    rfl
  | cons d x ih =>
    have ih := ih fun e he => hx e (List.mem_cons_of_mem _ he)
    rw [List.cons_append, cutAfter]
    by_cases hp : w ++ [s] <+: (d :: (x ++ [c])).map f
    · have he : w ++ [s] = (d :: (x ++ [c])).map f := by
        have ha : ∀ e ∈ (d :: x).map f, q e = false := by simpa using hx
        simpa using eq_of_prefix_word hs ha (by simpa using hp)
      have hlen := congrArg List.length he
      rw [List.length_map] at hlen
      rw [if_pos (List.isPrefixOf_iff_prefix.2 hp), hlen, List.take_length, List.drop_length,
        if_pos]
      exact List.isSuffixOf_iff_suffix.2 ⟨[], he⟩
    · have hsuf : (w ++ [s]).isSuffixOf ((d :: (x ++ [c])).map f) =
          (w ++ [s]).isSuffixOf ((x ++ [c]).map f) := by
        rw [Bool.eq_iff_iff, List.isSuffixOf_iff_suffix, List.isSuffixOf_iff_suffix, List.map_cons,
          List.suffix_cons_iff, or_iff_right]
        intro he
        exact hp ⟨[], by rw [List.append_nil, he, List.map_cons]⟩
      rw [if_neg (by rwa [List.isPrefixOf_iff_prefix]), ih, hsuf]
      split <;> rfl

omit [BEq β] [LawfulBEq β] in
theorem not_suffix_of_free {a : List β} (hs : q s) (ha : ∀ e ∈ a, q e = false) :
    ¬w ++ [s] <:+ a := by
  intro h
  have := ha s (h.subset (by simp))
  simp [this] at hs

theorem cutAfter_free (hs : q s) {x : List α} (hx : ∀ e ∈ x, q (f e) = false) :
    cutAfter f (w ++ [s]) x = none := by
  refine Option.eq_none_iff_forall_ne_some.2 fun ⟨a, b⟩ h => ?_
  refine not_suffix_of_free hs (a := a.map f) ?_ (suffix_of_cutAfter h)
  have := cutAfter_append h
  subst this
  simpa using fun e he => hx e (List.mem_append_left _ he)

theorem exists_cutAfter_of_suffix {l : List α} (h : w ++ [s] <:+ l.map f) :
    ∃ ab, cutAfter f (w ++ [s]) l = some ab := by
  induction l with
  | nil => simp at h
  | cons c l ih =>
    rw [cutAfter]
    split
    · exact ⟨_, rfl⟩
    · rename_i hp
      rw [List.map_cons, List.suffix_cons_iff] at h
      rcases h with e | h
      · refine absurd (List.isPrefixOf_iff_prefix.2 ⟨[], ?_⟩) hp
        rw [List.append_nil, e, List.map_cons]
      · obtain ⟨ab, hab⟩ := ih h
        exact ⟨(c :: ab.1, ab.2), by rw [hab]; rfl⟩

omit [BEq β] [LawfulBEq β] in
theorem concat_of_suffix {a : List α} (h : w ++ [s] <:+ a.map f) :
    ∃ x c, a = x ++ [c] ∧ f c = s := by
  obtain ⟨t, ht⟩ := h
  rcases List.eq_nil_or_concat a with rfl | ⟨x, c, rfl⟩
  · simp at ht
  · rw [List.concat_eq_append, List.map_append, ← List.append_assoc] at ht
    exact ⟨x, c, by simp, by simpa using (List.append_inj_right' ht rfl).symm⟩

/-- Only what stands before the end of the first place matters. -/
theorem cutAfter_extend (hw : Word q w) (hs : q s) {l a b : List α}
    (h : cutAfter f (w ++ [s]) l = some (a, b)) (y : List α) :
    cutAfter f (w ++ [s]) (a ++ y) = some (a, y) := by
  obtain ⟨x, c, rfl, hc⟩ := concat_of_suffix (suffix_of_cutAfter h)
  have hl := cutAfter_append h
  subst hl
  rw [List.append_assoc, List.singleton_append] at h ⊢
  rw [cutAfter_append_cons hw x _ (hc ▸ hs)] at h ⊢
  cases hx : cutAfter f (w ++ [s]) (x ++ [c]) with
  | none =>
    simp only [hx] at h
    obtain ⟨⟨a, b'⟩, hb, e⟩ := Option.map_eq_some_iff.1 h
    obtain rfl : a = [] := by simpa using congrArg Prod.fst e
    exact absurd (suffix_of_cutAfter hb) (by simp)
  | some ab =>
    simp only [hx, Option.some.injEq, Prod.mk.injEq] at h ⊢
    obtain ⟨h₁, h₂⟩ := h
    refine ⟨h₁, ?_⟩
    have : ab.2 = [] := by simpa using h₂
    rw [this, List.nil_append]

omit [BEq β] [LawfulBEq β] in
/-- Two places of the pattern do not overlap. -/
theorem suffix_of_suffix_append (hw : ∀ e ∈ w, q e = false) (hs : q s) {a b : List β}
    (ha : [s] <:+ a) (hb : b ≠ []) (h : w ++ [s] <:+ a ++ b) : w ++ [s] <:+ b := by
  obtain ⟨a, rfl⟩ := ha
  obtain ⟨t, ht⟩ := h
  rcases List.eq_nil_or_concat b with rfl | ⟨b, e, rfl⟩
  · exact absurd rfl hb
  rw [List.concat_eq_append, ← List.append_assoc, ← List.append_assoc] at ht
  obtain ⟨htw, he⟩ := List.append_inj' ht rfl
  obtain rfl : s = e := by simpa using he
  rw [List.concat_eq_append, List.suffix_append_self_iff]
  rcases List.append_eq_append_iff.1 htw with ⟨u, hu, rfl⟩ | ⟨u, -, rfl⟩
  · rcases List.eq_nil_or_concat u with rfl | ⟨u, d, rfl⟩
    · exact List.suffix_rfl
    · -- then the separator would stand inside the word
      obtain rfl : s = d := by
        rw [List.concat_eq_append, ← List.append_assoc] at hu
        simpa using List.append_inj_right' hu rfl
      have hd : q s = false := hw s (by simp)
      simp [hd] at hs
  · exact List.suffix_append ..

end

end Words
