import SatsPay.Redaction

/-!
# Secrets of a line

Where a secret of a line goes: covered by the first pass, replaced by the second one, or left
in the text.
-/

namespace SatsPay

open Letter

variable {α : Type} [Letter α]

theorem endsToken_of_isWhitespace {c : Char} (h : isWhitespace c) : endsToken c := by
  simp [endsToken, h]

theorem bearer_word : Words.Word isWhitespace "Bearer".toList :=
  ⟨by decide +kernel, List.all_iff_forall_prop.1 (by decide +kernel)⟩

theorem isWhitespace_space : isWhitespace ' ' := by decide

/-- A text up to a `Bearer ` ends with its blank. -/
theorem concat_of_suffix {a : List α} (h : bearer <:+ chars a) :
    ∃ x c, a = x ++ [c] ∧ chr c = ' ' :=
  Words.concat_of_suffix (w := "Bearer".toList) h

/-! The first place of `Bearer ` -/

theorem cut_append_none {x : List α} {c : α} (hc : isWhitespace (chr c))
    (h : Words.cutAfter chr bearer (x ++ [c]) = none) (y : List α) :
    Words.cutAfter chr bearer (x ++ c :: y) =
      (Words.cutAfter chr bearer y).map fun ab => (x ++ c :: ab.1, ab.2) :=
  Words.cutAfter_append_none bearer_word hc h y

theorem cut_extend {s a b : List α} (h : Words.cutAfter chr bearer s = some (a, b)) (y : List α) :
    Words.cutAfter chr bearer (a ++ y) = some (a, y) :=
  Words.cutAfter_extend bearer_word isWhitespace_space h y

theorem cut_free {s : List α} (h : ∀ c ∈ s, isWhitespace (chr c) = false) :
    Words.cutAfter chr bearer s = none :=
  Words.cutAfter_free (s := ' ') isWhitespace_space h

theorem cut_word {s : List α} (h : ∀ c ∈ s, isWhitespace (chr c) = false) (c : α) :
    Words.cutAfter chr bearer (s ++ [c]) =
      if bearer.isSuffixOf (chars (s ++ [c])) then some (s ++ [c], []) else none :=
  Words.cutAfter_word bearer_word.1 isWhitespace_space h c

theorem exists_cut_of_suffix {s : List α} (h : bearer <:+ chars s) :
    ∃ a b, Words.cutAfter chr bearer s = some (a, b) := by
  obtain ⟨⟨a, b⟩, hab⟩ := Words.exists_cutAfter_of_suffix (w := "Bearer".toList) (s := ' ') h
  exact ⟨a, b, hab⟩

theorem coverToken_append_cons (x y : List α) {c : α} (hc : isWhitespace (chr c))
    (h : Words.cutAfter chr bearer (x ++ [c]) = none) :
    coverToken (x ++ c :: y) = x ++ c :: coverToken y := by
  unfold coverToken
  rw [cut_append_none hc h]
  cases Words.cutAfter chr bearer y with
  | none => rfl
  | some ab => simp only [Option.map_some, List.append_assoc, List.cons_append]

theorem coverToken_first {s a b : List α} (h : Words.cutAfter chr bearer s = some (a, b))
    (y : List α) : coverToken (a ++ y) = a ++ text α "[REDACTED]" ++ dropToken y := by
  unfold coverToken
  rw [cut_extend h]

theorem dropToken_append_cons (x : List α) {c : α} (hc : endsToken (chr c)) :
    ∃ r ⊆ x, ∀ y, dropToken (x ++ c :: y) = r ++ c :: y := by
  induction x with
  | nil => exact ⟨[], List.nil_subset _, fun y => List.dropWhile_cons_of_neg (by simp [hc])⟩
  | cons d x ih =>
    by_cases hd : endsToken (chr d)
    · exact ⟨d :: x, List.Subset.refl _, fun y => List.dropWhile_cons_of_neg (by simp [hd])⟩
    · obtain ⟨r, hr, h⟩ := ih
      refine ⟨r, List.subset_cons_of_subset _ hr, fun y => ?_⟩
      rw [← h y]
      exact List.dropWhile_cons_of_pos (by simp [hd])

/-- What follows a token that is covered is left as it stands. -/
theorem coverToken_later {s a b : List α} {c : α}
    (h : Words.cutAfter chr bearer s = some (a, b ++ [c])) (hc : isWhitespace (chr c)) :
    ∃ r, (∀ e ∈ r, e ∈ a ++ b ∨ e ∈ text α "[REDACTED]") ∧
      ∀ y, coverToken (a ++ (b ++ c :: y)) = r ++ c :: y := by
  obtain ⟨r, hr, hdrop⟩ := dropToken_append_cons b (endsToken_of_isWhitespace hc)
  refine ⟨a ++ text α "[REDACTED]" ++ r, ?_, fun y => ?_⟩
  · simp only [List.mem_append]
    rintro e ((he | he) | he)
    · exact .inl (.inl he)
    · exact .inr he
    · exact .inl (.inr (hr he))
  · rw [coverToken_first h, hdrop y, List.append_assoc (a ++ _)]

theorem mem_coverToken {s : List α} {e : α} (h : e ∈ coverToken s) :
    e ∈ s ∨ e ∈ text α "[REDACTED]" := by
  unfold coverToken at h
  split at h
  · exact .inl h
  · rename_i a b hab
    rw [Words.cutAfter_append hab]
    simp only [List.mem_append] at h ⊢
    rcases h with (h | h) | h
    · exact .inl (.inl h)
    · exact .inr h
    · exact .inl (.inr ((List.dropWhile_suffix _).subset h))

/-! ## Marks -/

abbrev MarkedChar := Char × Bool

def unmarked (s : List Char) : List MarkedChar := s.map (·, false)

def marked (p t q : List Char) : List MarkedChar := unmarked p ++ (t.map (·, true) ++ unmarked q)

def Unmarked (s : List MarkedChar) : Prop := ∀ c ∈ s, c.2 = false

theorem unmarked_unmarked (s : List Char) : Unmarked (unmarked s) := by
  simp [Unmarked, unmarked]

theorem unmarked_text (s : String) : Unmarked (text MarkedChar s) := by
  rintro c hc
  obtain ⟨d, -, rfl⟩ := List.mem_map.1 hc
  rfl

theorem Unmarked.coverToken {s : List MarkedChar} (h : Unmarked s) : Unmarked (coverToken s) :=
  fun c hc => (mem_coverToken hc).elim (h c) (unmarked_text _ c)

theorem cutAfter_unmarked (s : List Char) : Words.cutAfter chr bearer (unmarked s) =
    (Words.cutAfter chr bearer s).map fun ab => (unmarked ab.1, unmarked ab.2) :=
  Words.cutAfter_map ..

def LineClean (s : List MarkedChar) : Prop := Unmarked (redactedLine s)

theorem lineClean_iff {s : List MarkedChar} : LineClean s ↔
    ∀ w ∈ splitWhitespace (coverToken s), secretWord (chars w) = none → Unmarked w := by
  have hsep : ∀ c ∈ [(lit ' ' : MarkedChar)], c.2 = false := by simp [lit]
  rw [LineClean, Unmarked, redactedLine, Words.forall_mem_intercalate hsep, redactedWords,
    List.forall_mem_map]
  refine forall₂_congr fun w hw => ?_
  unfold redactWord
  cases h : secretWord (chars w) with
  | none => exact ⟨fun h _ => h, fun h => h rfl⟩
  | some new => exact iff_of_true (unmarked_text new) fun h => absurd h (Option.some_ne_none _)

theorem lineClean_of_unmarked {s : List MarkedChar} (h : Unmarked (coverToken s)) : LineClean s :=
  lineClean_iff.2 fun _ hw _ c hc => h c (Words.subset_of_mem_split hw hc)

/-! ## Where a secret goes -/

def wordOf (s : List α) : List α := s.takeWhile fun c => !isWhitespace (chr c)

def afterWord (s : List α) : List α := s.dropWhile fun c => !isWhitespace (chr c)

theorem wordOf_append_afterWord (s : List α) : wordOf s ++ afterWord s = s :=
  List.takeWhile_append_dropWhile ..

theorem stops_afterWord (s : List α) :
    Words.Stops (fun c => isWhitespace (chr c)) (afterWord s) := by
  intro c hc
  have := List.head?_dropWhile_not (fun c : α => !isWhitespace (chr c)) s
  rw [show List.dropWhile _ s = afterWord s from rfl, Option.mem_def.1 hc] at this
  simpa using this

theorem splitWhitespace_append_cons (a b : List α) {c : α} (hc : isWhitespace (chr c)) :
    splitWhitespace (a ++ c :: b) = splitWhitespace a ++ splitWhitespace b :=
  Words.split_append_cons a b hc

theorem splitWhitespace_word_append {w b : List α} (hw : IsWord w)
    (hb : Words.Stops (fun c => isWhitespace (chr c)) b) :
    splitWhitespace (w ++ b) = w :: splitWhitespace b := by
  unfold splitWhitespace
  rw [Words.split_append_stops hb, Words.split_word hw, List.singleton_append]

theorem tokenOf_append {t q : List α} (ht : ∀ c ∈ t, endsToken (chr c) = false)
    (hq : Words.Stops (fun c => endsToken (chr c)) q) : tokenOf (t ++ q) = t := by
  unfold tokenOf
  rw [List.takeWhile_append_of_pos (by simpa using ht)]
  cases q with
  | nil => simp
  | cons c q => rw [List.takeWhile_cons_of_neg (by simpa using hq c rfl), List.append_nil]

theorem dropToken_append {t q : List α} (ht : ∀ c ∈ t, endsToken (chr c) = false)
    (hq : Words.Stops (fun c => endsToken (chr c)) q) : dropToken (t ++ q) = q := by
  unfold dropToken
  rw [List.dropWhile_append_of_pos (by simpa using ht)]
  cases q with
  | nil => rfl
  | cons c q => exact List.dropWhile_cons_of_neg (by simpa using hq c rfl)

theorem isWhitespace_of_mem_wordOf {s : List α} {c : α} (hc : c ∈ wordOf s) :
    isWhitespace (chr c) = false := by simpa using List.mem_takeWhile_imp hc

@[simp] theorem chars_unmarked (s : List Char) : chars (unmarked s) = s := by
  simp [chars, unmarked, chr, Function.comp_def]

theorem unmarked_append (a b : List Char) : unmarked (a ++ b) = unmarked a ++ unmarked b :=
  List.map_append

theorem chars_marks (t : List Char) : chars (t.map fun c => ((c, true) : MarkedChar)) = t := by
  simp [chars, chr, Function.comp_def]

theorem Unmarked.append {a b : List MarkedChar} (ha : Unmarked a) (hb : Unmarked b) :
    Unmarked (a ++ b) := List.forall_mem_append.2 ⟨ha, hb⟩

theorem stops_unmarked {p : Char → Bool} {q : List Char} (hq : Words.Stops p q) :
    Words.Stops (fun c : MarkedChar => p (chr c)) (unmarked q) := by
  cases q with
  | nil => rintro c ⟨⟩
  | cons c q =>
    rintro d ⟨⟩
    exact hq c rfl

theorem not_unmarked_marks {t : List Char} (ht : t ≠ []) (u : List MarkedChar) :
    ¬Unmarked (t.map (·, true) ++ u) := by
  obtain ⟨c, t, rfl⟩ := List.exists_cons_of_ne_nil ht
  exact fun h => Bool.noConfusion (h (c, true) (by simp))

theorem cut_unmarked {p a b : List Char} (hp : Words.cutAfter chr bearer p = some (a, b)) :
    Words.cutAfter chr bearer (unmarked p) = some (unmarked a, unmarked b) := by
  rw [cutAfter_unmarked, hp]
  rfl

/-- The first token is covered. -/
theorem lineClean_first {p t q : List Char} (hp : Words.cutAfter chr bearer p = some (p, []))
    (ht : ∀ c ∈ t, endsToken c = false) (hq : Words.Stops endsToken q) :
    LineClean (marked p t q) := by
  refine lineClean_of_unmarked ?_
  rw [marked, coverToken_first (cut_unmarked hp), dropToken_append (by simpa [chr] using ht)
    (stops_unmarked hq)]
  exact ((unmarked_unmarked p).append (unmarked_text _)).append (unmarked_unmarked q)

theorem marked_later {p a b : List Char} (hp : Words.cutAfter chr bearer p = some (a, b))
    (hb : b ≠ []) (hlast : Words.Starts isWhitespace p) :
    ∃ r c, Unmarked r ∧ isWhitespace (chr c) ∧ Unmarked [c] ∧
      ∀ t q, coverToken (marked p t q) = r ++ c :: (t.map (·, true) ++ unmarked q) := by
  obtain rfl := Words.cutAfter_append hp
  rcases List.eq_nil_or_concat b with rfl | ⟨b, c, rfl⟩
  · exact absurd rfl hb
  have hc : isWhitespace c := hlast c (by simp)
  have hcut : Words.cutAfter chr bearer (unmarked (a ++ b.concat c)) =
      some (unmarked a, unmarked b ++ [(c, false)]) := by
    simpa [unmarked] using cut_unmarked hp
  obtain ⟨r, hr, h⟩ := coverToken_later hcut (c := (c, false)) hc
  refine ⟨r, (c, false), fun e he => ?_, hc, by simp [Unmarked], fun t q => ?_⟩
  · refine (hr e he).elim (fun he => ?_) (unmarked_text _ e)
    exact (unmarked_unmarked a).append (unmarked_unmarked b) e he
  · rw [← h, marked]
    simp [unmarked]

/-- A later token is left, unless it begins a word that is a secret itself. -/
theorem lineClean_later_iff {p t q a b : List Char}
    (hp : Words.cutAfter chr bearer p = some (a, b)) (hb : b ≠ [])
    (hlast : Words.Starts isWhitespace p) (hne : t ≠ []) (ht : ∀ c ∈ t, isWhitespace c = false) :
    LineClean (marked p t q) ↔ (secretWord (t ++ wordOf q)).isSome := by
  obtain ⟨r, c, hr, hc, -, h⟩ := marked_later hp hb hlast
  have hword : IsWord (t.map (·, true) ++ unmarked (wordOf q)) := by
    refine ⟨by simpa using fun h => absurd h hne, fun d hd => ?_⟩
    rcases List.mem_append.1 hd with hd | hd
    · obtain ⟨e, he, rfl⟩ := List.mem_map.1 hd
      exact ht e he
    · obtain ⟨e, he, rfl⟩ := List.mem_map.1 hd
      exact isWhitespace_of_mem_wordOf (s := q) he
  have hsplit : splitWhitespace (coverToken (marked p t q)) = splitWhitespace r ++
      (t.map (·, true) ++ unmarked (wordOf q)) :: splitWhitespace (unmarked (afterWord q)) := by
    rw [h, splitWhitespace_append_cons _ _ hc, ← splitWhitespace_word_append hword
      (stops_unmarked (stops_afterWord q)), List.append_assoc, ← unmarked_append,
      wordOf_append_afterWord]
  have hrest : ∀ w ∈ splitWhitespace (unmarked (afterWord q)), Unmarked w := fun w hw c hc =>
    unmarked_unmarked _ c (Words.subset_of_mem_split hw hc)
  have hbefore : ∀ w ∈ splitWhitespace r, Unmarked w := fun w hw c hc =>
    hr c (Words.subset_of_mem_split hw hc)
  rw [lineClean_iff, hsplit, List.forall_mem_append, List.forall_mem_cons, chars_append,
    chars_marks, chars_unmarked, Option.isSome_iff_ne_none]
  constructor
  · rintro ⟨-, hmid, -⟩ hnone
    exact not_unmarked_marks hne _ (hmid hnone)
  · intro hsome
    exact ⟨fun w hw _ => hbefore w hw, fun hnone => absurd hnone hsome, fun w hw _ => hrest w hw⟩

theorem unmarked_of_mem_split {s w : List MarkedChar} (h : Unmarked s)
    (hw : w ∈ splitWhitespace s) : Unmarked w := fun c hc => h c (Words.subset_of_mem_split hw hc)

theorem stops_endsToken {q : List Char} (hq : Words.Stops isWhitespace q) :
    Words.Stops endsToken q := fun c hc => endsToken_of_isWhitespace (hq c hc)

theorem isWord_covered {r : List α} (hr : ∀ c ∈ r, isWhitespace (chr c) = false) :
    IsWord (text α "[REDACTED]" ++ r) := by
  have h := (isWord_text_iff (α := α) "[REDACTED]").2
    ⟨by decide +kernel, List.all_iff_forall_prop.1 (by decide +kernel)⟩
  exact ⟨by simp [h.1], List.forall_mem_append.2 ⟨h.2, hr⟩⟩

theorem secretWord_bracket (l : List Char) : secretWord ('[' :: l) = none := by
  have hpre : ∀ s : String, s.toList.head? ≠ some '[' → s ≠ "" →
      ¬s.toList.isPrefixOf ('[' :: l) := by
    intro s hs hne
    cases h : s.toList with
    | nil => simp_all
    | cons c t => simp_all [List.isPrefixOf]
  have hhex : ¬(('[' :: l).all fun c => (fromHexDigit c).isSome) := by
    simp [show fromHexDigit '[' = none by decide]
  unfold secretWord
  rw [if_neg fun h => hpre "eyJ" (by decide) (by decide) h.1, if_neg, if_neg fun h => hhex h.2]
  rintro ⟨h | h | h, -⟩
  · exact hpre "sk_" (by decide) (by decide) h
  · exact hpre "pk_" (by decide) (by decide) h
  · exact hpre "ak_" (by decide) (by decide) h

theorem secretWord_covered (r : List α) : secretWord (chars (text α "[REDACTED]" ++ r)) = none := by
  rw [chars_append, show chars (text α "[REDACTED]") = "[REDACTED]".toList by
    simp [chars, text]]
  exact secretWord_bracket _

/-- A secret word that follows the first `Bearer ` is covered up to a quote. -/
theorem lineClean_split_iff {p t q : List Char} (hp : Words.cutAfter chr bearer p = some (p, []))
    (ht : IsWord t) (hq : Words.Stops isWhitespace q) :
    LineClean (marked p t q) ↔ ∀ c ∈ t, endsToken c = false := by
  refine ⟨fun hclean c hc => ?_, fun h => lineClean_first hp h (stops_endsToken hq)⟩
  by_contra hend
  -- the word is cut at the quote, and what follows it stands after the placeholder
  obtain ⟨x, y, rfl⟩ := List.append_of_mem hc
  obtain ⟨r, hr, hdrop⟩ := dropToken_append_cons (x.map fun c => ((c, true) : MarkedChar))
    (c := (c, true)) (by simpa [chr] using hend)
  obtain ⟨p, d, rfl, hd⟩ := concat_of_suffix (α := Char) (by
    simpa [chars] using Words.suffix_of_cutAfter hp)
  have hnot : ∀ e ∈ r ++ (c, true) :: y.map (·, true), isWhitespace (chr e) = false := by
    intro e he
    have hmem : e ∈ (x ++ c :: y).map fun c => ((c, true) : MarkedChar) := by
      rw [List.map_append, List.map_cons]
      rcases List.mem_append.1 he with he | he
      · exact List.mem_append_left _ (hr he)
      · exact List.mem_append_right _ he
    obtain ⟨d, hd, rfl⟩ := List.mem_map.1 hmem
    exact ht.2 d hd
  have hsplit : splitWhitespace (coverToken (marked (p ++ [d]) (x ++ c :: y) q)) =
      splitWhitespace (unmarked p) ++
        (text MarkedChar "[REDACTED]" ++ (r ++ (c, true) :: y.map (·, true))) ::
          splitWhitespace (unmarked q) := by
    have hcover : coverToken (marked (p ++ [d]) (x ++ c :: y) q) = unmarked p ++
        (d, false) :: (text MarkedChar "[REDACTED]" ++ (r ++ (c, true) :: y.map (·, true)) ++
          unmarked q) := by
      have hmarks : (x ++ c :: y).map (fun c => ((c, true) : MarkedChar)) ++ unmarked q =
          x.map (·, true) ++ (c, true) :: (y.map (·, true) ++ unmarked q) := by simp
      rw [marked, coverToken_first (cut_unmarked hp), hmarks, hdrop]
      simp [unmarked]
    have hblank : isWhitespace d := by
      rw [show d = ' ' from hd]
      exact isWhitespace_space
    rw [hcover, splitWhitespace_append_cons _ _ (c := (d, false)) hblank,
      splitWhitespace_word_append (isWord_covered hnot) (stops_unmarked hq)]
  have hmid := lineClean_iff.1 hclean
    (text MarkedChar "[REDACTED]" ++ (r ++ (c, true) :: y.map (·, true))) (hsplit ▸ by simp)
    (secretWord_covered _)
  exact Bool.noConfusion (hmid (c, true) (by simp))

/-- A secret word that begins a text is not touched by the first pass. -/
theorem coverToken_word_append {t q : List Char} (ht : IsWord t) (hq : Words.Stops isWhitespace q) :
    ∃ z, Unmarked z ∧ Words.Stops (fun c => isWhitespace (chr c)) z ∧
      coverToken (t.map (·, true) ++ unmarked q) = t.map (·, true) ++ z := by
  have hfree : ∀ e ∈ t.map fun c => ((c, true) : MarkedChar), isWhitespace (chr e) = false := by
    simpa [chr] using ht.2
  cases q with
  | nil =>
    refine ⟨[], by simp [Unmarked], by rintro c ⟨⟩, ?_⟩
    unfold coverToken
    rw [show unmarked [] = [] from rfl, List.append_nil, cut_free hfree]
  | cons c q =>
    have hc : isWhitespace c := hq c rfl
    have hcut := cut_word hfree (c, false)
    split at hcut
    · refine ⟨(c, false) :: (text MarkedChar "[REDACTED]" ++ dropToken (unmarked q)), ?_, ?_, ?_⟩
      · refine List.forall_mem_cons.2 ⟨rfl, (unmarked_text _).append fun d hd => ?_⟩
        exact unmarked_unmarked q d ((List.dropWhile_suffix _).subset hd)
      · rintro d ⟨⟩
        exact hc
      · have := coverToken_first hcut (unmarked q)
        simpa [unmarked] using this
    · refine ⟨(c, false) :: coverToken (unmarked q), ?_, ?_,
        coverToken_append_cons _ _ (c := (c, false)) hc hcut⟩
      · exact List.forall_mem_cons.2 ⟨rfl, (unmarked_unmarked q).coverToken⟩
      · rintro d ⟨⟩
        exact hc

/-- Any other secret word is replaced. -/
theorem lineClean_word {p t q : List Char} (hp : Words.cutAfter chr bearer p ≠ some (p, []))
    (hlast : Words.Starts isWhitespace p) (ht : IsWord t) (hsec : (secretWord t).isSome)
    (hq : Words.Stops isWhitespace q) : LineClean (marked p t q) := by
  obtain ⟨r, z, hr, hz, hstop, hcover⟩ : ∃ r z, Unmarked r ∧ Unmarked z ∧
      Words.Stops (fun c => isWhitespace (chr c)) z ∧ splitWhitespace (coverToken (marked p t q)) =
        splitWhitespace r ++ splitWhitespace (t.map (·, true) ++ z) := by
    cases hcut : Words.cutAfter chr bearer p with
    | some ab =>
      obtain ⟨a, b⟩ := ab
      have hb : b ≠ [] := by
        rintro rfl
        have := Words.cutAfter_append hcut
        rw [List.append_nil] at this
        exact hp (this ▸ hcut)
      obtain ⟨r, c, hr, hc, -, h⟩ := marked_later hcut hb hlast
      exact ⟨r, unmarked q, hr, unmarked_unmarked q, stops_unmarked hq,
        by rw [h, splitWhitespace_append_cons _ _ hc]⟩
    | none =>
      obtain ⟨z, hz, hstop, h⟩ := coverToken_word_append ht hq
      rcases List.eq_nil_or_concat p with rfl | ⟨p, c, rfl⟩
      · exact ⟨[], z, by simp [Unmarked], hz, hstop, by rw [← h]; rfl⟩
      · have hc : isWhitespace c := hlast c (by simp)
        refine ⟨unmarked p, z, unmarked_unmarked p, hz, hstop, ?_⟩
        have hcut' : Words.cutAfter chr bearer (unmarked p ++ [(c, false)]) = none := by
          have := cutAfter_unmarked (p.concat c)
          rw [hcut] at this
          simpa [unmarked] using this
        rw [← h, ← splitWhitespace_append_cons _ _ (c := (c, false)) hc, ←
          coverToken_append_cons _ _ (c := (c, false)) hc hcut', marked]
        simp [unmarked]
  have hword : IsWord (t.map fun c => ((c, true) : MarkedChar)) := by
    simpa [Words.Word, chr] using ht
  rw [lineClean_iff, hcover, splitWhitespace_word_append hword hstop, List.forall_mem_append,
    List.forall_mem_cons, chars_marks]
  exact ⟨fun w hw _ => unmarked_of_mem_split hr hw,
    fun hnone => absurd hsec (by simp [hnone]), fun w hw _ => unmarked_of_mem_split hz hw⟩

/-- A secret of a text, between what stands before and after it: a token after `Bearer `, or a
word that is a JWT, a key or a hexadecimal secret. -/
inductive IsSecret : List Char → List Char → List Char → Prop
  | bearer {p t q : List Char} : bearer <:+ p → t ≠ [] → t ≠ "[REDACTED]".toList →
      (∀ c ∈ t, endsToken c = false) → Words.Stops endsToken q → IsSecret p t q
  | word {p t q : List Char} : Words.Starts isWhitespace p → IsWord t → (secretWord t).isSome →
      Words.Stops isWhitespace q → IsSecret p t q

def LineRemoved (l : List Char) : Prop :=
  ∀ p t q, l = p ++ t ++ q → IsSecret p t q → LineClean (marked p t q)

/-- The word after the first `Bearer ` is not a secret with a quote in it, and a later one is
followed by no token but in a secret word. -/
structure SecretsCovered (l : List Char) : Prop where
  unsplit : ∀ a b, Words.cutAfter chr bearer l = some (a, b) →
    (secretWord (wordOf b)).isSome → tokenOf b = wordOf b
  later : ∀ a b c d, Words.cutAfter chr bearer l = some (a, b) → b = c ++ bearer ++ d →
    tokenOf d = [] ∨ tokenOf d = "[REDACTED]".toList ∨ (secretWord (wordOf d)).isSome

theorem starts_of_suffix {p : List Char} (h : bearer <:+ p) : Words.Starts isWhitespace p := by
  obtain ⟨x, c, rfl, hc⟩ := concat_of_suffix (α := Char) (by simpa [chars, chr] using h)
  rintro d hd
  rw [List.getLast?_append] at hd
  obtain rfl : c = d := by simpa using hd
  rw [show c = ' ' from hc]
  exact isWhitespace_space

theorem wordOf_append {t q : List α} (ht : IsWord t)
    (hq : Words.Stops (fun c => isWhitespace (chr c)) q) : wordOf (t ++ q) = t := by
  unfold wordOf
  rw [List.takeWhile_append_of_pos (by simpa using ht.2)]
  cases q with
  | nil => simp
  | cons c q => rw [List.takeWhile_cons_of_neg (by simpa using hq c rfl), List.append_nil]

theorem not_isWhitespace {c : Char} (h : endsToken c = false) : isWhitespace c = false := by
  unfold endsToken at h
  simp only [Bool.or_eq_false_iff] at h
  exact h.1.1

theorem wordOf_append_token {t q : List α} (ht : ∀ c ∈ t, endsToken (chr c) = false) :
    wordOf (t ++ q) = t ++ wordOf q := by
  unfold wordOf
  refine List.takeWhile_append_of_pos fun c hc => ?_
  simp [not_isWhitespace (ht c hc)]

theorem suffix_chars {p a b : List Char} (h : Words.cutAfter chr bearer p = some (a, b)) :
    bearer <:+ a := by simpa [chr] using Words.suffix_of_cutAfter h

theorem endsToken_of_mem_tokenOf {s : List α} {c : α} (hc : c ∈ tokenOf s) :
    endsToken (chr c) = false := by simpa using List.mem_takeWhile_imp hc

theorem token_free {s : List Char} {c : Char} (hc : c ∈ tokenOf s) : endsToken c = false :=
  endsToken_of_mem_tokenOf (α := Char) hc

theorem stops_dropToken (s : List α) : Words.Stops (fun c => endsToken (chr c)) (dropToken s) := by
  intro c hc
  have := List.head?_dropWhile_not (fun c : α => !endsToken (chr c)) s
  rw [show List.dropWhile _ s = dropToken s from rfl, Option.mem_def.1 hc] at this
  simpa using this

theorem isWord_wordOf {s : List Char} (h : (secretWord (wordOf s)).isSome) : IsWord (wordOf s) := by
  refine ⟨fun e => ?_, fun c hc => isWhitespace_of_mem_wordOf hc⟩
  rw [e] at h
  exact absurd h (by decide +kernel)

theorem SecretsCovered.lineRemoved {l : List Char} (h : SecretsCovered l) : LineRemoved l := by
  rintro p t q rfl hs
  cases hs with
  | bearer hp hne hph ht hq =>
    obtain ⟨a, b, hcut⟩ := exists_cut_of_suffix ((chars_self p).symm ▸ hp)
    obtain rfl := Words.cutAfter_append hcut
    by_cases hb : b = []
    · rw [hb, List.append_nil] at hcut ⊢
      exact lineClean_first hcut ht hq
    rw [lineClean_later_iff hcut hb (starts_of_suffix hp) hne fun c hc => ?_]
    · obtain ⟨x, c, rfl, hc⟩ :=
        concat_of_suffix (α := Char) ((chars_self a).symm ▸ suffix_chars hcut)
      obtain ⟨e, rfl⟩ : bearer <:+ b :=
        Words.suffix_of_suffix_append bearer_word.2 isWhitespace_space
          ⟨x, by rw [show c = ' ' from hc]⟩ hb hp
      have hfull := cut_extend hcut (e ++ bearer ++ (t ++ q))
      have hlater := h.later _ _ e (t ++ q) (by simpa using hfull) rfl
      rw [tokenOf_append ht hq, wordOf_append_token ht] at hlater
      exact hlater.resolve_left hne |>.resolve_left hph
    · exact not_isWhitespace (ht c hc)
  | word hp ht hsec hq =>
    by_cases hcut : Words.cutAfter chr bearer p = some (p, [])
    · have hfull := cut_extend hcut (t ++ q)
      rw [lineClean_split_iff hcut ht hq]
      have hunsplit := h.unsplit _ _ (by simpa using hfull)
      rw [wordOf_append ht hq] at hunsplit
      have htok := hunsplit hsec
      intro c hc
      rw [← htok] at hc
      exact token_free hc
    · exact lineClean_word hcut hp ht hsec hq

theorem LineRemoved.covered {l : List Char} (h : LineRemoved l) : SecretsCovered l := by
  constructor
  · intro a b hcut hsec
    have hself := cut_extend hcut []
    rw [List.append_nil] at hself
    have hword := isWord_wordOf hsec
    have hstop := stops_afterWord b
    have hclean := h a (wordOf b) (afterWord b)
      (by rw [List.append_assoc, wordOf_append_afterWord, ← Words.cutAfter_append hcut])
      (.word (starts_of_suffix (suffix_chars hcut)) hword hsec hstop)
    have hfree := (lineClean_split_iff hself hword hstop).1 hclean
    have := tokenOf_append hfree (stops_endsToken hstop)
    rwa [wordOf_append_afterWord] at this
  · rintro a b c d hcut rfl
    by_contra hnot
    rw [not_or, not_or] at hnot
    obtain ⟨hne, hph, hsec⟩ := hnot
    have hself := cut_extend hcut (c ++ bearer)
    have hp : bearer <:+ a ++ (c ++ bearer) := by
      rw [← List.append_assoc]
      exact List.suffix_append ..
    have hclean := h (a ++ (c ++ bearer)) (tokenOf d) (dropToken d)
      (by rw [List.append_assoc, tokenOf_append_dropToken, Words.cutAfter_append hcut]
          simp only [List.append_assoc])
      (.bearer hp hne hph (fun c hc => token_free hc) (stops_dropToken d))
    rw [lineClean_later_iff hself (List.append_ne_nil_of_right_ne_nil _ (by decide))
      (starts_of_suffix hp) hne fun c hc => not_isWhitespace (token_free hc)] at hclean
    have hword := wordOf_append_token (t := tokenOf d) (q := dropToken d) fun c hc => token_free hc
    rw [tokenOf_append_dropToken] at hword
    exact hsec (hword ▸ hclean)

end SatsPay
