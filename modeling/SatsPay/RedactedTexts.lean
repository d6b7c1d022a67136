import SatsPay.RedactedTwice

/-!
# Redaction of a text

A text is redacted line by line, so what is said of a line is said of each of its lines.
-/

namespace SatsPay

open Letter

variable {α : Type} [Letter α]

theorem isWhitespace_newline : isWhitespace '\n' := by decide

theorem newline_free {l : List Char} (h : ∀ c ∈ l, c ≠ '\n') :
    ∀ c ∈ l, (chr c == '\n') = false := by simpa [chr] using h

theorem free_of_mem_splitLines {s l : List α} (hl : l ∈ splitLines s) :
    ∀ c ∈ l, (chr c == '\n') = false := Words.free_of_mem_splitOnP hl

theorem splitLines_redacted (s : List Char) :
    splitLines (['\n'].intercalate ((splitLines s).map redactedLine)) =
      (splitLines s).map redactedLine := by
  refine Words.splitOnP_intercalate (p := fun c : Char => chr c == '\n') rfl ?_ ?_
  · simp [splitLines]
  · intro w hw
    obtain ⟨l, -, rfl⟩ := List.mem_map.1 hw
    refine (Words.forall_mem_intercalate ?_ _).2 fun v hv c hc => ?_
    · simp [chr, lit]
    · have hno : isWhitespace (chr c) = false := (isWord_of_mem_redactedWords hv).2 c hc
      refine beq_eq_false_iff_ne.2 fun e => ?_
      rw [e, isWhitespace_newline] at hno
      cases hno

/-! ## A secret of a text is one of a line -/

theorem splitLines_injective {s s' : List Char} (h : splitLines s = splitLines s') : s = s' := by
  have hs : ∀ s : List Char, ['\n'].intercalate (splitLines s) = s :=
    fun s => List.intercalate_splitOn '\n'
  rw [← hs s, h, hs]

theorem exists_last (s : List α) : ∃ A P, splitLines s = A ++ [P] := by
  rcases List.eq_nil_or_concat (splitLines s) with e | ⟨A, P, e⟩
  · exact absurd e (List.splitOnP_ne_nil _ s)
  · exact ⟨A, P, by simpa using e⟩

theorem exists_first (s : List α) : ∃ Q B, splitLines s = Q :: B :=
  List.exists_cons_of_ne_nil (List.splitOnP_ne_nil _ s)

theorem splitLines_unmarked (s : List Char) :
    splitLines (unmarked s) = (splitLines s).map unmarked :=
  Words.splitOnP_map ..

theorem splitLines_marked {p t q : List Char} {A B : List (List Char)} {P Q : List Char}
    (hp : splitLines p = A ++ [P]) (hq : splitLines q = Q :: B)
    (ht : ∀ c ∈ t, (chr c == '\n') = false) :
    splitLines (marked p t q) = A.map unmarked ++ marked P t Q :: B.map unmarked := by
  have hfree : splitLines (t.map fun c => ((c, true) : MarkedChar)) = [] ++ [t.map (·, true)] :=
    List.splitOnP_eq_singleton (by simpa [chr] using ht)
  have hq' : splitLines (unmarked q) = unmarked Q :: B.map unmarked := by
    rw [splitLines_unmarked, hq, List.map_cons]
  have hp' : splitLines (unmarked p) = A.map unmarked ++ [unmarked P] := by
    rw [splitLines_unmarked, hp, List.map_append, List.map_singleton]
  exact Words.splitOnP_append hp' (Words.splitOnP_append hfree hq')

theorem stops_first {r : Char → Bool} {q Q : List Char} {B : List (List Char)}
    (hq : splitLines q = Q :: B) (h : Words.Stops r q) : Words.Stops r Q := by
  cases q with
  | nil =>
    obtain ⟨rfl, -⟩ := List.cons.inj hq
    exact h
  | cons c q =>
    rw [splitLines, List.splitOnP_cons_eq_if_modifyHead] at hq
    split at hq
    · obtain ⟨rfl, -⟩ := List.cons.inj hq
      rintro d ⟨⟩
    · obtain ⟨v, vs, e⟩ := exists_first q
      rw [splitLines] at e
      rw [e, List.modifyHead_cons] at hq
      obtain ⟨rfl, -⟩ := List.cons.inj hq
      rintro d ⟨⟩
      exact h c rfl

theorem suffix_last {p P u : List Char} {A : List (List Char)} (hp : splitLines p = A ++ [P])
    (hu : ∀ c ∈ u, (chr c == '\n') = false) (h : u <:+ p) : u <:+ P := by
  obtain ⟨x, rfl⟩ := h
  obtain ⟨A', P', hx⟩ := exists_last x
  have := Words.splitOnP_append hx (List.splitOnP_eq_singleton hu)
  rw [splitLines] at hp
  rw [hp] at this
  obtain ⟨-, e⟩ := List.append_inj' this rfl
  obtain rfl : P = P' ++ u := by simpa using e
  exact List.suffix_append ..

theorem starts_last {p P : List Char} {A : List (List Char)} (hp : splitLines p = A ++ [P])
    (h : Words.Starts isWhitespace p) : Words.Starts isWhitespace P := by
  rcases List.eq_nil_or_concat p with rfl | ⟨x, c, rfl⟩
  · obtain ⟨-, e⟩ := @List.append_inj' _ [] _ _ _ hp rfl
    obtain rfl : [] = P := by simpa using e
    exact h
  · by_cases hc : c = '\n'
    · have hsplit := List.splitOnP_append_cons (p := fun c : Char => chr c == '\n') x []
        (beq_iff_eq.2 hc)
      rw [List.splitOnP_nil, ← List.concat_eq_append, ← splitLines, hp] at hsplit
      obtain ⟨-, e⟩ := List.append_inj' hsplit rfl
      obtain rfl : P = [] := by simpa using e
      rintro d ⟨⟩
    · have hsuf := suffix_last hp (u := [c]) (by simpa [chr] using hc) (by simp)
      obtain ⟨y, rfl⟩ := hsuf
      rintro d hd
      obtain rfl : c = d := by simpa using hd
      exact h c (by simp)

theorem IsSecret.of_text {p t q : List Char} {A B : List (List Char)} {P Q : List Char}
    (hp : splitLines p = A ++ [P]) (hq : splitLines q = Q :: B) (h : IsSecret p t q) :
    IsSecret P t Q := by
  cases h with
  | bearer hb hne hph ht hstop =>
    have hbearer : ∀ c ∈ SatsPay.bearer, (chr c == '\n') = false :=
      List.all_iff_forall_prop.1 (by decide +kernel)
    exact .bearer (suffix_last hp hbearer hb) hne hph ht (stops_first hq hstop)
  | word hs ht hsec hstop => exact .word (starts_last hp hs) ht hsec (stops_first hq hstop)

theorem IsSecret.newline_free {p t q : List Char} (h : IsSecret p t q) :
    ∀ c ∈ t, (chr c == '\n') = false := by
  intro c hc
  have hno : isWhitespace c = false := by
    cases h with
    | bearer _ _ _ ht _ => exact not_isWhitespace (ht c hc)
    | word _ ht _ _ => exact ht.2 c hc
  refine beq_eq_false_iff_ne.2 fun e => ?_
  rw [show c = '\n' from e, isWhitespace_newline] at hno
  cases hno

/-! ## What redaction does to a text -/

/-- The text is redacted without a panic, line by line and once for all, and nothing of any of
its secrets is left. -/
structure Redacts (s : List Char) : Prop where
  once : ∃ r, redactSecrets s = some r ∧ (splitLines r).length = (splitLines s).length ∧
    redactSecrets r = some r
  removed : ∀ p t q, s = p ++ t ++ q → IsSecret p t q →
    ∀ r, redactSecrets (marked p t q) = some r → Unmarked r

/-- What the redaction of a line takes: its secrets are covered, and in its words, with the
token after the first `Bearer ` covered, the first word that ends in `Bearer`, is no secret and
has a word after it is followed by the placeholder. -/
structure Redactable (l : List Char) : Prop extends SecretsCovered l where
  settled : Words.cutAfter chr bearer l = none → WordsSettled (splitWhitespace l)
  settled_after : ∀ a b, Words.cutAfter chr bearer l = some (a, b) →
    WordsSettled (splitWhitespace a ++ splitWhitespace ("[REDACTED]".toList ++ dropToken b))

theorem redactable_iff {l : List Char} :
    Redactable l ↔ SecretsCovered l ∧ WordsSettled (splitWhitespace (coverToken l)) := by
  have hcover : ∀ a b, Words.cutAfter chr bearer l = some (a, b) →
      splitWhitespace (coverToken l) =
        splitWhitespace a ++ splitWhitespace ("[REDACTED]".toList ++ dropToken b) := by
    intro a b hcut
    rw [Words.cutAfter_append hcut, coverToken_first hcut, text_self, List.append_assoc]
    exact Words.split_starts_append (starts_of_suffix (suffix_chars hcut))
  have hself : Words.cutAfter chr bearer l = none → coverToken l = l := by
    intro hcut
    rw [coverToken, hcut]
  refine ⟨fun h => ⟨h.toSecretsCovered, ?_⟩, fun h =>
    ⟨h.1, fun hcut => ?_, fun a b hcut => ?_⟩⟩
  · cases hcut : Words.cutAfter chr bearer l with
    | none => rw [hself hcut]; exact h.settled hcut
    | some ab => rw [hcover _ _ hcut]; exact h.settled_after _ _ hcut
  · exact hself hcut ▸ h.2
  · exact hcover _ _ hcut ▸ h.2

theorem redactSecrets_twice_iff (s : List Char) :
    redactSecrets (['\n'].intercalate ((splitLines s).map redactedLine)) =
      some (['\n'].intercalate ((splitLines s).map redactedLine)) ↔
      ∀ l ∈ splitLines s, WordsSettled (splitWhitespace (coverToken l)) := by
  have hlines := splitLines_redacted s
  rw [redactSecrets_eq, hlines, Option.some.injEq, List.map_map]
  have htwice : ∀ l ∈ splitLines s, redactedLine (redactedLine l) = redactedLine l ↔
      WordsSettled (splitWhitespace (coverToken l)) := fun l _ => redactedLine_twice_iff l
  rw [← forall₂_congr htwice]
  refine ⟨fun e => ?_, fun h => ?_⟩
  · have htwo := splitLines_redacted (['\n'].intercalate ((splitLines s).map redactedLine))
    rw [hlines, List.map_map] at htwo
    have := congrArg splitLines e
    rw [show [(lit '\n' : Char)] = ['\n'] from rfl, htwo, hlines] at this
    exact List.map_inj_left.1 this
  · exact congrArg (['\n'].intercalate ·) (List.map_congr_left h)

theorem unmarked_redacted_iff {p t q : List Char} {A B : List (List Char)} {P Q : List Char}
    (hp : splitLines p = A ++ [P]) (hq : splitLines q = Q :: B)
    (ht : ∀ c ∈ t, (chr c == '\n') = false) :
    (∀ r, redactSecrets (marked p t q) = some r → Unmarked r) ↔ LineClean (marked P t Q) := by
  have hsep : ∀ c ∈ [(lit '\n' : MarkedChar)], c.2 = false := by simp [lit]
  have hrest : ∀ C : List (List Char), ∀ w ∈ (C.map unmarked).map redactedLine, Unmarked w := by
    intro C w hw
    rw [List.map_map] at hw
    obtain ⟨l, -, rfl⟩ := List.mem_map.1 hw
    exact lineClean_of_unmarked (unmarked_unmarked l).coverToken
  simp only [redactSecrets_eq, Option.some.injEq, forall_eq']
  rw [Unmarked, Words.forall_mem_intercalate hsep, splitLines_marked hp hq ht, List.map_append,
    List.map_cons, List.forall_mem_append, List.forall_mem_cons]
  exact ⟨fun h => h.2.1, fun h => ⟨hrest A, h, hrest B⟩⟩

theorem IsSecret.to_text {x P t Q y : List Char} (hx : Words.Starts (· == '\n') x)
    (hy : Words.Stops (· == '\n') y) (h : IsSecret P t Q) : IsSecret (x ++ P) t (Q ++ y) := by
  have hspace : ∀ c, (c == '\n') = true → isWhitespace c := by
    intro c hc
    rw [beq_iff_eq.1 hc]
    exact isWhitespace_newline
  cases h with
  | bearer hb hne hph ht hq =>
    exact .bearer (List.suffix_append_of_suffix hb) hne hph ht
      (Words.Stops.append hq fun c hc => endsToken_of_isWhitespace (hspace c (hy c hc)))
  | word hp ht hsec hq =>
    exact .word (Words.Starts.append (fun c hc => hspace c (hx c hc)) hp) ht hsec
      (Words.Stops.append hq fun c hc => hspace c (hy c hc))

theorem removed_iff {s : List Char} :
    (∀ p t q, s = p ++ t ++ q → IsSecret p t q →
      ∀ r, redactSecrets (marked p t q) = some r → Unmarked r) ↔
      ∀ l ∈ splitLines s, SecretsCovered l := by
  constructor
  · intro h l hl
    refine LineRemoved.covered ?_
    rintro P t Q rfl hs
    obtain ⟨A, B, hlines⟩ := List.append_of_mem hl
    have hfree : ∀ w ∈ A ++ (P ++ t ++ Q) :: B, ∀ c ∈ w, (chr c == '\n') = false := by
      intro w hw
      exact free_of_mem_splitLines (hlines ▸ hw)
    have hmid : ∀ c ∈ P ++ t ++ Q, (chr c == '\n') = false := hfree _ (by simp)
    have hp : splitLines (['\n'].intercalate (A ++ [P])) = A ++ [P] := by
      refine Words.splitOnP_intercalate (p := fun c : Char => chr c == '\n') rfl (by simp) ?_
      intro w hw
      rcases List.mem_append.1 hw with hw | hw
      · exact hfree w (List.mem_append_left _ hw)
      · obtain rfl : w = P := by simpa using hw
        exact fun c hc => hmid c (by simp [hc])
    have hq : splitLines (['\n'].intercalate (Q :: B)) = Q :: B := by
      refine Words.splitOnP_intercalate (p := fun c : Char => chr c == '\n') rfl (by simp) ?_
      intro w hw
      rcases List.mem_cons.1 hw with rfl | hw
      · exact fun c hc => hmid c (by simp [hc])
      · exact hfree w (by simp [hw])
    obtain ⟨x, hx, ex⟩ := Words.intercalate_concat_eq (p := (· == '\n')) (beq_self_eq_true '\n') A P
    obtain ⟨y, hy, ey⟩ := Words.intercalate_cons_eq (p := (· == '\n')) (beq_self_eq_true '\n') Q B
    have hs' : IsSecret (x ++ P) t (Q ++ y) := hs.to_text hx hy
    rw [← ex, ← ey] at hs'
    have hsplit := Words.splitOnP_append (Words.splitOnP_append hp
      (List.splitOnP_eq_singleton hs'.newline_free)) hq
    have e : s = ['\n'].intercalate (A ++ [P]) ++ t ++ ['\n'].intercalate (Q :: B) := by
      refine splitLines_injective (hlines.trans ?_)
      rw [splitLines, hsplit]
    exact (unmarked_redacted_iff hp hq hs'.newline_free).1 (h _ _ _ e hs')
  · rintro h p t q rfl hs
    obtain ⟨A, P, hp⟩ := exists_last p
    obtain ⟨Q, B, hq⟩ := exists_first q
    have hfree := hs.newline_free
    rw [unmarked_redacted_iff hp hq hfree]
    have hmid : splitLines t = [] ++ [t] := List.splitOnP_eq_singleton hfree
    have hlines := Words.splitOnP_append (Words.splitOnP_append hp hmid) hq
    refine (h (P ++ t ++ Q) ?_).lineRemoved P t Q rfl (hs.of_text hp hq)
    rw [splitLines, hlines]
    simp

theorem redacts_iff {s : List Char} : Redacts s ↔ ∀ l ∈ splitLines s, Redactable l := by
  simp only [redactable_iff]
  rw [forall₂_and, ← removed_iff, ← redactSecrets_twice_iff]
  constructor
  · rintro ⟨⟨r, hr, -, htwice⟩, hrem⟩
    rw [redactSecrets_eq] at hr
    cases hr
    exact ⟨hrem, htwice⟩
  · rintro ⟨hrem, htwice⟩
    refine ⟨⟨_, redactSecrets_eq s, ?_, htwice⟩, hrem⟩
    exact (congrArg List.length (splitLines_redacted s)).trans (List.length_map ..)

end SatsPay
