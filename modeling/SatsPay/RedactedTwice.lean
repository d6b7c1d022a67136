import SatsPay.RedactedLines

/-!
# Redaction of a redacted line

The words of a redacted line stand one blank apart, so a second redaction covers the word after
the first one that ends in `Bearer`, whatever stood between them before.
-/

namespace SatsPay

open Letter

def coverWords : List (List Char) → List (List Char)
  | w :: v :: ws => if "Bearer".toList.isSuffixOf w then
      w :: ("[REDACTED]".toList ++ dropToken v) :: ws
    else w :: coverWords (v :: ws)
  | ws => ws

theorem dropToken_word_append {v q : List Char} (hq : Words.Stops isWhitespace q) :
    dropToken (v ++ q) = dropToken v ++ q := by
  conv_lhs => rw [← tokenOf_append_dropToken v]
  cases h : dropToken v with
  | nil =>
    rw [List.append_nil, List.nil_append]
    exact dropToken_append (fun c hc => token_free hc) (stops_endsToken hq)
  | cons c r =>
    have hstop := stops_dropToken v
    rw [h] at hstop
    rw [List.append_assoc, dropToken_append (fun c hc => token_free hc)]
    rintro d ⟨⟩
    exact hstop c rfl

/-- What follows the first of some words in their line. -/
theorem intercalate_cons (v : List Char) {ws : List (List Char)} (h : ∀ w ∈ ws, IsWord w) :
    ∃ q, Words.Stops isWhitespace q ∧ splitWhitespace q = ws ∧
      [' '].intercalate (v :: ws) = v ++ q := by
  cases ws with
  | nil => exact ⟨[], by rintro c ⟨⟩, rfl, by simp⟩
  | cons w ws =>
    refine ⟨' ' :: [' '].intercalate (w :: ws), ?_, ?_, by simp [List.intercalate_cons_cons]⟩
    · rintro c ⟨⟩
      exact isWhitespace_space
    · rw [← List.nil_append (' ' :: _), splitWhitespace_append_cons _ _ isWhitespace_space]
      exact Words.split_intercalate (p := fun c => isWhitespace (chr c)) isWhitespace_space h

theorem splitWhitespace_cover {ws : List (List Char)} (h : ∀ w ∈ ws, IsWord w) :
    splitWhitespace (coverToken ([' '].intercalate ws)) = coverWords ws := by
  induction ws with
  | nil => rfl
  | cons w ws ih =>
    have hw := h w List.mem_cons_self
    have hws := fun v hv => h v (List.mem_cons_of_mem w hv)
    cases ws with
    | nil =>
      rw [List.intercalate_singleton, coverToken, cut_free hw.2]
      exact splitWhitespace_word hw.1 hw.2
    | cons v ws =>
      have hcut := cut_word hw.2 ' '
      rw [List.intercalate_cons_cons, List.append_assoc, List.singleton_append, coverWords]
      have hsuf : bearer.isSuffixOf (chars (w ++ [' '])) = "Bearer".toList.isSuffixOf w := by
        rw [chars_self]
        exact Words.isSuffixOf_concat "Bearer".toList w ' '
      rw [hsuf] at hcut
      split at hcut
      · rename_i hb
        obtain ⟨q, hq, hsplit, e⟩ :=
          intercalate_cons v fun u hu => hws u (List.mem_cons_of_mem v hu)
        have hv := hws v List.mem_cons_self
        have hph : IsWord ("[REDACTED]".toList ++ dropToken v) :=
          isWord_covered fun c hc => hv.2 c ((List.dropWhile_suffix _).subset hc)
        have hcover := coverToken_first hcut (v ++ q)
        rw [dropToken_word_append hq, text_self] at hcover
        rw [if_pos hb, e]
        generalize "[REDACTED]".toList = ph at hph hcover ⊢
        simp only [List.append_assoc, List.cons_append, List.nil_append] at hcover
        rw [hcover, splitWhitespace_append_cons _ _ isWhitespace_space,
          splitWhitespace_word hw.1 hw.2, ← List.append_assoc, splitWhitespace_word_append hph hq,
          hsplit]
        rfl
      · rename_i hb
        rw [if_neg hb, coverToken_append_cons _ _ isWhitespace_space hcut,
          splitWhitespace_append_cons _ _ isWhitespace_space, splitWhitespace_word hw.1 hw.2,
          ih hws]
        rfl

/-! ## What is redacted once -/

theorem redactWord_of_none {w : List Char} (h : secretWord w = none) : redactWord w = w := by
  unfold redactWord
  rw [chars_self, h]

theorem redactWord_of_some {w : List Char} {new : String} (h : secretWord w = some new) :
    redactWord w = new.toList := by
  unfold redactWord
  rw [chars_self, h]
  exact text_self new

theorem secretWord_redactWord (w : List Char) : secretWord (redactWord w) = none := by
  cases h : secretWord w with
  | none => rwa [redactWord_of_none h]
  | some new =>
    rw [redactWord_of_some h]
    rcases secretWord_cases h with rfl | rfl | rfl <;> exact secretWord_bracket _

/-- Among words, a first one that ends in `Bearer`, is no secret and has a word after it is
followed by the placeholder. -/
def WordsSettled : List (List Char) → Prop
  | w :: v :: ws => if secretWord w = none ∧ "Bearer".toList.isSuffixOf w then
      tokenOf v = "[REDACTED]".toList
    else WordsSettled (v :: ws)
  | _ => True

theorem tokenOf_redactWord_iff (v : List Char) :
    tokenOf (redactWord v) = "[REDACTED]".toList ↔ tokenOf v = "[REDACTED]".toList := by
  cases h : secretWord v with
  | none => rw [redactWord_of_none h]
  | some new =>
    rw [redactWord_of_some h]
    refine iff_of_false ?_ fun e => ?_
    · rcases secretWord_cases h with rfl | rfl | rfl <;> decide +kernel
    · rw [← tokenOf_append_dropToken v, e, show "[REDACTED]".toList ++ dropToken v =
        '[' :: ("REDACTED]".toList ++ dropToken v) from rfl, secretWord_bracket] at h
      cases h

theorem isSuffixOf_redactWord (w : List Char) : "Bearer".toList.isSuffixOf (redactWord w) ↔
    secretWord w = none ∧ "Bearer".toList.isSuffixOf w := by
  cases h : secretWord w with
  | none => rw [redactWord_of_none h, and_iff_right rfl]
  | some new =>
    rw [redactWord_of_some h]
    refine iff_of_false ?_ fun h => nomatch h.1
    rcases secretWord_cases h with rfl | rfl | rfl <;> decide +kernel

theorem redactWord_twice (w : List Char) : redactWord (redactWord w) = redactWord w :=
  redactWord_of_none (secretWord_redactWord w)

theorem coverWords_redacted_iff (ws : List (List Char)) :
    (coverWords (ws.map redactWord)).map redactWord = ws.map redactWord ↔ WordsSettled ws := by
  induction ws with
  | nil => simp [coverWords, WordsSettled]
  | cons w ws ih =>
    cases ws with
    | nil => simp [coverWords, WordsSettled, redactWord_twice]
    | cons v ws =>
      rw [List.map_cons, List.map_cons, coverWords, WordsSettled]
      by_cases hw : secretWord w = none ∧ "Bearer".toList.isSuffixOf w
      · have hph : redactWord ("[REDACTED]".toList ++ dropToken (redactWord v)) =
            "[REDACTED]".toList ++ dropToken (redactWord v) :=
          redactWord_of_none (secretWord_bracket _)
        have hrest : (ws.map redactWord).map redactWord = ws.map redactWord := by
          rw [List.map_map]
          exact List.map_congr_left fun u _ => redactWord_twice u
        rw [if_pos ((isSuffixOf_redactWord w).2 hw), if_pos hw, List.map_cons, List.map_cons,
          redactWord_twice, hph, hrest, List.cons.injEq, List.cons.injEq, and_iff_right rfl,
          and_iff_left rfl, ← tokenOf_redactWord_iff]
        conv_lhs => rhs; rw [← tokenOf_append_dropToken (redactWord v)]
        rw [List.append_cancel_right_eq, eq_comm]
      · rw [if_neg (mt (isSuffixOf_redactWord w).1 hw), if_neg hw, List.map_cons, redactWord_twice,
          List.cons.injEq, and_iff_right rfl, ← List.map_cons, ih]

/-- Redacting the redacted line changes nothing exactly when its words are settled. -/
theorem redactedLine_twice_iff (l : List Char) :
    redactedLine (redactedLine l) = redactedLine l ↔
      WordsSettled (splitWhitespace (coverToken l)) := by
  have hsplit := splitWhitespace_cover fun w hw => isWord_of_mem_redactedWords (s := l) hw
  have hwords : redactedWords (redactedLine l) = (coverWords (redactedWords l)).map redactWord :=
    congrArg (List.map redactWord) hsplit
  rw [← coverWords_redacted_iff, show List.map redactWord (splitWhitespace (coverToken l)) =
    redactedWords l from rfl, ← hwords]
  refine ⟨fun e => ?_, fun e => congrArg ([' '].intercalate ·) e⟩
  exact Words.intercalate_inj (p := fun c => isWhitespace (chr c)) isWhitespace_space
    (fun w hw => isWord_of_mem_redactedWords hw) (fun w hw => isWord_of_mem_redactedWords hw) e

end SatsPay
