import SatsPay.Json
import SatsPay.Words

/-!
# Redaction of secrets

What the telemetry takes out of a text before it is stored. A text is a list of letters,
which may carry a mark of where they come from: no function looks at the mark, so a marked
text shows what becomes of its marked part.
-/

namespace SatsPay

class Letter (α : Type) where
  chr : α → Char
  lit : Char → α
  chr_lit : ∀ c, chr (lit c) = c

namespace Letter

instance : Letter Char := ⟨id, id, fun _ => rfl⟩

/-- What the code itself writes is unmarked. -/
instance : Letter (Char × Bool) := ⟨Prod.fst, (·, false), fun _ => rfl⟩

attribute [simp] chr_lit

end Letter

open Letter

variable {α : Type} [Letter α]

def chars (s : List α) : List Char := s.map chr

def text (α : Type) [Letter α] (s : String) : List α := s.toList.map lit

def byteLen (s : List α) : ℕ := (s.map fun c => (chr c).utf8Size).sum

/-- `str::find` of a text: the byte offset of its first place. -/
def findText (pat : List Char) : List α → Option ℕ
  | [] => none
  | c :: s => if pat.isPrefixOf (chars (c :: s)) then some 0
    else (findText pat s).map ((chr c).utf8Size + ·)

/-- `str::find` of a character. -/
def findChar (p : Char → Bool) : List α → Option ℕ
  | [] => none
  | c :: s => if p (chr c) then some 0 else (findChar p s).map ((chr c).utf8Size + ·)

/-- The parts before and after a byte offset, unless it is out of range or inside a character:
then the code panics. -/
def splitBytes : ℕ → List α → Option (List α × List α)
  | 0, s => some ([], s)
  | _ + 1, [] => none
  | n + 1, c :: s => if (chr c).utf8Size ≤ n + 1 then
      (splitBytes (n + 1 - (chr c).utf8Size) s).map fun ab => (c :: ab.1, ab.2)
    else none

def replaceRange (start stop : ℕ) (new s : List α) : Option (List α) := do
  let (before, _) ← splitBytes start s
  let (_, after) ← splitBytes stop s
  if start ≤ stop then some (before ++ new ++ after) else none

def splitWhitespace (s : List α) : List (List α) := Words.split (fun c => isWhitespace (chr c)) s

def trimText (s : List α) : List α :=
  (s.dropWhile fun c => isWhitespace (chr c)).rdropWhile fun c => isWhitespace (chr c)

/-- What the code writes for a word that is a JWT, a key or a hexadecimal secret. -/
def secretWord (tok : List Char) : Option String :=
  if "eyJ".toList.isPrefixOf tok ∧ 2 ≤ tok.count '.' ∧ 40 < byteLen tok then
    some "[REDACTED_JWT]"
  else if ("sk_".toList.isPrefixOf tok ∨ "pk_".toList.isPrefixOf tok ∨
      "ak_".toList.isPrefixOf tok) ∧ 12 < byteLen tok then
    some "[REDACTED_KEY]"
  else if byteLen tok = 64 ∧ tok.all fun c => (fromHexDigit c).isSome then
    some "[REDACTED_HEX]"
  else none

def redactWord (tok : List α) : List α :=
  match secretWord (chars tok) with
  | some new => text α new
  | none => tok

def endsToken (c : Char) : Bool := isWhitespace c || c == '"' || c == '\''

def bearer : List Char := "Bearer".toList ++ [' ']

/-- The first pass of `redact_line`. -/
def redactBearer (s : List α) : Option (List α) :=
  match findText bearer s with
  | none => some s
  | some idx => do
    let start := idx + byteLen bearer
    let (_, rest) ← splitBytes start s
    let stop := ((findChar endsToken rest).map (start + ·)).getD (byteLen s)
    replaceRange start stop (text α "[REDACTED]") s

def redactLine (s : List α) : Option (List α) := do
  let out ← redactBearer s
  let cleaned := (splitWhitespace out).flatMap fun tok => redactWord tok ++ [lit ' ']
  some (trimText cleaned)

def splitLines (s : List α) : List (List α) := s.splitOnP fun c => chr c == '\n'

def redactSecrets (s : List α) : Option (List α) :=
  ((splitLines s).mapM redactLine).map ([lit '\n'].intercalate ·)

/-! ## Offsets -/

@[simp] theorem byteLen_nil : byteLen ([] : List α) = 0 := rfl

@[simp] theorem byteLen_cons (c : α) (s : List α) :
    byteLen (c :: s) = (chr c).utf8Size + byteLen s := by simp [byteLen]

@[simp] theorem byteLen_append (a b : List α) : byteLen (a ++ b) = byteLen a + byteLen b := by
  simp [byteLen]

theorem byteLen_chars (s : List α) : byteLen (chars s) = byteLen s := by
  simp [byteLen, chars, Function.comp_def, chr]

theorem splitBytes_append (a b : List α) : splitBytes (byteLen a) (a ++ b) = some (a, b) := by
  induction a with
  | nil => simp [splitBytes]
  | cons c a ih =>
    have hpos := (chr c).utf8Size_pos
    obtain ⟨n, hn⟩ : ∃ n, byteLen (c :: a) = n + 1 := ⟨byteLen (c :: a) - 1, by simp; omega⟩
    have hle : (chr c).utf8Size ≤ n + 1 := by rw [← hn, byteLen_cons]; omega
    have hrest : n + 1 - (chr c).utf8Size = byteLen a := by rw [← hn, byteLen_cons]; omega
    rw [hn, List.cons_append, splitBytes, if_pos hle, hrest, ih]
    rfl

theorem findText_eq_none {pat : List Char} {s : List α} (h : Words.cutAfter chr pat s = none) :
    findText pat s = none := by
  induction s with
  | nil => rfl
  | cons c s ih =>
    rw [Words.cutAfter] at h
    split at h
    · cases h
    · rename_i hp
      rw [findText, chars, if_neg hp, ih (by simpa using h)]
      rfl

theorem findText_eq_some {pat : List Char} {s a b : List α}
    (h : Words.cutAfter chr pat s = some (a, b)) :
    ∃ i, findText pat s = some i ∧ i + byteLen pat = byteLen a := by
  induction s generalizing a with
  | nil => cases h
  | cons c s ih =>
    rw [Words.cutAfter] at h
    split at h
    · rename_i hp
      cases h
      refine ⟨0, by rw [findText, chars, if_pos hp], ?_⟩
      have hp := List.prefix_iff_eq_take.1 (List.isPrefixOf_iff_prefix.1 hp)
      rw [← byteLen_chars (List.take _ _), chars, List.map_take, ← hp, Nat.zero_add]
    · rename_i hp
      obtain ⟨⟨a', b'⟩, h', e⟩ := Option.map_eq_some_iff.1 h
      cases e
      obtain ⟨i, hi, hlen⟩ := ih h'
      refine ⟨(chr c).utf8Size + i, by rw [findText, chars, if_neg hp, hi]; rfl, ?_⟩
      simp only [byteLen_cons, Nat.add_assoc, hlen]

def tokenOf (s : List α) : List α := s.takeWhile fun c => !endsToken (chr c)

def dropToken (s : List α) : List α := s.dropWhile fun c => !endsToken (chr c)

theorem tokenOf_append_dropToken (s : List α) : tokenOf s ++ dropToken s = s :=
  List.takeWhile_append_dropWhile ..

theorem findChar_endsToken (s : List α) (start : ℕ) :
    ((findChar endsToken s).map (start + ·)).getD (start + byteLen s) =
      start + byteLen (tokenOf s) := by
  induction s generalizing start with
  | nil => rfl
  | cons c s ih =>
    unfold findChar tokenOf
    by_cases hc : endsToken (chr c)
    · simp [hc]
    · have := ih (start + (chr c).utf8Size)
      simp only [hc, Bool.false_eq_true, if_false, Option.map_map, Function.comp_def,
        Bool.not_false, List.takeWhile_cons_of_pos, byteLen_cons, ← Nat.add_assoc]
      exact this

theorem replaceRange_append (a t b new : List α) :
    replaceRange (byteLen a) (byteLen a + byteLen t) new (a ++ (t ++ b)) =
      some (a ++ new ++ b) := by
  have hstop : splitBytes (byteLen a + byteLen t) (a ++ (t ++ b)) = some (a ++ t, b) := by
    rw [← byteLen_append, ← List.append_assoc]
    exact splitBytes_append (a ++ t) b
  simp [replaceRange, splitBytes_append, hstop]

/-! ## The covered line -/

/-- The line with the token after its first `Bearer ` covered. -/
def coverToken (s : List α) : List α :=
  match Words.cutAfter chr bearer s with
  | none => s
  | some (a, b) => a ++ text α "[REDACTED]" ++ dropToken b

theorem redactBearer_eq (s : List α) : redactBearer s = some (coverToken s) := by
  unfold redactBearer coverToken
  cases h : Words.cutAfter chr bearer s with
  | none => rw [findText_eq_none h]
  | some ab =>
    obtain ⟨a, b⟩ := ab
    obtain ⟨i, hi, hlen⟩ := findText_eq_some h
    obtain rfl := Words.cutAfter_append h
    rw [hi]
    simp only [hlen, splitBytes_append, Option.bind_eq_bind, Option.bind_some, byteLen_append,
      findChar_endsToken]
    rw [← replaceRange_append a (tokenOf b), tokenOf_append_dropToken]

/-! ## Words of a line -/

theorem splitWhitespace_word {w : List α} (hne : w ≠ [])
    (h : ∀ c ∈ w, isWhitespace (chr c) = false) : splitWhitespace w = [w] :=
  Words.split_word ⟨hne, h⟩

abbrev IsWord (w : List α) : Prop := Words.Word (fun c => isWhitespace (chr c)) w

theorem isWord_of_mem {s w : List α} (hw : w ∈ splitWhitespace s) : IsWord w :=
  Words.word_of_mem_split hw

theorem isWord_text_iff (s : String) :
    IsWord (text α s) ↔ Words.Word isWhitespace s.toList := by
  simp [Words.Word, text]

theorem secretWord_cases {tok : List Char} {new : String} (h : secretWord tok = some new) :
    new = "[REDACTED_JWT]" ∨ new = "[REDACTED_KEY]" ∨ new = "[REDACTED_HEX]" := by
  unfold secretWord at h
  split at h
  · exact .inl (Option.some.inj h).symm
  · split at h
    · exact .inr (.inl (Option.some.inj h).symm)
    · split at h
      · exact .inr (.inr (Option.some.inj h).symm)
      · cases h

theorem isWord_redactWord {w : List α} (h : IsWord w) : IsWord (redactWord w) := by
  unfold redactWord
  split
  · rename_i new hnew
    rw [isWord_text_iff]
    rcases secretWord_cases hnew with rfl | rfl | rfl <;>
      exact ⟨by decide +kernel, List.all_iff_forall_prop.1 (by decide +kernel)⟩
  · exact h

theorem flatMap_words {ws : List (List α)} (h : ws ≠ []) :
    ws.flatMap (fun w => w ++ [lit ' ']) = [lit ' '].intercalate ws ++ [lit ' '] := by
  induction ws with
  | nil => exact absurd rfl h
  | cons w ws ih =>
    cases ws with
    | nil => simp
    | cons v vs =>
      rw [List.flatMap_cons, ih (by simp), List.intercalate_cons_cons]
      simp only [List.append_assoc]

theorem trimText_words {ws : List (List α)} (h : ∀ w ∈ ws, IsWord w) :
    trimText (ws.flatMap fun w => w ++ [lit ' ']) = [lit ' '].intercalate ws := by
  by_cases hne : ws = []
  · subst hne
    rfl
  obtain ⟨c, t, hc, ht⟩ := Words.intercalate_start [lit ' '] hne h
  obtain ⟨d, r, hd, hr⟩ := Words.intercalate_end [lit ' '] hne h
  have hsep : isWhitespace (chr (lit ' ' : α)) = true := by simp; decide
  unfold trimText
  rw [flatMap_words hne, ht, List.cons_append, List.dropWhile_cons_of_neg (by simp [hc]),
    ← List.cons_append, List.rdropWhile_concat_pos (fun c => isWhitespace (chr c)) _ _ hsep, ← ht,
    hr, List.rdropWhile_concat_neg _ _ _ (by simp [hd])]

def redactedWords (s : List α) : List (List α) := (splitWhitespace (coverToken s)).map redactWord

theorem isWord_of_mem_redactedWords {s w : List α} (hw : w ∈ redactedWords s) : IsWord w := by
  obtain ⟨v, hv, rfl⟩ := List.mem_map.1 hw
  exact isWord_redactWord (isWord_of_mem hv)

def redactedLine (s : List α) : List α := [lit ' '].intercalate (redactedWords s)

theorem redactLine_eq (s : List α) : redactLine s = some (redactedLine s) := by
  unfold redactLine redactedLine
  rw [redactBearer_eq, ← trimText_words fun w hw => isWord_of_mem_redactedWords hw, redactedWords,
    List.flatMap_map]
  rfl

theorem redactSecrets_eq (s : List α) :
    redactSecrets s = some ([lit '\n'].intercalate ((splitLines s).map redactedLine)) := by
  have hline : (redactLine : List α → Option (List α)) = fun l => pure (redactedLine l) :=
    funext redactLine_eq
  rw [redactSecrets, hline, List.mapM_pure]
  rfl

/-! ## Marks do not matter -/

@[simp] theorem chars_append (a b : List α) : chars (a ++ b) = chars a ++ chars b := List.map_append

theorem chars_self (s : List Char) : chars s = s := List.map_id s

theorem chars_text (s : String) : chars (text α s) = s.toList := by
  simp [chars, text, Function.comp_def]

theorem text_self (s : String) : text Char s = s.toList := List.map_id _

theorem chars_coverToken (s : List α) : chars (coverToken s) = coverToken (chars s) := by
  have hcut : Words.cutAfter chr bearer (chars s) =
      (Words.cutAfter chr bearer s).map fun ab => (chars ab.1, chars ab.2) := Words.cutAfter_map ..
  unfold coverToken
  rw [hcut]
  cases Words.cutAfter chr bearer s with
  | none => rfl
  | some ab =>
    have hdrop : chars (dropToken ab.2) = dropToken (chars ab.2) := by
      unfold dropToken chars
      rw [List.dropWhile_map]
      rfl
    simp only [Option.map_some, chars_append, chars_text, text_self, hdrop]

theorem chars_redactWord (w : List α) : chars (redactWord w) = redactWord (chars w) := by
  unfold redactWord
  rw [chars_self]
  split
  · rw [chars_text, text_self]
  · rfl

theorem chars_redactedLine (s : List α) : chars (redactedLine s) = redactedLine (chars s) := by
  unfold redactedLine redactedWords splitWhitespace
  rw [chars, Words.map_intercalate, ← chars_coverToken, chars, Words.split_map, List.map_map,
    List.map_map, chr_lit]
  congr 1
  exact List.map_congr_left fun w _ => chars_redactWord w

/-- A marked text is redacted as the text is. -/
theorem chars_redactSecrets (s : List α) :
    (redactSecrets s).map chars = redactSecrets (chars s) := by
  rw [redactSecrets_eq, redactSecrets_eq, Option.map_some, splitLines, splitLines, chars, chars,
    Words.splitOnP_map, Words.map_intercalate, List.map_map, List.map_map, chr_lit]
  congr 2
  exact List.map_congr_left fun l _ => chars_redactedLine l

end SatsPay
