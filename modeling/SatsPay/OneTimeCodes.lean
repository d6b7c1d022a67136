import Mathlib.Data.Finset.Card
import SatsPay.Auth
import SatsPay.Script
import SatsPay.Traces

/-!
# One-time codes

Requests and verifications of email codes, in any interleaving: the wrong guesses that a
code is compared with, the codes that are active, and those that are accepted.
-/

namespace SatsPay

open Interleave ReadCommitted RowProtocol

abbrev Otps := Table EmailOtp

/-! ## Histories -/

section
variable (E : AuthEnv)

def admits (i : Uuid) : Event (sig authStore) → Prop
  | .did _ (.pool (.findActiveOtp _ _ _)) (.ok (some otp)) =>
    otp.id = i ∧ (otp.attempts : ℤ) < E.config.otpMaxAttempts
  | _ => False

instance (i : Uuid) (e : Event (sig authStore)) : Decidable (admits E i e) := by
  unfold admits
  split <;> infer_instance

def compares (i : Uuid) : Event (sig authStore) → Bool
  | .did _ (.call (.verifyPassword _ otp)) _ => otp.id == i
  | _ => false

def wrongGuess (i : Uuid) : Event (sig authStore) → Bool
  | .did _ (.call (.verifyPassword _ otp)) ok => otp.id == i && !ok
  | _ => false

def countsGuess (i : Uuid) : Event (sig authStore) → Bool
  | .did _ (.pool (.incrementOtpAttempts otpId)) (.ok _) => otpId == i
  | _ => false

def acceptsOtp (i : Uuid) : Event (sig authStore) → Bool
  | .did _ (.pool (.claimOtp otpId _)) (.ok n) => otpId == i && n == 1
  | _ => false

def stops : Event (sig authStore) → Bool
  | .crashed _ | .ended _ => true
  | _ => false

/-- Those that have read the code with attempts left and not compared a guess yet. -/
def readers (i : Uuid) : Hist (sig authStore) → Finset ℕ
  | [] => ∅
  | e :: h =>
    if admits E i e then insert (e.pid.getD 0) (readers i h)
    else if compares i e || stops e then (readers i h).erase (e.pid.getD 0)
    else readers i h

def guessers (i : Uuid) : Hist (sig authStore) → Finset ℕ
  | [] => ∅
  | e :: h =>
    if wrongGuess i e then insert (e.pid.getD 0) (guessers i h)
    else if countsGuess i e then (guessers i h).erase (e.pid.getD 0)
    else guessers i h

end

def scanned (userId : Uuid) (purpose : OtpPurpose) (t : List (Did (sig authStore))) : Prop :=
  ∃ found, ⟨.tx (.scanOtps userId purpose), .ok found⟩ ∈ t

def rotates (userId : Uuid) (purpose : OtpPurpose) (h : Hist (sig authStore)) :
    Event (sig authStore) → Prop
  | .did p .commit (.ok _) => scanned userId purpose (doneBy p h)
  | _ => False

def scansAs (p : Nat) : Event (sig authStore) → Prop
  | .did q (.tx (.scanOtps _ _)) _ => q = p
  | _ => False

/-- A rotation of these codes has committed since `p` looked for those to consume. -/
def rotatedSince (p : Nat) (userId : Uuid) (purpose : OtpPurpose) : Hist (sig authStore) → Prop
  | [] => False
  | e :: h => ¬ scansAs p e ∧ (rotates userId purpose h e ∨ rotatedSince p userId purpose h)

section
variable (E : AuthEnv)

/-- A code is read with more attempts left than there are guesses under way, and a rotation
commits with none committed since it looked. -/
def Unhurried (_ : AuthDb) (h : Hist (sig authStore)) (e : Event (sig authStore)) : Prop :=
  (∀ p userId purpose now otp,
    e = .did p (.pool (.findActiveOtp userId purpose now)) (.ok (some otp)) →
    (otp.attempts : ℤ) < E.config.otpMaxAttempts →
    (otp.attempts + (guessers otp.id h).card + (readers E otp.id h).card : ℤ) <
      E.config.otpMaxAttempts) ∧
  ∀ p userId purpose, e = .did p .commit (.ok ()) → scanned userId purpose (doneBy p h) →
    ¬ rotatedSince p userId purpose h

end

section
variable {E : AuthEnv} {p : Nat} {i : Uuid} {e : Event (sig authStore)} {h h' : Hist (sig authStore)}

theorem pid_of_admits (he : admits E i e) : ∃ q, e.pid = some q := by
  unfold admits at he
  split at he
  · exact ⟨_, rfl⟩
  · exact he.elim

theorem pid_of_compares (he : compares i e = true) : ∃ q, e.pid = some q := by
  unfold compares at he
  split at he
  · exact ⟨_, rfl⟩
  · cases he

theorem pid_of_stops (he : stops e = true) : ∃ q, e.pid = some q := by
  cases e with
  | crashed q | ended q => exact ⟨q, rfl⟩
  | _ => cases he

theorem compares_of_wrong (he : wrongGuess i e = true) : compares i e = true := by
  unfold wrongGuess at he
  split at he
  · exact (Bool.and_eq_true_iff.1 he).1
  · cases he

theorem pid_of_counts (he : countsGuess i e = true) : ∃ q, e.pid = some q := by
  unfold countsGuess at he
  split at he
  · exact ⟨_, rfl⟩
  · cases he

theorem mem_readers_other (he : e.pid ≠ some p) :
    p ∈ readers E i (e :: h) ↔ p ∈ readers E i h := by
  have ne : ∀ {q}, e.pid = some q → p ≠ e.pid.getD 0 := by
    rintro q hq rfl
    rw [hq] at he
    exact he rfl
  rw [readers]
  split
  · rename_i ha
    obtain ⟨q, hq⟩ := pid_of_admits ha
    simp [ne hq]
  · split
    · rename_i hs
      obtain ⟨q, hq⟩ : ∃ q, e.pid = some q :=
        (Bool.or_eq_true_iff.1 hs).elim pid_of_compares pid_of_stops
      simp [ne hq]
    · exact Iff.rfl

theorem mem_guessers_other (he : e.pid ≠ some p) :
    p ∈ guessers i (e :: h) ↔ p ∈ guessers i h := by
  have ne : ∀ {q}, e.pid = some q → p ≠ e.pid.getD 0 := by
    rintro q hq rfl
    rw [hq] at he
    exact he rfl
  rw [guessers]
  split
  · rename_i hw
    obtain ⟨q, hq⟩ := pid_of_compares (compares_of_wrong hw)
    simp [ne hq]
  · split
    · rename_i hc
      obtain ⟨q, hq⟩ := pid_of_counts hc
      simp [ne hq]
    · exact Iff.rfl

/-- What others do is nothing to what `p` is at. -/
theorem atCodes_of_ext (hx : ReadCommitted.Ext authStore p h h') :
    (p ∈ readers E i h' ↔ p ∈ readers E i h) ∧ (p ∈ guessers i h' ↔ p ∈ guessers i h) := by
  obtain ⟨l, rfl, hl⟩ := hx
  induction l with
  | nil => exact ⟨Iff.rfl, Iff.rfl⟩
  | cons e l ih =>
    obtain ⟨he, hl⟩ := List.forall_mem_cons.1 hl
    obtain ⟨h₁, h₂⟩ := ih hl
    exact ⟨(mem_readers_other he).trans h₁, (mem_guessers_other he).trans h₂⟩

/-- A process that has done nothing is at nothing. -/
theorem not_mem_of_unborn (hu : ∀ e ∈ h, e.pid ≠ some p) :
    p ∉ readers E i h ∧ p ∉ guessers i h := by
  induction h with
  | nil => exact ⟨by simp [readers], by simp [guessers]⟩
  | cons e h ih =>
    obtain ⟨he, hu⟩ := List.forall_mem_cons.1 hu
    exact ⟨mt (mem_readers_other he).1 (ih hu).1, mt (mem_guessers_other he).1 (ih hu).2⟩

theorem not_rotatedSince_of_ne {userId : Uuid} {purpose : OtpPurpose} (he : e.pid ≠ some p)
    (hn : ¬ rotatedSince p userId purpose (e :: h)) :
    ¬ rotates userId purpose h e ∧ ¬ rotatedSince p userId purpose h := by
  have hs : ¬ scansAs p e := by
    intro hs
    unfold scansAs at hs
    split at hs
    · exact he (congrArg some hs)
    · exact hs
  exact not_or.1 fun h' => hn ⟨hs, h'⟩

end

/-! ## The invariant -/

def triesOf (otps : Otps) (i : Uuid) : ℕ := ((otps.lookup i).map EmailOtp.attempts).getD 0

def ActiveOtp (otps : Otps) (userId : Uuid) (purpose : OtpPurpose) (i : Uuid) : Prop :=
  ∃ o, otps.lookup i = some o ∧ o.userId = userId ∧ o.purpose = purpose ∧ o.consumedAt = none

def OneActive (otps : Otps) : Prop :=
  ∀ userId purpose i j, ActiveOtp otps userId purpose i → ActiveOtp otps userId purpose j → i = j

structure Guesses (E : AuthEnv) (i : Uuid) (otps : Otps) (h : Hist (sig authStore)) : Prop where
  counted : h.countP (wrongGuess i) ≤ triesOf otps i + (guessers i h).card
  room : 0 < h.countP (wrongGuess i) + (readers E i h).card →
    (triesOf otps i + (guessers i h).card + (readers E i h).card : ℤ) ≤ E.config.otpMaxAttempts

structure OtpInv (E : AuthEnv) (otps : Otps) (h : Hist (sig authStore)) : Prop where
  guesses : ∀ i, Guesses E i otps h
  accepted : ∀ i, h.countP (acceptsOtp i) ≤ 1
  spent : ∀ i, 0 < h.countP (acceptsOtp i) → ∃ o, otps.lookup i = some o ∧ o.consumedAt ≠ none
  active : OneActive otps

/-- What `p` may rely on: no code goes away, and none becomes active while nobody rotates. -/
structure OtpRel (p : Nat) (otps : Otps) (h : Hist (sig authStore)) (otps' : Otps)
    (h' : Hist (sig authStore)) : Prop where
  kept : ∀ i, otps.lookup i ≠ none → otps'.lookup i ≠ none
  still : ∀ userId purpose, ¬ rotatedSince p userId purpose h' →
    ¬ rotatedSince p userId purpose h ∧
      ∀ i, ActiveOtp otps' userId purpose i → ActiveOtp otps userId purpose i

structure OtpIdle (E : AuthEnv) (e : Event (sig authStore)) : Prop where
  admits : ∀ i, ¬ admits E i e
  compares : ∀ i, compares i e = false
  counts : ∀ i, countsGuess i e = false
  accepts : ∀ i, acceptsOtp i e = false
  rotates : ∀ userId purpose h, ¬ rotates userId purpose h e

section
variable {E : AuthEnv} {p q : Nat} {i : Uuid} {e : Event (sig authStore)}
  {h h' : Hist (sig authStore)} {otps otps' : Otps}

theorem wrong_of_compares (he : compares i e = false) : wrongGuess i e = false := by
  rw [← Bool.not_eq_true]
  exact fun hw => by
    rw [compares_of_wrong hw] at he
    cases he

theorem OtpIdle.readers_subset (hi : OtpIdle E e) : readers E i (e :: h) ⊆ readers E i h := by
  rw [readers, if_neg (hi.admits i)]
  split
  · exact Finset.erase_subset _ _
  · exact Finset.Subset.refl _

theorem OtpIdle.guessers (hi : OtpIdle E e) : SatsPay.guessers i (e :: h) = SatsPay.guessers i h := by
  rw [SatsPay.guessers, wrong_of_compares (hi.compares i), hi.counts i]
  rfl

theorem Guesses.idle (hg : Guesses E i otps h) (hi : OtpIdle E e) (ht : triesOf otps' i = triesOf otps i) :
    Guesses E i otps' (e :: h) := by
  have hc := Finset.card_le_card (hi.readers_subset (i := i) (h := h))
  have hw : (e :: h).countP (wrongGuess i) = h.countP (wrongGuess i) :=
    List.countP_cons_of_neg (by simp [wrong_of_compares (hi.compares i)])
  obtain ⟨h₁, h₂⟩ := hg
  refine ⟨?_, fun hpos => ?_⟩
  · rw [hw, ht, hi.guessers]
    exact h₁
  · rw [ht, hi.guessers]
    rw [hw] at hpos
    have := h₂ (by omega)
    omega

theorem OtpInv.idle (hw : OtpInv E otps h) (hi : OtpIdle E e) : OtpInv E otps (e :: h) := by
  have ha : ∀ i, (e :: h).countP (acceptsOtp i) = h.countP (acceptsOtp i) := fun i =>
    List.countP_cons_of_neg (by simp [hi.accepts i])
  exact ⟨fun i => (hw.guesses i).idle hi rfl, fun i => (ha i).trans_le (hw.accepted i),
    fun i hp => hw.spent i ((ha i) ▸ hp), hw.active⟩

theorem OtpRel.refl : OtpRel p otps h otps h := ⟨fun _ => id, fun _ _ hn => ⟨hn, fun _ => id⟩⟩

theorem OtpRel.trans {otps₁ otps₂ otps₃ : Otps} {h₁ h₂ h₃ : Hist (sig authStore)}
    (ha : OtpRel p otps₁ h₁ otps₂ h₂) (hb : OtpRel p otps₂ h₂ otps₃ h₃) :
    OtpRel p otps₁ h₁ otps₃ h₃ where
  kept i hi := hb.kept i (ha.kept i hi)
  still u pp hn :=
    have hb' := hb.still u pp hn
    have ha' := ha.still u pp hb'.1
    ⟨ha'.1, fun i hi => ha'.2 i (hb'.2 i hi)⟩

/-- A step that makes no code active. -/
theorem OtpRel.of_other (he : e.pid ≠ some q) (hk : ∀ i, otps.lookup i ≠ none → otps'.lookup i ≠ none)
    (ha : ∀ userId purpose i, ActiveOtp otps' userId purpose i → ActiveOtp otps userId purpose i) :
    OtpRel q otps h otps' (e :: h) :=
  ⟨hk, fun _ _ hn => ⟨(not_rotatedSince_of_ne he hn).2, fun i => ha _ _ i⟩⟩

theorem OtpRel.same (he : e.pid ≠ some q) : OtpRel q otps h otps (e :: h) :=
  .of_other he (fun _ => id) fun _ _ _ => id

end

/-- Begins, rollbacks, statements of a transaction and failed commits. -/
inductive OtpQuiet : Event (sig authStore) → Prop
  | begin (p : Nat) (r : Except DbError Unit) : OtpQuiet (.did p .begin r)
  | rollback (p : Nat) : OtpQuiet (.did p .rollback ())
  | tx (p : Nat) (st : AuthStmt) (r : Except DbError st.Ans) : OtpQuiet (.did p (.tx st) r)
  | commit (p : Nat) (e : DbError) : OtpQuiet (.did p .commit (.error e))

theorem OtpQuiet.idle {E : AuthEnv} {e : Event (sig authStore)} (he : OtpQuiet e) : OtpIdle E e := by
  cases he <;> exact ⟨fun _ => id, fun _ => rfl, fun _ => rfl, fun _ => rfl, fun _ _ _ => id⟩

theorem OtpQuiet.stops {e : Event (sig authStore)} (he : OtpQuiet e) : stops e = false := by
  cases he <;> rfl

theorem otpIdle_stops {E : AuthEnv} {e : Event (sig authStore)}
    (he : (∃ p, e = .crashed p ∨ e = .ended p) ∨ e = .ticked) : OtpIdle E e := by
  rcases he with ⟨p, rfl | rfl⟩ | rfl <;>
    exact ⟨fun _ => id, fun _ => rfl, fun _ => rfl, fun _ => rfl, fun _ _ _ => id⟩

def otpProtocol (E : AuthEnv) : RowProtocol authStore (Unhurried E) where
  inv db h := OtpInv E db.emailOtps h
  rel p db h db' h' := OtpRel p db.emailOtps h db'.emailOtps h'
  done _ _ _ := True
  quiet := OtpQuiet
  rel_refl _ _ _ := .refl
  rel_trans _ _ _ _ _ _ _ := .trans
  quiet_begin := .begin
  quiet_rollback := .rollback
  quiet_tx := .tx
  quiet_commit := .commit
  inv_quiet hq hi := hi.idle hq.idle
  rel_quiet _ _ he := .same he
  finish hi _ _ := ⟨hi.idle (otpIdle_stops (.inl ⟨_, .inr rfl⟩)), fun q hq =>
    .same (by simpa using Ne.symm hq)⟩
  crash hi _ := ⟨hi.idle (otpIdle_stops (.inl ⟨_, .inl rfl⟩)), fun q hq =>
    .same (by simpa using Ne.symm hq)⟩
  env := by
    rintro db _ h hi ⟨t, -, rfl⟩ -
    exact ⟨hi.idle (otpIdle_stops (.inr rfl)), fun q => .same (by simp)⟩

/-! ## Steps of a verification -/

section
variable {E : AuthEnv} {p : Nat} {i : Uuid} {h : Hist (sig authStore)} {db : AuthDb}
  {otps otps' : Otps}

/-- The row found is in the table. -/
theorem latest_row {l : List (Uuid × EmailOtp)} {otp : EmailOtpRow} (h : some otp ∈ latest l) :
    ∃ o, (otp.id, o) ∈ l ∧ otp = o.row otp.id := by
  unfold latest at h
  split at h
  · cases List.mem_singleton.1 h
  · obtain ⟨o, ho, he⟩ := List.mem_map.1 h
    cases he
    exact ⟨o.2, List.mem_of_mem_filter ho, rfl⟩

theorem lookup_of_otpsWhere {f : EmailOtp → Bool} {o : Uuid × EmailOtp} (h : o ∈ db.otpsWhere f) :
    db.emailOtps.lookup o.1 = some o.2 ∧ f o.2 = true := by
  obtain ⟨hm, hf⟩ := List.mem_filter.1 h
  obtain ⟨o', ho', rfl⟩ := List.mem_map.1 hm
  exact ⟨AList.mem_lookup_iff.2 ho', hf⟩

theorem findActiveOtp_ok {userId : Uuid} {purpose : OtpPurpose} {now : Timestamp}
    {found : Option EmailOtpRow} {ws : List AuthWrite}
    (he : .ok (found, ws) ∈ AuthStmt.eval (.findActiveOtp userId purpose now) db) :
    ws = [] ∧ ∀ otp, found = some otp →
      ∃ o, db.emailOtps.lookup otp.id = some o ∧ otp = o.row otp.id := by
  obtain ⟨r, hr, heq⟩ := List.mem_map.1 he
  cases heq
  refine ⟨rfl, ?_⟩
  rintro otp rfl
  obtain ⟨o, ho, hrow⟩ := latest_row hr
  exact ⟨o, (lookup_of_otpsWhere ho).1, hrow⟩

/-- A code is read by a process that is at nothing. -/
theorem OtpInv.find {userId : Uuid} {purpose : OtpPurpose} {now : Timestamp} {otp : EmailOtpRow}
    (hw : OtpInv E otps h) (ho : triesOf otps otp.id = otp.attempts)
    (hcond : Unhurried E db h (.did p (.pool (.findActiveOtp userId purpose now)) (.ok (some otp)))) :
    OtpInv E otps (.did p (.pool (.findActiveOtp userId purpose now)) (.ok (some otp)) :: h) := by
  refine ⟨fun i => ?_, hw.accepted, hw.spent, hw.active⟩
  obtain ⟨h₁, h₂⟩ := hw.guesses i
  refine ⟨h₁, ?_⟩
  show 0 < h.countP (wrongGuess i) + Finset.card (ite _ _ _) →
    (triesOf otps i + (guessers i h).card + (Finset.card (ite _ _ _) : ℕ) : ℤ) ≤ _
  split
  · rename_i ha
    obtain ⟨rfl, hlt⟩ := ha
    intro _
    have hc := hcond.1 p userId purpose now otp rfl hlt
    have hins := Finset.card_insert_le p (readers E otp.id h)
    rw [ho]
    show ((otp.attempts : ℤ) + (guessers otp.id h).card + ((insert p (readers E otp.id h)).card : ℤ)) ≤ _
    omega
  · exact h₂

/-- A guess is compared by a process that has read the code. -/
theorem OtpInv.compare {code : String} {otp : EmailOtpRow} {ok : Bool} (hw : OtpInv E otps h)
    (hr : p ∈ readers E otp.id h) (hg : p ∉ guessers otp.id h) :
    OtpInv E otps (.did p (.call (.verifyPassword code otp)) ok :: h) := by
  refine ⟨fun i => ?_, hw.accepted, hw.spent, hw.active⟩
  by_cases hi : otp.id = i
  · subst hi
    obtain ⟨h₁, h₂⟩ := hw.guesses otp.id
    have hcard := Finset.card_erase_add_one hr
    have hreaders : readers E otp.id (.did p (.call (.verifyPassword code otp)) ok :: h) =
        (readers E otp.id h).erase p := by simp [readers, admits, compares]
    have hpos := Finset.card_pos.2 ⟨p, hr⟩
    have hroom := h₂ (by omega)
    cases ok with
    | true =>
      have hguess : guessers otp.id (.did p (.call (.verifyPassword code otp)) true :: h) =
          guessers otp.id h := by simp [guessers, wrongGuess, countsGuess]
      have hcount : (.did p (.call (.verifyPassword code otp)) true :: h : Hist (sig authStore)).countP
          (wrongGuess otp.id) = h.countP (wrongGuess otp.id) :=
        List.countP_cons_of_neg (by simp [wrongGuess])
      refine ⟨by rw [hcount, hguess]; exact h₁, fun _ => ?_⟩
      rw [hguess, hreaders]
      omega
    | false =>
      have hguess : guessers otp.id (.did p (.call (.verifyPassword code otp)) false :: h) =
          insert p (guessers otp.id h) := by simp [guessers, wrongGuess]
      have hcount : (.did p (.call (.verifyPassword code otp)) false :: h : Hist (sig authStore)).countP
          (wrongGuess otp.id) = h.countP (wrongGuess otp.id) + 1 :=
        List.countP_cons_of_pos (by simp [wrongGuess])
      have hins := Finset.card_insert_of_notMem hg
      refine ⟨by rw [hcount, hguess]; omega, fun _ => ?_⟩
      rw [hguess, hreaders]
      omega
  · have hreaders : readers E i (.did p (.call (.verifyPassword code otp)) ok :: h) =
        readers E i h := by simp [readers, admits, compares, stops, hi]
    have hguess : guessers i (.did p (.call (.verifyPassword code otp)) ok :: h) =
        guessers i h := by simp [guessers, wrongGuess, countsGuess, hi]
    have hcount : (.did p (.call (.verifyPassword code otp)) ok :: h : Hist (sig authStore)).countP
        (wrongGuess i) = h.countP (wrongGuess i) :=
      List.countP_cons_of_neg (by simp [wrongGuess, hi])
    obtain ⟨h₁, h₂⟩ := hw.guesses i
    exact ⟨by rw [hcount, hguess]; exact h₁, by rw [hcount, hguess, hreaders]; exact h₂⟩

/-- A row is changed, and is no less consumed. -/
theorem activeOtp_insert {i j : Uuid} {o o' : EmailOtp} {userId : Uuid} {purpose : OtpPurpose}
    (hi : otps.lookup i = some o) (hu : o'.userId = o.userId) (hp : o'.purpose = o.purpose)
    (hc : o'.consumedAt = none → o.consumedAt = none)
    (ha : ActiveOtp (otps.insert i o') userId purpose j) : ActiveOtp otps userId purpose j := by
  obtain ⟨r, hr, h₁, h₂, h₃⟩ := ha
  by_cases h : j = i
  · subst h
    cases (AList.lookup_insert _).symm.trans hr
    exact ⟨o, hi, hu ▸ h₁, hp ▸ h₂, hc h₃⟩
  · exact ⟨r, (AList.lookup_insert_ne h).symm.trans hr, h₁, h₂, h₃⟩

theorem oneActive_of_subset (ho : OneActive otps)
    (h : ∀ userId purpose i, ActiveOtp otps' userId purpose i → ActiveOtp otps userId purpose i) :
    OneActive otps' :=
  fun u pp i j hi hj => ho u pp i j (h u pp i hi) (h u pp j hj)

theorem kept_insert {i : Uuid} {o' : EmailOtp} (j : Uuid) (hj : otps.lookup j ≠ none) :
    (otps.insert i o').lookup j ≠ none := by
  by_cases h : j = i
  · subst h
    rw [AList.lookup_insert]
    exact fun h => nomatch h
  · rwa [AList.lookup_insert_ne h]

theorem triesOf_insert_ne {i j : Uuid} {o' : EmailOtp} (h : j ≠ i) :
    triesOf (otps.insert i o') j = triesOf otps j := by
  unfold triesOf
  rw [AList.lookup_insert_ne h]

/-- A wrong guess is counted by the process that has made it. -/
theorem OtpInv.increment {o : EmailOtp} (hw : OtpInv E otps h) (hi : otps.lookup i = some o)
    (hg : p ∈ guessers i h) :
    OtpInv E (otps.insert i { o with attempts := o.attempts + 1 })
      (.did p (.pool (.incrementOtpAttempts i)) (.ok ()) :: h) := by
  have hcount : ∀ j, (.did p (.pool (.incrementOtpAttempts i)) (.ok ()) :: h : Hist (sig authStore)).countP
      (wrongGuess j) = h.countP (wrongGuess j) := fun j =>
    List.countP_cons_of_neg (by simp [wrongGuess])
  have hreaders : ∀ j, readers E j (.did p (.pool (.incrementOtpAttempts i)) (.ok ()) :: h) =
      readers E j h := fun j => by simp [readers, admits, compares, stops]
  refine ⟨fun j => ?_, hw.accepted, fun j hj => ?_, oneActive_of_subset hw.active fun _ _ _ =>
    activeOtp_insert hi rfl rfl id⟩
  · obtain ⟨h₁, h₂⟩ := hw.guesses j
    by_cases hj : j = i
    · subst hj
      have hguess : guessers j (.did p (.pool (.incrementOtpAttempts j)) (.ok ()) :: h) =
          (guessers j h).erase p := by simp [guessers, wrongGuess, countsGuess]
      have htries : triesOf (otps.insert j { o with attempts := o.attempts + 1 }) j =
          triesOf otps j + 1 := by simp [triesOf, hi]
      have hcard := Finset.card_erase_add_one hg
      refine ⟨?_, fun hpos => ?_⟩
      · rw [hcount, hguess, htries]
        omega
      · rw [hcount, hreaders] at hpos
        have := h₂ hpos
        rw [hguess, htries, hreaders]
        omega
    · have hguess : guessers j (.did p (.pool (.incrementOtpAttempts i)) (.ok ()) :: h) =
          guessers j h := by simp [guessers, wrongGuess, countsGuess, Ne.symm hj]
      refine ⟨?_, ?_⟩
      · rw [hcount, hguess, triesOf_insert_ne hj]
        exact h₁
      · rw [hcount, hguess, hreaders, triesOf_insert_ne hj]
        exact h₂
  · obtain ⟨o', ho', hc⟩ := hw.spent j hj
    by_cases h : j = i
    · subst h
      cases hi.symm.trans ho'
      exact ⟨_, AList.lookup_insert _, hc⟩
    · exact ⟨o', (AList.lookup_insert_ne h).trans ho', hc⟩

/-- A code is consumed. -/
theorem OtpInv.claim {o o' : EmailOtp} {now : Timestamp} (hw : OtpInv E otps h)
    (hi : otps.lookup i = some o) (ho : o.consume now = some o') :
    OtpInv E (otps.insert i o') (.did p (.pool (.claimOtp i now)) (.ok (1 : ℕ)) :: h) := by
  unfold EmailOtp.consume at ho
  split at ho
  · rename_i hn
    cases ho
    have hidle : ∀ j, Guesses E j (otps.insert i { o with consumedAt := some now })
        (.did p (.pool (.claimOtp i now)) (.ok (1 : ℕ)) :: h) := fun j => by
      obtain ⟨h₁, h₂⟩ := hw.guesses j
      have htries : triesOf (otps.insert i { o with consumedAt := some now }) j = triesOf otps j := by
        by_cases hj : j = i
        · subst hj
          simp [triesOf, hi]
        · exact triesOf_insert_ne hj
      refine ⟨?_, ?_⟩
      · rw [htries]
        exact h₁
      · rw [htries]
        exact h₂
    have hne : ∀ j, j ≠ i → (.did p (.pool (.claimOtp i now)) (.ok (1 : ℕ)) :: h : Hist (sig authStore)).countP
        (acceptsOtp j) = h.countP (acceptsOtp j) := fun j hj =>
      List.countP_cons_of_neg (by simp [acceptsOtp, Ne.symm hj])
    refine ⟨hidle, fun j => ?_, fun j hj => ?_, oneActive_of_subset hw.active fun _ _ _ =>
      activeOtp_insert hi rfl rfl fun h => (nomatch h)⟩
    · by_cases hj : j = i
      · subst hj
        have h₀ : h.countP (acceptsOtp j) = 0 := Nat.eq_zero_of_not_pos fun hpos => by
          obtain ⟨r, hr, hc⟩ := hw.spent j hpos
          cases hi.symm.trans hr
          exact hc hn
        rw [List.countP_cons_of_pos (by simp [acceptsOtp]), h₀]
      · rw [hne j hj]
        exact hw.accepted j
    · by_cases h : j = i
      · subst h
        exact ⟨_, AList.lookup_insert _, fun h => nomatch h⟩
      · rw [hne j h] at hj
        obtain ⟨r, hr, hc⟩ := hw.spent j hj
        exact ⟨r, (AList.lookup_insert_ne h).trans hr, hc⟩
  · cases ho

end

/-! ## Programs -/

section
variable (E : AuthEnv) (p : Nat)

abbrev OtpTriple {α : Type} (A : AuthDb → Hist (sig authStore) → Prop) (c : AuthCode AuthError α)
    (B : α → AuthDb → Hist (sig authStore) → Prop) : Prop :=
  (otpProtocol E).toProtocol.Triple p (Idle p A) c
    (outcome (fun a => Idle p (B a)) fun _ => Idle p fun _ _ => True)

def AtNothing : AuthDb → Hist (sig authStore) → Prop :=
  fun _ h => ∀ i, p ∉ readers E i h ∧ p ∉ guessers i h

def HasRead (otp : EmailOtpRow) : AuthDb → Hist (sig authStore) → Prop := fun db h =>
  ((otp.attempts : ℤ) < E.config.otpMaxAttempts → p ∈ readers E otp.id h) ∧
    p ∉ guessers otp.id h ∧ db.emailOtps.lookup otp.id ≠ none

def HasGuessed (i : Uuid) : AuthDb → Hist (sig authStore) → Prop := fun db h =>
  p ∈ guessers i h ∧ db.emailOtps.lookup i ≠ none

end

section
variable {E : AuthEnv} {p : Nat} {α β : Type} {A : AuthDb → Hist (sig authStore) → Prop}

theorem stable_atNothing : (otpProtocol E).Stable p (AtNothing E p) :=
  fun _ _ _ _ ha _ hx _ i => ⟨mt (atCodes_of_ext hx).1.1 (ha i).1, mt (atCodes_of_ext (E := E) hx).2.1 (ha i).2⟩

theorem stable_hasRead (otp : EmailOtpRow) : (otpProtocol E).Stable p (HasRead E p otp) :=
  fun _ _ _ _ ⟨h₁, h₂, h₃⟩ hr hx _ => ⟨fun h => (atCodes_of_ext hx).1.2 (h₁ h),
    mt (atCodes_of_ext (E := E) hx).2.1 h₂, hr.kept _ h₃⟩

theorem stable_hasGuessed (i : Uuid) : (otpProtocol E).Stable p (HasGuessed p i) :=
  fun _ _ _ _ ⟨h₁, h₂⟩ hr hx _ => ⟨(atCodes_of_ext (E := E) hx).2.2 h₁, hr.kept _ h₂⟩

theorem otpTriple_bind {c : AuthCode AuthError α} {f : α → AuthCode AuthError β}
    {B : α → AuthDb → Hist (sig authStore) → Prop} {C : β → AuthDb → Hist (sig authStore) → Prop}
    (hc : OtpTriple E p A c B) (hf : ∀ a, OtpTriple E p (B a) (f a) C) :
    OtpTriple E p A (c.bind f) C := .bind hc hf fun _ _ _ h => h

theorem otpTriple_ret (a : α) : OtpTriple E p A (.ret a) fun _ _ _ => True :=
  .ret fun _ _ h => ⟨h.1, trivial⟩

theorem otpTriple_throw (e : AuthError) : OtpTriple E p A (.throw e : AuthCode AuthError α)
    fun _ _ _ => True := .throw fun _ _ h => ⟨h.1, trivial⟩

theorem otpIdle_error (p : Nat) (st : AuthStmt) (e : DbError) :
    OtpIdle E (.did p (.pool st) (.error e)) := by
  cases st <;> exact ⟨fun _ => id, fun _ => rfl, fun _ => rfl, fun _ => rfl, fun _ _ _ => id⟩

theorem otpIdle_call {c : AuthCall} (hc : ∀ code otp, c ≠ .verifyPassword code otp)
    (r : AuthCall.Reply c) : OtpIdle E (.did p (.call c) r) := by
  cases c with
  | verifyPassword code otp => exact absurd rfl (hc code otp)
  | _ => exact ⟨fun _ => id, fun _ => rfl, fun _ => rfl, fun _ => rfl, fun _ _ _ => id⟩

/-- The step of `p` is nothing to the codes. -/
theorem OtpIdle.step {e : Event (sig authStore)} (hi : OtpIdle E e) (he : e.pid = some p)
    {db : AuthDb} {h : Hist (sig authStore)} (hw : OtpInv E db.emailOtps h) :
    OtpInv E db.emailOtps (e :: h) ∧
      ∀ q, q ≠ p → OtpRel q db.emailOtps h db.emailOtps (e :: h) :=
  ⟨hw.idle hi, fun q hq => .same (by simp [he, Ne.symm hq])⟩

theorem OtpIdle.atNothing {e : Event (sig authStore)} (hi : OtpIdle E e) {db : AuthDb}
    {h : Hist (sig authStore)} (ha : AtNothing E p db h) : AtNothing E p db (e :: h) := fun i =>
  ⟨fun hr => (ha i).1 (hi.readers_subset hr), by
    rw [hi.guessers]
    exact (ha i).2⟩

theorem otpTriple_call {cl : AuthCall} (hcl : ∀ code otp, cl ≠ .verifyPassword code otp)
    (hA : (otpProtocol E).Stable p A)
    (hown : ∀ e db h, OtpIdle E e → A db h → A db (e :: h)) :
    OtpTriple E p A (authCall cl) fun _ => A :=
  .conseq (triple_invoke (ε := AuthError) (S := authStore) cl (A := A) (B := fun _ => A)
      (fun _ => hA)
      fun _ _ r hw ha _ => ⟨(otpIdle_call hcl r).step rfl hw, hown _ _ _ (otpIdle_call hcl r) ha⟩)
    (fun _ _ h => h) fun r _ _ h => by
      cases r with
      | ok a => exact h
      | error e => exact h.elim

theorem otpTriple_callFirst {cl : AuthCall} (hcl : ∀ code otp, cl ≠ .verifyPassword code otp) :
    OtpTriple E p (AtNothing E p) (authCall cl) fun _ => AtNothing E p :=
  otpTriple_call hcl stable_atNothing fun _ _ _ hi ha => hi.atNothing ha

/-- A statement on its own, by what it does where it goes through. -/
theorem otpTriple_pool {st : AuthStmt} {B : st.Ans → AuthDb → Hist (sig authStore) → Prop}
    (hB : ∀ a, (otpProtocol E).Stable p (B a))
    (hok : ∀ db h a ws, OtpInv E db.emailOtps h → A db h → .ok (a, ws) ∈ AuthStmt.eval st db →
      Unhurried E db h (.did p (.pool st) (.ok a)) →
      ((∀ w ∈ ws, ∀ k ∈ w.touches, k ∈ st.locks db) ∧
        OtpInv E (applyAll (S := authStore) ws db).emailOtps (.did p (.pool st) (.ok a) :: h) ∧
        ∀ q, q ≠ p → OtpRel q db.emailOtps h (applyAll (S := authStore) ws db).emailOtps
          (.did p (.pool st) (.ok a) :: h)) ∧
      B a (applyAll (S := authStore) ws db) (.did p (.pool st) (.ok a) :: h)) :
    OtpTriple E p A (authPool st) B :=
  triple_poolQuery (S := authStore) st hB (fun _ => RowProtocol.stable_true) hok
    fun _ _ e hw _ _ _ => ⟨(otpIdle_error p st e).step rfl hw, trivial⟩

theorem otpTriple_read {st : AuthStmt} (hst : ∀ a, OtpIdle E (.did p (.pool st) (.ok a)))
    (hr : ∀ db a ws, .ok (a, ws) ∈ AuthStmt.eval st db → ws = []) :
    OtpTriple E p (AtNothing E p) (authPool st) fun _ => AtNothing E p := by
  refine otpTriple_pool (fun _ => stable_atNothing) fun db h a ws hw ha he _ => ?_
  obtain rfl := hr db a ws he
  exact ⟨⟨by simp, (hst a).step rfl hw⟩, (hst a).atNothing ha⟩

theorem otpTriple_claim (i : Uuid) (now : Timestamp) :
    OtpTriple E p A (authPool (.claimOtp i now)) fun _ _ _ => True := by
  refine otpTriple_pool (fun _ => RowProtocol.stable_true) fun db h n ws hw _ he _ => ?_
  simp only [AuthStmt.eval] at he
  split at he
  · rename_i o' ho
    cases List.mem_singleton.1 he
    obtain ⟨o, hi, hc⟩ := Option.bind_eq_some_iff.1 ho
    refine ⟨⟨by simp [AuthWrite.touches, AuthStmt.locks], hw.claim hi hc, fun q hq =>
      .of_other (by simpa using Ne.symm hq) (fun j => kept_insert j) fun _ _ _ => ?_⟩, trivial⟩
    unfold EmailOtp.consume at hc
    split at hc
    · cases hc
      exact activeOtp_insert hi rfl rfl fun h => absurd h (by simp)
    · cases hc
  · cases List.mem_singleton.1 he
    have hidle : OtpIdle E (.did p (.pool (.claimOtp i now)) (.ok (0 : ℕ))) :=
      ⟨fun _ => id, fun _ => rfl, fun _ => rfl, fun _ => Bool.and_false _, fun _ _ _ => id⟩
    exact ⟨⟨by simp, hidle.step rfl hw⟩, trivial⟩

theorem otpTriple_find (userId : Uuid) (purpose : OtpPurpose) (now : Timestamp) :
    OtpTriple E p (AtNothing E p) (authPool (.findActiveOtp userId purpose now)) fun found db h =>
      ∀ otp, found = some otp → HasRead E p otp db h := by
  refine otpTriple_pool (fun found db h db' h' hf hr hx hi otp heq =>
    stable_hasRead otp _ _ _ _ (hf otp heq) hr hx hi) fun db h found ws hw ha he hcond => ?_
  obtain ⟨rfl, hrow⟩ := findActiveOtp_ok he
  cases found with
  | none =>
    have hidle : OtpIdle E (.did p (.pool (.findActiveOtp userId purpose now)) (.ok none)) :=
      ⟨fun _ => id, fun _ => rfl, fun _ => rfl, fun _ => rfl, fun _ _ _ => id⟩
    exact ⟨⟨by simp, hidle.step rfl hw⟩, fun _ h => nomatch h⟩
  | some otp =>
    obtain ⟨o, ho, hotp⟩ := hrow otp rfl
    have htries : triesOf db.emailOtps otp.id = otp.attempts := by
      rw [triesOf, ho, hotp]
      rfl
    refine ⟨⟨by simp, hw.find htries hcond, fun q hq => .same (by simpa using Ne.symm hq)⟩, ?_⟩
    rintro _ ⟨⟩
    refine ⟨fun hlt => ?_, (ha otp.id).2, fun hn => ?_⟩
    · show p ∈ ite _ _ _
      rw [if_pos ⟨rfl, hlt⟩]
      exact Finset.mem_insert_self ..
    · cases ho.symm.trans hn

theorem otpTriple_compare (code : String) (otp : EmailOtpRow)
    (hlt : (otp.attempts : ℤ) < E.config.otpMaxAttempts) :
    OtpTriple E p (HasRead E p otp) (authCall (.verifyPassword code otp)) fun ok db h =>
      ok = false → HasGuessed p otp.id db h := by
  refine .conseq (triple_invoke (ε := AuthError) (S := authStore) (.verifyPassword code otp)
    (A := HasRead E p otp) (B := fun ok db h => ok = false → HasGuessed p otp.id db h)
    (fun ok db h db' h' hf hr hx hi heq => stable_hasGuessed _ _ _ _ _ (hf heq) hr hx hi)
    fun db h ok hw ⟨hr, hg, hk⟩ _ => ⟨⟨hw.compare (hr hlt) hg, fun q hq =>
      .same (by simpa using Ne.symm hq)⟩, ?_⟩) (fun _ _ h => h) fun r _ _ h => ?_
  · rintro rfl
    refine ⟨?_, hk⟩
    simp [guessers, wrongGuess]
  · cases r with
    | ok a => exact h
    | error e => exact h.elim

theorem otpTriple_increment (i : Uuid) :
    OtpTriple E p (HasGuessed p i) (authPool (.incrementOtpAttempts i)) fun _ _ _ => True := by
  refine otpTriple_pool (fun _ => RowProtocol.stable_true) fun db h _ ws hw ⟨hg, hk⟩ he _ => ?_
  cases List.mem_singleton.1 he
  cases hi : db.emailOtps.lookup i with
  | none => exact absurd hi hk
  | some o =>
    exact ⟨⟨by simp [AuthWrite.touches, AuthStmt.locks], hw.increment hi hg, fun q hq =>
      .of_other (by simpa using Ne.symm hq) (fun j => kept_insert j) fun _ _ _ =>
        activeOtp_insert hi rfl rfl id⟩, trivial⟩

theorem otpTriple_verify (userId : Uuid) (purpose : OtpPurpose) (code : String) :
    OtpTriple E p (AtNothing E p) (verifyEmailOtp E userId purpose code) fun _ _ _ => True := by
  unfold verifyEmailOtp
  split
  · exact otpTriple_ret false
  · refine otpTriple_bind (otpTriple_callFirst (by simp)) fun now => ?_
    refine otpTriple_bind (otpTriple_find userId purpose now) fun found => ?_
    cases found with
    | none => exact otpTriple_ret false
    | some otp =>
      refine .conseq (A := Idle p (HasRead E p otp)) ?_ (fun _ _ h => ⟨h.1, h.2 otp rfl⟩)
        fun _ _ _ h => h
      dsimp only
      split
      · exact otpTriple_bind (otpTriple_claim otp.id now) fun _ => otpTriple_ret false
      · rename_i hlt
        refine otpTriple_bind (otpTriple_compare code otp (not_le.1 hlt)) fun ok => ?_
        cases ok with
        | true => exact otpTriple_bind (otpTriple_claim otp.id now) fun n => otpTriple_ret _
        | false =>
          refine .conseq (A := Idle p (HasGuessed p otp.id)) ?_ (fun _ _ h => ⟨h.1, h.2 rfl⟩)
            fun _ _ _ h => h
          exact otpTriple_bind (otpTriple_increment otp.id) fun _ => otpTriple_ret false

end

/-! ## Rotations -/

def consumption (now : Timestamp) (otps : Otps) (found : List Uuid) : List AuthWrite :=
  found.filterMap fun i => ((otps.lookup i).bind (EmailOtp.consume now)).map (.putOtp i)

theorem lookup_putOtps (f : Uuid → Option EmailOtp) (j : Uuid) : ∀ (l : List Uuid) (db : AuthDb),
    (applyAll (S := authStore) (l.filterMap fun i => (f i).map (AuthWrite.putOtp i)) db).emailOtps.lookup j =
      if j ∈ l then (f j).or (db.emailOtps.lookup j) else db.emailOtps.lookup j
  | [], db => rfl
  | i :: l, db => by
    cases hf : f i with
    | none =>
      rw [List.filterMap_cons_none (by rw [hf]; rfl), lookup_putOtps f j l db]
      by_cases hj : j = i
      · subst hj
        simp [hf]
      · simp [hj]
    | some o =>
      rw [List.filterMap_cons_some (by rw [hf]; rfl), applyAll_cons, lookup_putOtps f j l]
      by_cases hj : j = i
      · subst hj
        have hl : ((AuthWrite.putOtp j o).apply db).emailOtps.lookup j = some o :=
          AList.lookup_insert _
        show (if j ∈ l then (f j).or ((AuthWrite.apply _ db).emailOtps.lookup j) else
          (AuthWrite.apply _ db).emailOtps.lookup j) = _
        rw [hl]
        simp [hf]
      · have hl : ((AuthWrite.putOtp i o).apply db).emailOtps.lookup j = db.emailOtps.lookup j :=
          AList.lookup_insert_ne hj
        show (if j ∈ l then (f j).or ((AuthWrite.apply _ db).emailOtps.lookup j) else
          (AuthWrite.apply _ db).emailOtps.lookup j) = _
        rw [hl]
        simp [hj]

section
variable {E : AuthEnv} {p : Nat} {i : Uuid} {h : Hist (sig authStore)} {db : AuthDb}
  {now : Timestamp} {found : List Uuid}

theorem lookup_consumption (j : Uuid) :
    (applyAll (S := authStore) (consumption now db.emailOtps found) db).emailOtps.lookup j =
      if j ∈ found then ((db.emailOtps.lookup j).bind (EmailOtp.consume now)).or
        (db.emailOtps.lookup j) else db.emailOtps.lookup j :=
  lookup_putOtps _ j found db

/-- What is consumed keeps its attempts, and is not active after. -/
theorem consumption_of_lookup {j : Uuid} {o : EmailOtp}
    (hj : (applyAll (S := authStore) (consumption now db.emailOtps found) db).emailOtps.lookup j = some o) :
    ∃ o₀, db.emailOtps.lookup j = some o₀ ∧ o.attempts = o₀.attempts ∧ o.userId = o₀.userId ∧
      o.purpose = o₀.purpose ∧ (o₀.consumedAt ≠ none → o.consumedAt ≠ none) ∧
      (o.consumedAt = none → j ∉ found) := by
  rw [lookup_consumption] at hj
  split at hj
  · cases ho : db.emailOtps.lookup j with
    | none =>
      rw [ho] at hj
      cases hj
    | some o₀ =>
      rw [ho, Option.bind_some] at hj
      unfold EmailOtp.consume at hj
      split at hj
      · cases hj
        exact ⟨o₀, rfl, rfl, rfl, rfl, fun _ h => (nomatch h), fun h => (nomatch h)⟩
      · rename_i hc
        cases hj
        exact ⟨o, rfl, rfl, rfl, rfl, id, fun h => absurd h hc⟩
  · rename_i hn
    exact ⟨o, hj, rfl, rfl, rfl, id, fun _ => hn⟩

theorem consumption_none {j : Uuid} :
    (applyAll (S := authStore) (consumption now db.emailOtps found) db).emailOtps.lookup j = none ↔
      db.emailOtps.lookup j = none := by
  rw [lookup_consumption]
  split
  · cases db.emailOtps.lookup j with
    | none => simp
    | some o =>
      rw [Option.bind_some]
      cases EmailOtp.consume now o <;> simp
  · exact Iff.rfl

end

section
variable (E : AuthEnv) (p : Nat) (userId : Uuid) (purpose : OtpPurpose)

def HasScanned (found : List Uuid) (db : AuthDb) (h : Hist (sig authStore)) : Prop :=
  scanned userId purpose (doneBy p h) ∧ (¬ rotatedSince p userId purpose h →
    ∀ i, ActiveOtp db.emailOtps userId purpose i → i ∈ found)

def HasConsumed (now : Timestamp) (found : List Uuid) (ws : List AuthWrite) (ks : List Uuid)
    (db : AuthDb) (h : Hist (sig authStore)) : Prop :=
  ws = consumption now db.emailOtps found ∧ (∀ i ∈ found, i ∈ ks) ∧
    HasScanned p userId purpose found db h

def HasRotated (now : Timestamp) (found : List Uuid) (ws : List AuthWrite) (ks : List Uuid)
    (db : AuthDb) (h : Hist (sig authStore)) : Prop :=
  ∃ id o, ws = consumption now db.emailOtps found ++ [.putOtp id o] ∧ id ∈ ks ∧
    (∀ i ∈ found, i ∈ ks) ∧ db.emailOtps.lookup id = none ∧ o.userId = userId ∧
    o.purpose = purpose ∧ o.attempts = 0 ∧ HasScanned p userId purpose found db h

end

section
variable {E : AuthEnv} {p : Nat} {userId : Uuid} {purpose : OtpPurpose} {now : Timestamp}
  {found : List Uuid} {h h' : Hist (sig authStore)} {db db' : AuthDb}

theorem HasScanned.rely (hs : HasScanned p userId purpose found db h)
    (hr : OtpRel p db.emailOtps h db'.emailOtps h') (hx : ReadCommitted.Ext authStore p h h') :
    HasScanned p userId purpose found db' h' := by
  refine ⟨(doneBy_of_ext hx).symm ▸ hs.1, fun hn i hi => ?_⟩
  obtain ⟨hn', hsub⟩ := hr.still _ _ hn
  exact hs.2 hn' i (hsub i hi)

theorem consumption_congr (hrow : ∀ i ∈ found, db'.emailOtps.lookup i = db.emailOtps.lookup i) :
    consumption now db'.emailOtps found = consumption now db.emailOtps found :=
  List.filterMap_congr fun i hi => by rw [hrow i hi]

theorem HasScanned.own {e : Event (sig authStore)} (hs : HasScanned p userId purpose found db h)
    (he : e.pid = some p) (hscan : ¬ scansAs p e) : HasScanned p userId purpose found db (e :: h) := by
  refine ⟨?_, fun hn => hs.2 fun hr => hn ⟨hscan, .inr hr⟩⟩
  obtain ⟨ids, hids⟩ := hs.1
  refine ⟨ids, ?_⟩
  cases e with
  | did q o r =>
    cases he
    rw [doneBy_self]
    exact List.mem_cons_of_mem _ hids
  | crashed q | ended q => exact hids
  | ticked => cases he

/-- The codes found are consumed, the new one is made, and nobody else has rotated. -/
theorem OtpInv.rotate {ws : List AuthWrite} {ks : List Uuid} (hw : OtpInv E db.emailOtps h)
    (hs : HasRotated p userId purpose now found ws ks db h)
    (hcond : Unhurried E db h (.did p .commit (.ok ()))) :
    OtpInv E (applyAll (S := authStore) ws db).emailOtps (.did p .commit (.ok ()) :: h) ∧
      ∀ q, q ≠ p → OtpRel q db.emailOtps h (applyAll (S := authStore) ws db).emailOtps
        (.did p .commit (.ok ()) :: h) := by
  obtain ⟨id, o, rfl, -, -, hid, hu, hp, ht, hscan⟩ := hs
  rw [applyAll_append]
  set db₁ := applyAll (S := authStore) (consumption now db.emailOtps found) db with hdb₁
  have hid₁ : db₁.emailOtps.lookup id = none := consumption_none.2 hid
  have hnew : (applyAll (S := authStore) [.putOtp id o] db₁).emailOtps = db₁.emailOtps.insert id o :=
    rfl
  rw [hnew]
  have htries : ∀ j, triesOf (db₁.emailOtps.insert id o) j = triesOf db.emailOtps j := by
    intro j
    by_cases hj : j = id
    · subst hj
      simp [triesOf, hid, ht]
    · rw [triesOf_insert_ne hj, triesOf, triesOf]
      cases hl : db₁.emailOtps.lookup j with
      | none => rw [consumption_none.1 hl]
      | some r =>
        obtain ⟨r₀, hr₀, ha, -⟩ := consumption_of_lookup hl
        rw [hr₀]
        exact ha
  -- a code that is active after is the new one, or was active and not found
  have hactive : ∀ u pp j, ActiveOtp (db₁.emailOtps.insert id o) u pp j →
      (j = id ∧ u = userId ∧ pp = purpose) ∨ (ActiveOtp db.emailOtps u pp j ∧ j ∉ found) := by
    rintro u pp j ⟨r, hr, h₁, h₂, h₃⟩
    by_cases hj : j = id
    · subst hj
      cases (AList.lookup_insert _).symm.trans hr
      exact .inl ⟨rfl, h₁.symm.trans hu, h₂.symm.trans hp⟩
    · rw [AList.lookup_insert_ne hj] at hr
      obtain ⟨r₀, hr₀, -, hu', hp', hc, hf⟩ := consumption_of_lookup hr
      refine .inr ⟨⟨r₀, hr₀, hu' ▸ h₁, hp' ▸ h₂, ?_⟩, hf h₃⟩
      by_contra hne
      exact hc hne h₃
  have hfound : ∀ j, ActiveOtp db.emailOtps userId purpose j → j ∈ found :=
    hscan.2 (hcond.2 p userId purpose rfl hscan.1)
  refine ⟨⟨fun j => ?_, hw.accepted, fun j hj => ?_, fun u pp i j hi hj => ?_⟩, fun q hq => ⟨?_, ?_⟩⟩
  · obtain ⟨h₁, h₂⟩ := hw.guesses j
    refine ⟨?_, ?_⟩
    · rw [htries]
      exact h₁
    · rw [htries]
      exact h₂
  · obtain ⟨r, hr, hc⟩ := hw.spent j hj
    have hne : j ≠ id := by
      rintro rfl
      rw [hid] at hr
      cases hr
    rw [AList.lookup_insert_ne hne]
    cases hl : db₁.emailOtps.lookup j with
    | none =>
      rw [consumption_none.1 hl] at hr
      cases hr
    | some r' =>
      obtain ⟨r₀, hr₀, -, -, -, hc', -⟩ := consumption_of_lookup hl
      cases hr.symm.trans hr₀
      exact ⟨r', rfl, hc' hc⟩
  · rcases hactive u pp i hi with ⟨rfl, rfl, rfl⟩ | ⟨hi', hni⟩ <;>
      rcases hactive _ _ j hj with ⟨rfl, hu', hp'⟩ | ⟨hj', hnj⟩
    · rfl
    · exact absurd (hfound j hj') hnj
    · subst hu' hp'
      exact absurd (hfound i hi') hni
    · exact hw.active u pp i j hi' hj'
  · intro j hj
    refine kept_insert j fun hn => hj (consumption_none.1 hn)
  · intro u pp hn
    obtain ⟨hrot, hn'⟩ := not_rotatedSince_of_ne (by simpa using Ne.symm hq) hn
    refine ⟨hn', fun j hj => ?_⟩
    rcases hactive u pp j hj with ⟨-, rfl, rfl⟩ | ⟨hj', -⟩
    · exact absurd hscan.1 hrot
    · exact hj'

end

section
variable {E : AuthEnv} {p : Nat}

theorem scanOtps_found {userId : Uuid} {purpose : OtpPurpose} {db : AuthDb} {i : Uuid}
    (hi : ActiveOtp db.emailOtps userId purpose i) :
    i ∈ (db.otpsWhere (EmailOtp.unconsumed userId purpose)).map Prod.fst := by
  obtain ⟨o, ho, h₁, h₂, h₃⟩ := hi
  refine List.mem_map.2 ⟨(i, o), List.mem_filter.2 ⟨List.mem_map.2 ⟨⟨i, o⟩, ?_, rfl⟩, ?_⟩, rfl⟩
  · exact AList.mem_lookup_iff.1 ho
  · simp [EmailOtp.unconsumed, h₁, h₂, h₃]

/-- A statement of the transaction; where it fails nothing is asked. -/
theorem triple_authQuery (st : AuthStmt)
    {G : List AuthWrite → List Uuid → AuthDb → Hist (sig authStore) → Prop}
    {H : st.Ans → List AuthWrite → List Uuid → AuthDb → Hist (sig authStore) → Prop}
    (hH : ∀ a, (otpProtocol E).StableTx p (H a))
    (hok : ∀ ws ks db h a ws', G ws ks db h →
      .ok (a, ws') ∈ st.eval (applyAll (S := authStore) ws db) →
      (∀ w ∈ ws', ∀ k ∈ w.touches, k ∈ ks ++ st.locks (applyAll (S := authStore) ws db)) ∧
      H a (ws ++ ws') (ks ++ st.locks (applyAll (S := authStore) ws db)) db
        (.did p (.tx st) (.ok a) :: h)) :
    (otpProtocol E).toProtocol.Triple p (InTx p G) (authQuery st)
      (outcome (fun a => InTx p (H a)) fun _ => InTx p fun _ _ _ _ => True) :=
  triple_query' (S := authStore) st hH (fun _ _ _ _ _ _ _ _ _ _ _ _ => trivial)
    (fun ws ks db h a ws' _ => hok ws ks db h a ws') fun _ _ _ _ _ _ _ _ => trivial

theorem triple_rotateOtp (userId : Uuid) (purpose : OtpPurpose) (codeHash : String)
    (expiresAt now : Timestamp) :
    OtpTriple E p (fun _ _ => True) (rotateOtp userId purpose codeHash expiresAt now)
      fun _ _ _ => True := by
  have scannedTx : ∀ found, (otpProtocol E).StableTx p fun ws _ db h =>
      ws = [] ∧ HasScanned p userId purpose found db h :=
    fun found ws ks db h db' h' ⟨hws, hs⟩ _ hr hx _ => ⟨hws, hs.rely hr hx⟩
  have consumedTx : ∀ found, (otpProtocol E).StableTx p (HasConsumed p userId purpose now found) :=
    fun found ws ks db h db' h' ⟨hws, hks, hs⟩ hrow hr hx _ =>
      ⟨by rw [hws, consumption_congr fun i hi => hrow i (hks i hi)], hks, hs.rely hr hx⟩
  have rotatedTx : ∀ found, (otpProtocol E).StableTx p (HasRotated p userId purpose now found) := by
    rintro found ws ks db h db' h' ⟨id, o, hws, hid, hks, hl, hu, hp, ht, hs⟩ hrow hr hx -
    refine ⟨id, o, ?_, hid, hks, (hrow id hid).trans hl, hu, hp, ht, hs.rely hr hx⟩
    rw [hws, consumption_congr fun i hi => hrow i (hks i hi)]
  refine .conseq (triple_transaction (Q := fun _ _ _ => True) RowProtocol.framed_true
    (fun _ => RowProtocol.framed_true) (fun _ _ _ _ => trivial) ?_) (fun _ _ h => h) fun r _ _ h => by
      cases r <;> exact h
  refine .bind (triple_invokeTx (S := authStore) .transactionTimestamp (H := fun _ ws _ _ _ => ws = [])
    (fun _ _ _ _ _ _ _ h _ _ _ _ => h) fun ws ks db h r hw hg _ =>
      ⟨(otpIdle_call (c := .transactionTimestamp) (by simp) r).step rfl hw, hg.1⟩)
    (fun createdAt => ?_) fun _ _ _ h => h.elim
  refine .bind (triple_authQuery (.scanOtps userId purpose) (G := fun ws _ _ _ => ws = [])
    scannedTx fun ws ks db h found ws' hg he => ?_) (fun found => ?_) fun _ _ _ _ => trivial
  · subst hg
    cases List.mem_singleton.1 he
    refine ⟨by simp, rfl, ⟨(db.otpsWhere (EmailOtp.unconsumed userId purpose)).map Prod.fst, ?_⟩,
      fun _ i hi => scanOtps_found hi⟩
    rw [doneBy_self]
    exact List.mem_cons_self
  refine .bind (triple_authQuery (.consumeOtps found now)
    (G := fun ws _ db h => ws = [] ∧ HasScanned p userId purpose found db h)
    (fun _ => consumedTx found) fun ws ks db h _ ws' hg he => ?_) (fun _ => ?_)
    fun _ _ _ _ => trivial
  · obtain ⟨rfl, hs⟩ := hg
    cases List.mem_singleton.1 he
    refine ⟨fun w hw k hk => ?_, rfl, fun i hi => List.mem_append_right _ hi, hs.own rfl id⟩
    obtain ⟨i, hi, hm⟩ := List.mem_filterMap.1 hw
    obtain ⟨o, -, rfl⟩ := Option.map_eq_some_iff.1 hm
    cases List.mem_singleton.1 hk
    exact List.mem_append_right _ hi
  refine .bind (triple_invokeTx (S := authStore) .newUuid
    (G := HasConsumed p userId purpose now found)
    (H := fun _ => HasConsumed p userId purpose now found) (fun _ => consumedTx found)
    fun ws ks db h r hw hg _ => ⟨(otpIdle_call (c := .newUuid) (by simp) r).step rfl hw,
      hg.1, hg.2.1, hg.2.2.own rfl fun h => h⟩) (fun id => ?_) fun _ _ _ h => h.elim
  refine .bind (triple_authQuery (.insertOtp id userId purpose codeHash expiresAt createdAt)
    (G := HasConsumed p userId purpose now found) (fun _ => rotatedTx found)
    fun ws ks db h _ ws' hg he => ?_) (fun _ => ?_) fun _ _ _ _ => trivial
  · obtain ⟨rfl, hks, hs⟩ := hg
    simp only [AuthStmt.eval] at he
    split at he
    · cases List.mem_singleton.1 he
    · split at he
      · cases List.mem_singleton.1 he
      · rename_i hid
        cases List.mem_singleton.1 he
        refine ⟨fun w hw k hk => ?_, id, _, rfl, List.mem_append_right _ List.mem_cons_self,
          fun i hi => List.mem_append_left _ (hks i hi), consumption_none.1 (by simpa using hid),
          rfl, rfl, rfl, hs.own rfl fun h => h⟩
        cases List.mem_singleton.1 hw
        cases List.mem_singleton.1 hk
        exact List.mem_append_right _ List.mem_cons_self
  exact .conseq (triple_commit (S := authStore) (G := HasRotated p userId purpose now found)
    (B := fun _ _ => True) (E := fun _ _ _ => True)
    RowProtocol.stable_true (fun _ => RowProtocol.framed_true)
    (fun ws ks db h hw hg hc => ⟨hw.rotate hg hc, trivial⟩) fun _ _ _ _ _ _ => trivial)
    (fun _ _ h => h) fun _ _ _ _ => trivial

theorem otpTriple_request (userId : Uuid) (purpose : OtpPurpose) :
    OtpTriple E p (AtNothing E p) (requestEmailOtp E userId purpose) fun _ _ _ => True := by
  unfold requestEmailOtp
  refine otpTriple_bind (otpTriple_read (fun _ => ⟨fun _ => id, fun _ => rfl, fun _ => rfl,
    fun _ => rfl, fun _ _ _ => id⟩) fun db a ws he => ?_) fun user => ?_
  · cases List.mem_singleton.1 he
    rfl
  cases user with
  | none => exact otpTriple_throw _
  | some user =>
    refine otpTriple_bind (otpTriple_callFirst (by simp)) fun now => ?_
    refine otpTriple_bind (otpTriple_read (fun _ => ⟨fun _ => id, fun _ => rfl, fun _ => rfl,
      fun _ => rfl, fun _ _ _ => id⟩) fun db a ws he => ?_) fun recent => ?_
    · obtain ⟨r, -, heq⟩ := List.mem_map.1 he
      cases heq
      rfl
    split
    · exact otpTriple_throw _
    · refine otpTriple_bind (otpTriple_callFirst (by simp)) fun code => ?_
      refine otpTriple_bind (otpTriple_callFirst (by simp)) fun codeHash => ?_
      cases codeHash with
      | none => exact otpTriple_throw _
      | some codeHash =>
        refine otpTriple_bind (.conseq (triple_rotateOtp _ _ _ _ _) (fun _ _ h => ⟨h.1, trivial⟩)
          fun _ _ _ h => h) fun _ => ?_
        exact otpTriple_bind (otpTriple_call (by simp) RowProtocol.stable_true
          fun _ _ _ _ _ => trivial) fun _ => otpTriple_ret code

end

/-! ## Whole runs -/

section
variable (E : AuthEnv)

def otpRequests (c : Code authStore Empty Unit) : Prop :=
  (∃ userId purpose, c = (requestEmailOtp E userId purpose).spawn) ∨
    ∃ userId purpose code, c = (verifyEmailOtp E userId purpose code).spawn

structure OneTimeLaw (w : World (machine authStore)) : Prop where
  guesses : ∀ i, w.conf.hist.countP (wrongGuess i) ≤ E.config.otpMaxAttempts.toNat
  active : OneActive w.conf.s.db.emailOtps
  accepted : ∀ i, w.conf.hist.countP (acceptsOtp i) ≤ 1

variable {E}

theorem otpInv_init {db : AuthDb} (hd : OneActive db.emailOtps) : OtpInv E db.emailOtps [] where
  guesses _ := ⟨Nat.zero_le _, fun h => absurd h (by simp [readers])⟩
  accepted _ := Nat.zero_le _
  spent _ h := absurd h (Nat.lt_irrefl 0)
  active := hd

theorem triple_otpRequests {c : Code authStore Empty Unit} (hc : otpRequests E c) (p : ℕ) :
    (otpProtocol E).toProtocol.Triple p (Idle p (Unborn p)) c fun _ => Over fun _ _ => True := by
  have start : ∀ {α : Type} {c : AuthCode AuthError α},
      OtpTriple E p (AtNothing E p) c (fun _ _ _ => True) →
      (otpProtocol E).toProtocol.Triple p (Idle p (Unborn p)) c.spawn fun _ => Over fun _ _ => True :=
    fun h => .spawn (.conseq h (fun _ _ hu => ⟨hu.1, fun i => not_mem_of_unborn hu.2⟩)
      fun _ _ _ _ => trivial)
  rcases hc with ⟨userId, purpose, rfl⟩ | ⟨userId, purpose, code, rfl⟩
  · exact start (otpTriple_request userId purpose)
  · exact start (otpTriple_verify userId purpose code)

/-- In a run in which a code is read with more attempts left than there are guesses under way,
and no two rotations overlap, the codes are one-time codes. -/
theorem oneTimeLaw_of_run {db : AuthDb} {w : World (machine authStore)}
    (hd : OneActive db.emailOtps)
    (hs : Run (otpRequests E) (fun c e => Unhurried E c.s.db c.hist e) db w) : OneTimeLaw E w := by
  have hw : OtpInv E w.conf.s.db.emailOtps w.conf.hist :=
    RowProtocol.inv_of_steps (R := otpProtocol E) (fun _ hc p => triple_otpRequests hc p)
      (otpInv_init hd) hs
  refine ⟨fun i => ?_, hw.active, hw.accepted⟩
  obtain ⟨h₁, h₂⟩ := hw.guesses i
  by_cases h₀ : w.conf.hist.countP (wrongGuess i) = 0
  · omega
  · have := h₂ (by omega)
    omega

end

/-! A code that may be guessed at once. -/

def oneGuess : AuthEnv where
  config := {
    jwtAccessTtlSecs := 900
    jwtRefreshTtlSecs := 2592000
    otpCodeTtlSecs := 600
    otpResendCooldownSecs := 60
    otpMaxAttempts := 1
    refreshReuseGraceSecs := 60
    issuer := "bitcosats"
    audience := "bitcosats" }
  refreshTokenHash := id
  sha256Hex _ := "-"

def oneOtp : AuthDb where
  now := 0
  users := (∅ : Table Account).insert 1 ⟨"a@b", "USER", true, none⟩
  refreshTokens := ∅
  emailOtps := (∅ : Otps).insert 3 ⟨1, .login, "hash", seconds 600, none, 0, 0⟩

theorem oneActive_oneOtp : OneActive oneOtp.emailOtps := by
  have only : ∀ {u pp i}, ActiveOtp oneOtp.emailOtps u pp i → i = 3 := by
    rintro u pp i ⟨o, ho, -⟩
    by_contra hi
    rw [show oneOtp.emailOtps.lookup i = (∅ : Otps).lookup i from AList.lookup_insert_ne hi] at ho
    cases ho
  exact fun u pp i j hi hj => (only hi).trans (only hj).symm

def otpRunner : Runner authStore where
  bound := 2
  progs := [(verifyEmailOtp oneGuess 1 .login "000000").spawn]
  tick := passTime
  allow c e := match e with
    | .did _ .commit (.ok _) => false
    | .did _ (.pool (.findActiveOtp _ _ _)) (.ok (some otp)) =>
      decide ((otp.attempts : ℤ) < oneGuess.config.otpMaxAttempts →
        (otp.attempts + (guessers otp.id c.hist).card + (readers oneGuess otp.id c.hist).card : ℤ) <
          oneGuess.config.otpMaxAttempts)
    | _ => true

theorem otpRunner_main : ∀ c ∈ otpRunner.progs, otpRequests oneGuess c := by
  intro c hc
  cases List.mem_singleton.1 hc
  exact .inr ⟨_, _, _, rfl⟩

/-- Two guesses, one after the other: the second is not compared. -/
theorem oneTimeLaw_guesses : ∃ w,
    Run (otpRequests oneGuess) (fun c e => Unhurried oneGuess c.s.db c.hist e) oneOtp w ∧
    w.conf.hist.countP (wrongGuess 3) = 1 ∧ OneTimeLaw oneGuess w := by
  let call (p : ℕ) : Act authStore := .op p (.answer (authAnswers 0 ""))
  have hrun : (otpRunner.run ([.start 0 0, call 0, .op 0 (.go 0), call 0, .op 0 (.go 0),
      .start 1 0, call 1, .op 1 (.go 0), .op 1 (.go 0)]) (.init _ (.start oneOtp))).map
      (fun w => w.conf.hist.countP (wrongGuess 3)) = some 1 := by
    decide +kernel
  obtain ⟨w, hw, hc⟩ := Option.map_eq_some_iff.1 hrun
  have steps : Run (otpRequests oneGuess) (fun c e => Unhurried oneGuess c.s.db c.hist e) oneOtp w := by
    refine Runner.steps_of_run otpRunner_main tick_passTime (fun c e he => ⟨?_, ?_⟩)
      (fun _ _ => rfl) hw
    · rintro p userId purpose now otp rfl hlt
      exact of_decide_eq_true he hlt
    · rintro p userId purpose rfl
      cases he
  exact ⟨w, steps, hc, oneTimeLaw_of_run oneActive_oneOtp steps⟩

/-- Both are compared where both are read before either is counted. -/
theorem concurrent_guesses :
    ¬ ∀ w, Run (otpRequests oneGuess) (anyStep _) oneOtp w → OneTimeLaw oneGuess w := by
  intro hall
  let call (p : ℕ) : Act authStore := .op p (.answer (authAnswers 0 ""))
  let anyRunner : Runner authStore := { otpRunner with allow := fun _ _ => true }
  have hrun : (anyRunner.run ([.start 0 0, .start 1 0, call 0, call 1, .op 0 (.go 0),
      .op 1 (.go 0), call 0, call 1]) (.init _ (.start oneOtp))).map
      (fun w => w.conf.hist.countP (wrongGuess 3)) = some 2 := by
    decide +kernel
  obtain ⟨w, hw, hc⟩ := Option.map_eq_some_iff.1 hrun
  have steps : Run (otpRequests oneGuess) (anyStep _) oneOtp w :=
    Runner.steps_of_run (R := anyRunner) otpRunner_main tick_passTime (fun _ _ _ => trivial)
      (fun _ _ => rfl) hw
  have := (hall w steps).guesses 3
  rw [hc] at this
  exact absurd this (by decide)

end SatsPay
