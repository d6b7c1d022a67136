import SatsPay.Script
import SatsPay.SignedRequests

/-!
# Runs of signed requests

A signature is reserved once as long as its nonce is not pruned while its request
can still be accepted.
-/

namespace SatsPay

open Interleave ReadCommitted RowProtocol

abbrev SignedHist := Hist (sig signedApi)

def accepts (req : SignedRequest) : Event (sig signedApi) → Bool
  | .did _ (.call (.answer input (.ok _))) _ => decide (input.toSignedRequest = req)
  | _ => false

def OneShot (h : SignedHist) : Prop := ∀ req, h.countP (accepts req) ≤ 1

/-! ## The condition -/

def expectedSignature (G : Signing) (db : SignedApiDb) (req : SignedRequest) : Option String :=
  (((db.apiKeys.lookup req.keyId).bind ApiKeyRow.keyEnc).bind fun keyEnc =>
    G.decryptWithAad keyEnc (apiKeyAad req.keyId)).map fun rawKey =>
      signRequest G rawKey req.timestamp req.method req.path req.rawBody

def Signed (G : Signing) (db : SignedApiDb) (input : VerifySignedRequestInput) : Prop :=
  expectedSignature G db input.toSignedRequest = some input.signature

def Received (p : Nat) (input : VerifySignedRequestInput) (h : SignedHist) : Prop :=
  .did p (.call .receive) input ∈ h

def InTime (maxSkew p : Nat) (input : VerifySignedRequestInput) (h : SignedHist) : Prop :=
  ∃ ts now, parseI64 input.timestamp = some ts ∧ .did p (.call .utcNow) now ∈ h ∧
    inWindow maxSkew ts now

/-- `p` is between its timestamp check and its reservation. -/
structure UnderWay (maxSkew p : Nat) (input : VerifySignedRequestInput) (h : SignedHist) : Prop where
  received : Received p input h
  inTime : InTime maxSkew p input h
  unreserved : ∀ r, .did p (.pool (.reserveNonce input.keyId input.signature)) r ∉ h
  unanswered : ∀ r u, .did p (.call (.answer input r)) u ∉ h
  alive : .crashed p ∉ h

/-- The last time that `chrono` has. -/
def maxUtc : Micros := 8210266876799999999

/-- The request will not be in its window again. -/
def WindowOver (maxSkew : ℕ) (req : SignedRequest) (now : Micros) : Prop :=
  ∀ ts, parseI64 req.timestamp = some ts → ∀ t, now ≤ t → t ≤ maxUtc → ¬ inWindow maxSkew ts t

/-- No signed request that came in with this signature can be accepted any more. -/
def Spent (G : Signing) (maxSkew : ℕ) (db : SignedApiDb) (h : SignedHist) (keyId : Uuid)
    (signature : String) : Prop :=
  ∀ p input, Received p input h → Signed G db input → input.keyId = keyId →
    input.signature = signature →
    WindowOver maxSkew input.toSignedRequest db.now ∧ ¬ UnderWay maxSkew p input h

/-- The clock that is read is the one of the store. -/
def ClockRead (db : SignedApiDb) (e : Event (sig signedApi)) : Prop :=
  ∀ p now, e = .did p (.call .utcNow) now → now = db.now ∧ now ≤ maxUtc

/-- A call removes no nonce but of a request that can no longer be accepted. -/
def PrunesSpent (G : Signing) (maxSkew : ℕ) (db : SignedApiDb) (h : SignedHist)
    (e : Event (sig signedApi)) : Prop :=
  ∀ p keyId cutoff r, e = .did p (.pool (.pruneNonces keyId cutoff)) r → ∀ n ∈ db.nonces,
    n.expired keyId cutoff → Spent G maxSkew db h n.apiKeyId n.signature

/-! ## The invariant -/

def Reserves (p : Nat) (input : VerifySignedRequestInput) (h : SignedHist) : Prop :=
  Received p input h ∧ .did p (.pool (.reserveNonce input.keyId input.signature)) (.ok true) ∈ h

def Won (p : Nat) (req : SignedRequest) (h : SignedHist) : Prop :=
  ∃ input, input.toSignedRequest = req ∧ Reserves p input h

/-- The request, if it has been accepted, is out of reach of everyone. -/
def Closed (maxSkew : ℕ) (req : SignedRequest) (s : String) (db : SignedApiDb) (h : SignedHist) :
    Prop :=
  WindowOver maxSkew req db.now ∧
    ∀ q input, input.toSignedRequest = req → input.signature = s → ¬ UnderWay maxSkew q input h

structure SignedInv (G : Signing) (maxSkew : ℕ) (db₀ db : SignedApiDb) (h : SignedHist) : Prop where
  keys : ∀ req, expectedSignature G db req = expectedSignature G db₀ req
  signed : ∀ p input, Reserves p input h → Signed G db₀ input
  once : ∀ req p q, Won p req h → Won q req h → p = q
  kept : ∀ p input, Reserves p input h → db.reserved input.keyId input.signature ∨
    Closed maxSkew input.toSignedRequest input.signature db h
  won : ∀ p input r u, .did p (.call (.answer input (.ok r))) u ∈ h → Won p input.toSignedRequest h
  oneShot : OneShot h

structure Plain (e : Event (sig signedApi)) : Prop where
  receive : ∀ p i, e ≠ .did p (.call .receive) i
  utcNow : ∀ p t, e ≠ .did p (.call .utcNow) t
  reserve : ∀ p k s, e ≠ .did p (.pool (.reserveNonce k s)) (.ok true)
  answer : ∀ p i r u, e ≠ .did p (.call (.answer i (.ok r))) u

section
variable {G : Signing} {maxSkew p : ℕ} {db₀ db db' : SignedApiDb} {h : SignedHist}
  {e : Event (sig signedApi)} {input : VerifySignedRequestInput} {req : SignedRequest}

theorem received_cons (he : ∀ i, e ≠ .did p (.call .receive) i) :
    Received p input (e :: h) ↔ Received p input h :=
  List.mem_cons.trans (or_iff_right (he input).symm)

theorem reserves_cons (hr : ∀ i, e ≠ .did p (.call .receive) i)
    (hw : ∀ k s, e ≠ .did p (.pool (.reserveNonce k s)) (.ok true)) :
    Reserves p input (e :: h) ↔ Reserves p input h :=
  and_congr (received_cons hr) (List.mem_cons.trans (or_iff_right (hw _ _).symm))

theorem won_cons (hr : ∀ i, e ≠ .did p (.call .receive) i)
    (hw : ∀ k s, e ≠ .did p (.pool (.reserveNonce k s)) (.ok true)) :
    Won p req (e :: h) ↔ Won p req h :=
  exists_congr fun _ => and_congr_right' (reserves_cons hr hw)

/-- A request is under way after an event only if it was before, or the event is its
timestamp check. -/
theorem UnderWay.of_cons (hu : UnderWay maxSkew p input (e :: h))
    (hr : e ≠ .did p (.call .receive) input)
    (ht : ∀ ts t, parseI64 input.timestamp = some ts → inWindow maxSkew ts t →
      e ≠ .did p (.call .utcNow) t) : UnderWay maxSkew p input h where
  received := (List.mem_cons.1 hu.received).resolve_left hr.symm
  inTime := by
    obtain ⟨ts, t, hp, hm, hw⟩ := hu.inTime
    exact ⟨ts, t, hp, (List.mem_cons.1 hm).resolve_left (ht ts t hp hw).symm, hw⟩
  unreserved r hm := hu.unreserved r (List.mem_cons_of_mem _ hm)
  unanswered r u hm := hu.unanswered r u (List.mem_cons_of_mem _ hm)
  alive hm := hu.alive (List.mem_cons_of_mem _ hm)

theorem WindowOver.mono {t t' : Micros} (hw : WindowOver maxSkew req t) (hle : t ≤ t') :
    WindowOver maxSkew req t' := fun ts hp u hu => hw ts hp u (hle.trans hu)

theorem Closed.cons {s : String} (hc : Closed maxSkew req s db h) (hn : db.now ≤ db'.now)
    (hr : ∀ q i, e ≠ .did q (.call .receive) i) (ht : ∀ q t, e ≠ .did q (.call .utcNow) t) :
    Closed maxSkew req s db' (e :: h) :=
  ⟨hc.1.mono hn, fun q i hi hs hu => hc.2 q i hi hs (hu.of_cons (hr q i) fun _ t _ _ => ht q t)⟩

theorem countP_plain (he : Plain e) (req : SignedRequest) :
    (e :: h).countP (accepts req) = h.countP (accepts req) := by
  refine List.countP_cons_of_neg ?_
  intro ha
  unfold accepts at ha
  split at ha
  · exact he.answer _ _ _ _ rfl
  · cases ha

/-- The events that the invariant does not speak of, nonces being removed only when
they are spent. -/
theorem SignedInv.plain (hi : SignedInv G maxSkew db₀ db h) (he : Plain e)
    (hk : ∀ req, expectedSignature G db' req = expectedSignature G db req)
    (hn : db.now ≤ db'.now)
    (hres : ∀ k s, db.reserved k s → db'.reserved k s ∨ Spent G maxSkew db h k s) :
    SignedInv G maxSkew db₀ db' (e :: h) where
  keys req := (hk req).trans (hi.keys req)
  signed p input hw := hi.signed p input ((reserves_cons (he.receive p) (he.reserve p)).1 hw)
  once req p q hp hq := hi.once req p q ((won_cons (he.receive p) (he.reserve p)).1 hp)
    ((won_cons (he.receive q) (he.reserve q)).1 hq)
  kept p input hw := by
    have hw' := (reserves_cons (he.receive p) (he.reserve p)).1 hw
    rcases hi.kept p input hw' with hr | hc
    · refine (hres _ _ hr).imp_right fun hs => ?_
      have hsig : ∀ i : VerifySignedRequestInput, i.toSignedRequest = input.toSignedRequest →
          i.signature = input.signature → Signed G db i := by
        intro i hi' hs'
        rw [Signed, hi', hs', hi.keys]
        exact hi.signed p input hw'
      have closed : Closed maxSkew input.toSignedRequest input.signature db h :=
        ⟨(hs p input hw'.1 (hsig input rfl rfl) rfl rfl).1, fun q i hi' hs' hu =>
          (hs q i hu.received (hsig i hi' hs') (congrArg SignedRequest.keyId hi') hs').2 hu⟩
      exact closed.cons hn he.receive he.utcNow
    · exact .inr (hc.cons hn he.receive he.utcNow)
  won p input r u hm := (won_cons (he.receive p) (he.reserve p)).2
    (hi.won p input r u ((List.mem_cons.1 hm).resolve_left (he.answer _ _ _ _).symm))
  oneShot req := (countP_plain he req).trans_le (hi.oneShot req)

/-- A request comes in: `p` has done nothing before. -/
theorem SignedInv.receive (hi : SignedInv G maxSkew db₀ db h) (hp : ∀ e ∈ h, e.pid ≠ some p) :
    SignedInv G maxSkew db₀ db (.did p (.call .receive) input :: h) := by
  have hno : ∀ e, e.pid = some p → e ∉ h := fun e he hm => hp e hm he
  have res : ∀ q i, Reserves q i (.did p (.call .receive) input :: h) → Reserves q i h := by
    rintro q i ⟨hr, hw⟩
    have hw' := (List.mem_cons.1 hw).resolve_left (by simp)
    rcases List.mem_cons.1 hr with hr | hr
    · cases hr
      exact absurd hw' (hno _ rfl)
    · exact ⟨hr, hw'⟩
  have won : ∀ q req, Won q req (.did p (.call .receive) input :: h) → Won q req h :=
    fun q req ⟨i, hq, hw⟩ => ⟨i, hq, res q i hw⟩
  refine ⟨hi.keys, fun q i hw => hi.signed q i (res q i hw),
    fun req q q' hq hq' => hi.once req q q' (won q req hq) (won q' req hq'), fun q i hw => ?_,
    fun q i r u hm => ?_, fun req => ?_⟩
  · refine (hi.kept q i (res q i hw)).imp_right fun hc => ⟨hc.1, fun q' i' hi' hs hu => ?_⟩
    have ht : ∀ ts t, parseI64 i'.timestamp = some ts → inWindow maxSkew ts t →
        (.did p (.call .receive) input : Event (sig signedApi)) ≠ .did q' (.call .utcNow) t := by
      simp
    by_cases hq : q' = p
    · subst hq
      obtain ⟨ts, t, -, hm, -⟩ := hu.inTime
      exact absurd ((List.mem_cons.1 hm).resolve_left (by simp)) (hno _ rfl)
    · exact hc.2 q' i' hi' hs (hu.of_cons (by simp [Ne.symm hq]) ht)
  · obtain ⟨i', hq, hr, hw⟩ := hi.won q i r u ((List.mem_cons.1 hm).resolve_left (by simp))
    exact ⟨i', hq, List.mem_cons_of_mem _ hr, List.mem_cons_of_mem _ hw⟩
  · exact (List.countP_cons_of_neg (by simp [accepts])).trans_le (hi.oneShot req)

/-- The clock is read: what is out of its window now is not checked in time. -/
theorem SignedInv.utcNow (hi : SignedInv G maxSkew db₀ db h) (hle : db.now ≤ maxUtc) :
    SignedInv G maxSkew db₀ db (.did p (.call .utcNow) db.now :: h) where
  keys := hi.keys
  signed q i hw := hi.signed q i ((reserves_cons (by simp) (by simp)).1 hw)
  once req q q' hq hq' := hi.once req q q' ((won_cons (by simp) (by simp)).1 hq)
    ((won_cons (by simp) (by simp)).1 hq')
  kept q i hw := by
    refine (hi.kept q i ((reserves_cons (by simp) (by simp)).1 hw)).imp_right fun hc =>
      ⟨hc.1, fun q' i' hi' hs hu => hc.2 q' i' hi' hs (hu.of_cons (by simp) ?_)⟩
    intro ts t hp hin heq
    cases heq
    exact hc.1 ts (by rw [← hi']; exact hp) db.now le_rfl hle hin
  won q i r u hm := (won_cons (by simp) (by simp)).2
    (hi.won q i r u ((List.mem_cons.1 hm).resolve_left (by simp)))
  oneShot req := (List.countP_cons_of_neg (by simp [accepts])).trans_le (hi.oneShot req)

/-! ## What a call knows -/

/-- `p` has received the input, and nothing else that matters yet. -/
structure Got (p : Nat) (input : VerifySignedRequestInput) (h : SignedHist) : Prop where
  received : Received p input h
  only : ∀ i, Received p i h → i = input
  unreserved : ∀ k s r, .did p (.pool (.reserveNonce k s)) r ∉ h
  unanswered : ∀ i r u, .did p (.call (.answer i r)) u ∉ h
  alive : .crashed p ∉ h

theorem Got.underWay (hg : Got p input h) (ht : InTime maxSkew p input h) :
    UnderWay maxSkew p input h :=
  ⟨hg.received, ht, fun _ => hg.unreserved _ _ _, fun _ _ => hg.unanswered _ _ _, hg.alive⟩

theorem Got.cons (hg : Got p input h) (hr : ∀ i, e ≠ .did p (.call .receive) i)
    (hw : ∀ k s r, e ≠ .did p (.pool (.reserveNonce k s)) r)
    (ha : ∀ i r u, e ≠ .did p (.call (.answer i r)) u) (hc : e ≠ .crashed p) :
    Got p input (e :: h) where
  received := List.mem_cons_of_mem _ hg.received
  only i hm := hg.only i ((received_cons hr).1 hm)
  unreserved k s r hm := hg.unreserved k s r ((List.mem_cons.1 hm).resolve_left (hw k s r).symm)
  unanswered i r u hm := hg.unanswered i r u ((List.mem_cons.1 hm).resolve_left (ha i r u).symm)
  alive hm := hg.alive ((List.mem_cons.1 hm).resolve_left hc.symm)

theorem InTime.cons (ht : InTime maxSkew p input h) : InTime maxSkew p input (e :: h) := by
  obtain ⟨ts, t, hp, hm, hw⟩ := ht
  exact ⟨ts, t, hp, List.mem_cons_of_mem _ hm, hw⟩

/-- The reservation of a signature whose request is under way. -/
theorem SignedInv.reserve (hi : SignedInv G maxSkew db₀ db h) (hg : Got p input h)
    (ht : InTime maxSkew p input h) (hs : Signed G db₀ input)
    (hfree : db.reserved input.keyId input.signature = false) :
    SignedInv G maxSkew db₀
      { db with nonces := ⟨input.keyId, input.signature, db.now⟩ :: db.nonces }
      (.did p (.pool (.reserveNonce input.keyId input.signature)) (.ok true) :: h) := by
  -- none has reserved it before
  have none : ∀ q, ¬ Won q input.toSignedRequest h := by
    rintro q ⟨i, hreq, hw⟩
    have hsig : i.signature = input.signature := by
      have := hi.signed q i hw
      rw [Signed, hreq, hs] at this
      exact (Option.some.inj this).symm
    rcases hi.kept q i hw with hr | hc
    · rw [hsig, show i.keyId = input.keyId from congrArg SignedRequest.keyId hreq, hfree] at hr
      cases hr
    · exact hc.2 p input hreq.symm hsig.symm (hg.underWay ht)
  have res : ∀ q i, Reserves q i
      (.did p (.pool (.reserveNonce input.keyId input.signature)) (.ok true) :: h) →
      Reserves q i h ∨ q = p ∧ i = input := by
    rintro q i ⟨hr, hw⟩
    have hr' := (received_cons (by simp)).1 hr
    rcases List.mem_cons.1 hw with hw | hw
    · simp only [Event.did.injEq] at hw
      obtain rfl := hw.1
      exact .inr ⟨rfl, hg.only i hr'⟩
    · exact .inl ⟨hr', hw⟩
  have won : ∀ q req, Won q req
      (.did p (.pool (.reserveNonce input.keyId input.signature)) (.ok true) :: h) →
      Won q req h ∨ q = p ∧ req = input.toSignedRequest := by
    rintro q req ⟨i, hreq, hw⟩
    rcases res q i hw with hw | ⟨rfl, rfl⟩
    · exact .inl ⟨i, hreq, hw⟩
    · exact .inr ⟨rfl, hreq.symm⟩
  refine ⟨hi.keys, fun q i hw => ?_, fun req q q' hq hq' => ?_, fun q i hw => ?_,
    fun q i r u hm => ?_, fun req => ?_⟩
  · rcases res q i hw with hw | ⟨rfl, rfl⟩
    · exact hi.signed q i hw
    · exact hs
  · rcases won q req hq with hold | ⟨rfl, rfl⟩
    · rcases won q' req hq' with hold' | ⟨rfl, rfl⟩
      · exact hi.once req q q' hold hold'
      · exact absurd hold (none q)
    · rcases won q' _ hq' with hq' | ⟨rfl, -⟩
      · exact absurd hq' (none q')
      · rfl
  · rcases res q i hw with hw | ⟨rfl, rfl⟩
    · refine (hi.kept q i hw).imp (fun hr => ?_) fun hc =>
        hc.cons (Nat.le_refl db.now) (by simp) (by simp)
      simp only [SignedApiDb.reserved, List.any_cons, Bool.or_eq_true] at hr ⊢
      exact .inr hr
    · left
      simp [SignedApiDb.reserved]
  · obtain ⟨i', hreq, hr, hw⟩ := hi.won q i r u ((List.mem_cons.1 hm).resolve_left (by simp))
    exact ⟨i', hreq, List.mem_cons_of_mem _ hr, List.mem_cons_of_mem _ hw⟩
  · exact (List.countP_cons_of_neg (by simp [accepts])).trans_le (hi.oneShot req)

/-- The request goes on to its handler. -/
theorem SignedInv.answer (hi : SignedInv G maxSkew db₀ db h) {r : ApiKeyRecord}
    (hw : Won p input.toSignedRequest h) (hu : ∀ i r u, .did p (.call (.answer i r)) u ∉ h) :
    SignedInv G maxSkew db₀ db (.did p (.call (.answer input (.ok r))) () :: h) where
  keys := hi.keys
  signed q i hw := hi.signed q i ((reserves_cons (by simp) (by simp)).1 hw)
  once req q q' hq hq' := hi.once req q q' ((won_cons (by simp) (by simp)).1 hq)
    ((won_cons (by simp) (by simp)).1 hq')
  kept q i hw := (hi.kept q i ((reserves_cons (by simp) (by simp)).1 hw)).imp_right fun hc =>
    hc.cons le_rfl (by simp) (by simp)
  won q i r u hm := by
    refine (won_cons (by simp) (by simp)).2 ?_
    rcases List.mem_cons.1 hm with hm | hm
    · cases hm
      exact hw
    · exact hi.won q i r u hm
  oneShot req := by
    by_cases hreq : input.toSignedRequest = req
    · -- whoever accepted it before has reserved it too, and so is `p`
      have hzero : h.countP (accepts req) = 0 := by
        refine List.countP_eq_zero.2 fun e he ha => ?_
        unfold accepts at ha
        split at ha
        · rename_i q i r' u
          have hq := hi.won q i r' u he
          rw [of_decide_eq_true ha] at hq
          rw [hreq] at hw
          obtain rfl := hi.once req q p hq hw
          exact hu _ _ _ he
        · cases ha
      rw [List.countP_cons, hzero]
      split <;> omega
    · exact (List.countP_cons_of_neg (by simpa [accepts] using hreq)).trans_le (hi.oneShot req)

end

/-! ## The protocol -/

def signedCond (G : Signing) (maxSkew : ℕ) (db : SignedApiDb) (h : SignedHist)
    (e : Event (sig signedApi)) : Prop :=
  ClockRead db e ∧ PrunesSpent G maxSkew db h e

section
variable {G : Signing} {maxSkew p : ℕ} {db₀ db db' : SignedApiDb} {h : SignedHist}
  {e : Event (sig signedApi)} {input : VerifySignedRequestInput} {ε : Type}

theorem SignedInv.same (hi : SignedInv G maxSkew db₀ db h) (he : Plain e) :
    SignedInv G maxSkew db₀ db (e :: h) :=
  hi.plain he (fun _ => rfl) le_rfl fun _ _ hr => .inl hr

/-- Nothing of the store but its nonces is shared, and these the invariant keeps. -/
def signedRows (G : Signing) (maxSkew : ℕ) (db₀ : SignedApiDb) :
    RowProtocol signedApi (signedCond G maxSkew) where
  inv := SignedInv G maxSkew db₀
  rel _ _ _ _ _ := True
  done _ _ _ := True
  quiet := Plain
  rel_refl _ _ _ := trivial
  rel_trans _ _ _ _ _ _ _ _ _ := trivial
  quiet_begin _ _ := ⟨by simp, by simp, by simp, by simp⟩
  quiet_rollback _ := ⟨by simp, by simp, by simp, by simp⟩
  quiet_tx _ _ _ := ⟨by simp, by simp, by simp, by simp⟩
  quiet_commit _ _ := ⟨by simp, by simp, by simp, by simp⟩
  inv_quiet he hi := hi.same he
  rel_quiet _ _ _ := trivial
  finish hi _ _ := ⟨hi.same ⟨by simp, by simp, by simp, by simp⟩, fun _ _ => trivial⟩
  crash hi _ := ⟨hi.same ⟨by simp, by simp, by simp, by simp⟩, fun _ _ => trivial⟩
  env := by
    rintro db db' h hi ⟨t, hle, rfl⟩ -
    exact ⟨hi.plain ⟨by simp, by simp, by simp, by simp⟩ (fun _ => rfl) hle fun _ _ hr => .inl hr,
      fun _ => trivial⟩

abbrev Verifier (G : Signing) (maxSkew : ℕ) (db₀ : SignedApiDb) :=
  (signedRows G maxSkew db₀).toProtocol

def Own (p : Nat) (A : SignedHist → Prop) : Prop :=
  ∀ h h', A h → ReadCommitted.Ext signedApi p h h' → A h'

theorem expectedSignature_lastUsed {id : Uuid} {row : ApiKeyRow} {t : Micros}
    (hl : db.apiKeys.lookup id = some row) (req : SignedRequest) :
    expectedSignature G { db with apiKeys := db.apiKeys.insert id { row with lastUsedAt := some t } }
      req = expectedSignature G db req := by
  unfold expectedSignature
  by_cases hk : req.keyId = id
  · rw [hk, hl, AList.lookup_insert, Option.bind_some, Option.bind_some]
  · rw [AList.lookup_insert_ne hk]

theorem Own.stable {A : SignedHist → Prop} (hA : Own p A) :
    (signedRows G maxSkew db₀).Stable p fun _ h => A h :=
  fun _ _ _ _ ha _ hx _ => hA _ _ ha hx

theorem mem_of_ext (hx : ReadCommitted.Ext signedApi p h h') (he : e.pid = some p) :
    e ∈ h' ↔ e ∈ h := by
  obtain ⟨l, rfl, hl⟩ := hx
  exact List.mem_append.trans (or_iff_right fun hm => hl e hm he)

theorem own_got : Own p (Got p input) := fun _ _ hg hx =>
  ⟨(mem_of_ext hx rfl).2 hg.received, fun i hm => hg.only i ((mem_of_ext hx rfl).1 hm),
    fun k s r hm => hg.unreserved k s r ((mem_of_ext hx rfl).1 hm),
    fun i r u hm => hg.unanswered i r u ((mem_of_ext hx rfl).1 hm),
    fun hm => hg.alive ((mem_of_ext hx rfl).1 hm)⟩

theorem own_inTime : Own p (InTime maxSkew p input) := fun _ _ ⟨ts, t, hp, hm, hw⟩ hx =>
  ⟨ts, t, hp, (mem_of_ext hx rfl).2 hm, hw⟩

theorem Own.and {A B : SignedHist → Prop} (hA : Own p A) (hB : Own p B) :
    Own p fun h => A h ∧ B h := fun _ _ ⟨ha, hb⟩ hx => ⟨hA _ _ ha hx, hB _ _ hb hx⟩

theorem own_true : Own p fun _ => True := fun _ _ _ _ => trivial

def Holds (p : Nat) (input : VerifySignedRequestInput) (h : SignedHist) : Prop :=
  Reserves p input h ∧ ∀ i r u, .did p (.call (.answer i r)) u ∉ h

theorem own_holds : Own p (Holds p input) := fun _ _ ⟨⟨hr, hw⟩, hu⟩ hx =>
  ⟨⟨(mem_of_ext hx rfl).2 hr, (mem_of_ext hx rfl).2 hw⟩,
    fun i r u hm => hu i r u ((mem_of_ext hx rfl).1 hm)⟩

/-! ## Calls and statements -/

theorem triple_utcNow {A : SignedHist → Prop} (hA : Own p A)
    (hcons : ∀ h t, A h → A (.did p (.call .utcNow) t :: h)) :
    (Verifier G maxSkew db₀).Triple p (Idle p fun _ h => A h) utcNow
      (outcome (fun t => Idle p fun _ h => A h ∧ .did p (.call .utcNow) t ∈ h)
        fun _ _ => False) := by
  refine triple_invoke (R := signedRows G maxSkew db₀) .utcNow (fun t => ?_) ?_
  · exact (hA.and fun _ _ hm hx => (mem_of_ext hx rfl).2 hm).stable
  · rintro db h t hi ha hc
    obtain ⟨rfl, hle⟩ := hc.1 p t rfl
    exact ⟨⟨hi.utcNow hle, fun _ _ => trivial⟩, hcons h _ ha, List.mem_cons_self⟩

/-- A statement other than a reservation. -/
theorem triple_pool (st : SignedApiStmt) (hst : ∀ k s, st ≠ .reserveNonce k s)
    {A : SignedHist → Prop} (hA : Own p A) (hcons : ∀ h r, A h → A (.did p (.pool st) r :: h))
    {T : st.Ans → Prop} (hT : ∀ db h a ws, SignedInv G maxSkew db₀ db h →
      Except.ok (a, ws) ∈ st.eval db → T a) :
    (Verifier G maxSkew db₀).Triple p (Idle p fun _ h => A h)
      (poolQuery (S := signedApi) st : SignedApi VerifyError _)
      (outcome (fun a => Idle p fun _ h => A h ∧ T a) fun _ => Idle p fun _ h => A h) := by
  have plain : ∀ r, Plain (.did p (.pool st) r) := fun r => by
    refine ⟨by simp, by simp, ?_, by simp⟩
    rintro q k s heq
    simp only [Event.did.injEq, Op.pool.injEq] at heq
    exact hst k s heq.2.1
  refine triple_poolQuery (R := signedRows G maxSkew db₀) st
    (fun a => (hA.and fun _ _ h _ => h).stable) (fun _ => hA.stable) ?_ ?_
  · rintro db h a ws hi ha he hc
    refine ⟨⟨fun _ _ k _ => k.elim, ?_, fun _ _ => trivial⟩, hcons h _ ha,
      hT db h a ws hi he⟩
    cases st with
    | findKey id =>
      cases List.mem_singleton.1 he
      exact hi.same (plain _)
    | pruneNonces k cutoff =>
      cases List.mem_singleton.1 he
      refine hi.plain (plain _) (fun _ => rfl) le_rfl fun k' s hr => ?_
      obtain ⟨n, hn, hks⟩ := List.any_eq_true.1 hr
      simp only [Bool.and_eq_true, beq_iff_eq] at hks
      obtain ⟨rfl, rfl⟩ := hks
      cases hx : n.expired k cutoff with
      | true => exact .inr (hc.2 p k cutoff _ rfl n hn hx)
      | false =>
        refine .inl (List.any_eq_true.2 ⟨n, List.mem_filter.2 ⟨hn, by simp [hx]⟩, by simp⟩)
    | reserveNonce k s => exact absurd rfl (hst k s)
    | touchKey id =>
      cases List.mem_singleton.1 he
      cases hl : db.apiKeys.lookup id with
      | none => exact hi.same (plain _)
      | some row =>
        exact hi.plain (plain _) (expectedSignature_lastUsed hl) le_rfl fun _ _ hr => .inl hr
  · rintro db h e hi ha - -
    exact ⟨⟨hi.same (plain _), fun _ _ => trivial⟩, hcons h _ ha⟩

theorem triple_reserve (hs : Signed G db₀ input) :
    (Verifier G maxSkew db₀).Triple p
      (Idle p fun _ h => Got p input h ∧ InTime maxSkew p input h)
      (poolQuery (S := signedApi) (.reserveNonce input.keyId input.signature) :
        SignedApi VerifyError _)
      (outcome (fun b => Idle p fun _ h => b = true → Holds p input h)
        fun _ => Idle p fun _ _ => True) := by
  refine triple_poolQuery (R := signedRows G maxSkew db₀) _
    (fun b => Own.stable (A := fun h => b = true → Holds p input h)
      fun _ _ hb hx hb' => own_holds _ _ (hb hb') hx) (fun _ => own_true.stable) ?_ ?_
  · rintro db h b ws hi ⟨hg, ht⟩ he -
    simp only [SignedApiStmt.eval] at he
    split at he
    · cases List.mem_singleton.1 he
      exact ⟨⟨fun _ _ k _ => k.elim, hi.same ⟨by simp, by simp, by simp, by simp⟩,
        fun _ _ => trivial⟩, fun hb => by cases hb⟩
    · rename_i hfree
      cases List.mem_singleton.1 he
      refine ⟨⟨fun _ _ k _ => k.elim, hi.reserve hg ht hs (Bool.eq_false_iff.2 hfree),
        fun _ _ => trivial⟩, fun _ => ⟨⟨List.mem_cons_of_mem _ hg.received,
          List.mem_cons_self⟩, fun i r u hm => ?_⟩⟩
      exact hg.unanswered i r u ((List.mem_cons.1 hm).resolve_left (by simp))
  · rintro db h e hi - - -
    exact ⟨⟨hi.same ⟨by simp, by simp, by simp, by simp⟩, fun _ _ => trivial⟩, trivial⟩

/-! ## Verification -/

abbrev Verifying (maxSkew p : ℕ) (input : VerifySignedRequestInput) (h : SignedHist) : Prop :=
  Got p input h ∧ InTime maxSkew p input h

theorem own_verifying : Own p (Verifying maxSkew p input) := own_got.and own_inTime

theorem verifying_cons (hv : Verifying maxSkew p input h)
    (hr : ∀ i, e ≠ .did p (.call .receive) i)
    (hw : ∀ k s r, e ≠ .did p (.pool (.reserveNonce k s)) r)
    (ha : ∀ i r u, e ≠ .did p (.call (.answer i r)) u) (hc : e ≠ .crashed p) :
    Verifying maxSkew p input (e :: h) := ⟨hv.1.cons hr hw ha hc, hv.2.cons⟩

abbrev Verified (p : Nat) (input : VerifySignedRequestInput) :
    Except VerifyError ApiKeyRecord → Conf (machine signedApi) → Prop :=
  outcome (fun _ => Idle p fun _ h => Holds p input h) fun _ => Idle p fun _ _ => True

theorem triple_reserveSignature (hs : Signed G db₀ input) (row : ApiKeyRow) :
    (Verifier G maxSkew db₀).Triple p (Idle p fun _ h => Verifying maxSkew p input h)
      (reserveSignature maxSkew input.keyId input.signature row) (Verified p input) := by
  refine .bind (triple_utcNow own_verifying fun h t hv =>
    verifying_cons hv (by simp) (by simp) (by simp) (by simp)) (fun now => ?_)
    fun _ _ _ h => h.elim
  cases nonceCutoff maxSkew now with
  | none => exact .throw fun _ _ h => ⟨h.1, trivial⟩
  | some cutoff =>
    have prune : (Verifier G maxSkew db₀).Triple p (Idle p fun _ h => Verifying maxSkew p input h)
        ((poolQuery (S := signedApi) (.pruneNonces input.keyId cutoff) :
          SignedApi VerifyError Unit).attempt : SignedApi VerifyError _)
        (outcome (fun _ => Idle p fun _ h => Verifying maxSkew p input h) fun _ _ => False) :=
      .attempt (.conseq (triple_pool _ (T := fun _ => True) (by simp) own_verifying
        (fun h r hv => verifying_cons hv (by simp) (by simp) (by simp) (by simp))
        fun _ _ _ _ _ _ => trivial) (fun _ _ h => h) fun r _ _ h => by
          cases r with
          | ok _ => exact ⟨h.1, h.2.1⟩
          | error _ => exact h)
    refine .conseq (A := Idle p fun _ h => Verifying maxSkew p input h)
      (.bind prune (fun _ => ?_) fun _ _ _ h => h.elim) (fun _ _ h => ⟨h.1, h.2.1⟩)
      fun _ _ _ h => h
    refine .bind (triple_reserve hs) (fun reserved => ?_) fun _ _ _ h => h
    cases reserved with
    | false => exact .throw fun _ _ h => ⟨h.1, trivial⟩
    | true =>
      have touch : (Verifier G maxSkew db₀).Triple p (Idle p fun _ h => Holds p input h)
          ((poolQuery (S := signedApi) (.touchKey input.keyId) :
            SignedApi VerifyError Unit).attempt : SignedApi VerifyError _)
          (outcome (fun _ => Idle p fun _ h => Holds p input h) fun _ _ => False) :=
        .attempt (.conseq (triple_pool _ (T := fun _ => True) (by simp) own_holds
          (fun h r hh => ⟨⟨List.mem_cons_of_mem _ hh.1.1, List.mem_cons_of_mem _ hh.1.2⟩,
            fun i r u hm => hh.2 i r u ((List.mem_cons.1 hm).resolve_left (by simp))⟩)
          fun _ _ _ _ _ _ => trivial) (fun _ _ h => h) fun r _ _ h => by
            cases r with
            | ok _ => exact ⟨h.1, h.2.1⟩
            | error _ => exact h)
      refine .conseq (A := Idle p fun _ h => Holds p input h)
        (.bind touch (fun _ => .ret fun _ _ h => h) fun _ _ _ h => h.elim)
        (fun _ _ h => ⟨h.1, h.2 rfl⟩) fun _ _ _ h => h

theorem triple_keyExpired (row : ApiKeyRow) :
    (Verifier G maxSkew db₀).Triple p (Idle p fun _ h => Verifying maxSkew p input h)
      (keyExpired row)
      (outcome (fun _ => Idle p fun _ h => Verifying maxSkew p input h) fun _ _ => False) := by
  unfold keyExpired
  split
  · exact .bind (triple_utcNow own_verifying fun h t hv =>
      verifying_cons hv (by simp) (by simp) (by simp) (by simp))
      (fun now => .ret fun _ _ h => ⟨h.1, h.2.1⟩) fun _ _ _ h => h.elim
  · exact .ret fun _ _ h => h

theorem triple_checkUsable (row : ApiKeyRow) (sourceIp : String) :
    (Verifier G maxSkew db₀).Triple p (Idle p fun _ h => Verifying maxSkew p input h)
      (checkUsable G row sourceIp)
      (outcome (fun _ => Idle p fun _ h => Verifying maxSkew p input h)
        fun _ => Idle p fun _ _ => True) := by
  unfold checkUsable
  split
  · exact .throw fun _ _ h => ⟨h.1, trivial⟩
  · refine .bind (triple_keyExpired row) (fun expired => ?_) fun _ _ _ h => h.elim
    dsimp only
    split
    · exact .throw fun _ _ h => ⟨h.1, trivial⟩
    · split
      · exact .throw fun _ _ h => ⟨h.1, trivial⟩
      · exact .ret fun _ _ h => h

/-- A row whose key makes this signature of the request. -/
theorem triple_verifyWithKey {row : ApiKeyRow} (hrow : ∀ req : SignedRequest,
      req.keyId = input.keyId → expectedSignature G db₀ req =
        (row.keyEnc.bind fun keyEnc => G.decryptWithAad keyEnc (apiKeyAad req.keyId)).map
          fun rawKey => signRequest G rawKey req.timestamp req.method req.path req.rawBody) :
    (Verifier G maxSkew db₀).Triple p (Idle p fun _ h => Verifying maxSkew p input h)
      (verifyWithKey G maxSkew input row) (Verified p input) := by
  unfold verifyWithKey
  split
  · exact .throw fun _ _ h => ⟨h.1, trivial⟩
  · rename_i keyEnc hkey
    refine .bind (triple_checkUsable row input.sourceIp) (fun _ => ?_) fun _ _ _ h => h
    dsimp only
    split
    · exact .throw fun _ _ h => ⟨h.1, trivial⟩
    · rename_i rawKey hraw
      split
      · rename_i heq
        refine triple_reserveSignature ?_ row
        rw [Signed, hrow _ rfl, hkey, Option.bind_some, hraw, Option.map_some, heq]
      · exact .throw fun _ _ h => ⟨h.1, trivial⟩

theorem triple_verifySignedRequest :
    (Verifier G maxSkew db₀).Triple p (Idle p fun _ h => Got p input h)
      (verifySignedRequest G maxSkew input) (Verified p input) := by
  unfold verifySignedRequest
  split
  · exact .throw fun _ _ h => ⟨h.1, trivial⟩
  · rename_i ts hts
    refine .bind (triple_utcNow own_got fun h t hg =>
      hg.cons (by simp) (by simp) (by simp) (by simp)) (fun now => ?_) fun _ _ _ h => h.elim
    dsimp only
    split
    · rename_i hin
      refine .conseq (A := Idle p fun _ h => Verifying maxSkew p input h) ?_
        (fun _ _ h => ⟨h.1, h.2.1, ts, now, hts, h.2.2, hin⟩) fun _ _ _ h => h
      refine .bind (triple_pool (.findKey input.keyId) (T := fun row => ∀ req : SignedRequest,
          req.keyId = input.keyId → expectedSignature G db₀ req =
            ((row.bind ApiKeyRow.keyEnc).bind fun keyEnc =>
              G.decryptWithAad keyEnc (apiKeyAad req.keyId)).map fun rawKey =>
                signRequest G rawKey req.timestamp req.method req.path req.rawBody)
        (by simp) own_verifying
        (fun h r hv => verifying_cons hv (by simp) (by simp) (by simp) (by simp)) ?_)
        (fun row => ?_) fun _ _ _ h => ⟨h.1, trivial⟩
      · intro db h a ws hi he req hreq
        cases List.mem_singleton.1 he
        rw [← hi.keys, expectedSignature, hreq]
      · cases row with
        | none => exact .throw fun _ _ h => ⟨h.1, trivial⟩
        | some row =>
          intro c hi hc
          exact triple_verifyWithKey hc.2.2 c hi ⟨hc.1, hc.2.1⟩
    · exact .throw fun _ _ h => ⟨h.1, trivial⟩

theorem triple_serveSigned :
    (Verifier G maxSkew db₀).Triple p (Idle p (Unborn p)) (serveSigned G maxSkew)
      fun _ => Over fun _ _ => True := by
  have receive : (Verifier G maxSkew db₀).Triple p (Idle p (Unborn p))
      (invoke (S := signedApi) .receive : SignedApi Empty _)
      (outcome (fun input => Idle p fun _ h => Got p input h) fun _ _ => False) := by
    refine triple_invoke (R := signedRows G maxSkew db₀) .receive (fun _ => own_got.stable) ?_
    intro db h input hi hu hc
    have hno : ∀ e, e.pid = some p → e ∉ h := fun e he hm => hu e hm he
    refine ⟨⟨hi.receive hu, fun _ _ => trivial⟩, List.mem_cons_self, fun i hm => ?_,
      fun k s r hm => ?_, fun i r u hm => ?_, fun hm => ?_⟩
    · rcases List.mem_cons.1 hm with hm | hm
      · cases hm; rfl
      · exact absurd hm (hno _ rfl)
    all_goals exact hno _ rfl ((List.mem_cons.1 hm).resolve_left (by simp))
  refine .bind receive (fun input => ?_) fun _ _ _ h => h.elim
  refine .bind (Q := outcome (Verified p input) fun _ _ => False)
    (.attempt triple_verifySignedRequest) (fun r => ?_) fun _ _ _ h => h.elim
  cases r with
  | error e =>
    refine .conseq (triple_invoke (R := signedRows G maxSkew db₀) _ (A := fun _ _ => True)
      (B := fun _ _ _ => True) (fun _ => own_true.stable) ?_) (fun _ _ h => h) fun _ _ _ _ => trivial
    rintro db h u hi - -
    exact ⟨⟨hi.same ⟨by simp, by simp, by simp, by simp⟩, fun _ _ => trivial⟩, trivial⟩
  | ok record =>
    refine .conseq (triple_invoke (R := signedRows G maxSkew db₀) _
      (A := fun _ h => Holds p input h) (B := fun _ _ _ => True) (fun _ => own_true.stable) ?_)
      (fun _ _ h => h) fun _ _ _ _ => trivial
    rintro db h u hi hh -
    exact ⟨⟨hi.answer ⟨input, rfl, hh.1⟩ hh.2, fun _ _ => trivial⟩, trivial⟩

end

/-! ## Runs -/

def IsServer (G : Signing) (maxSkew : ℕ) (c : Prog (sig signedApi) Empty Unit) : Prop :=
  c = serveSigned G maxSkew

/-- If no call removes the nonce of a request that can still be accepted, every
request is accepted at most once. -/
theorem signed_requests_one_shot {G : Signing} {maxSkew : ℕ} {db : SignedApiDb}
    {w : World (machine signedApi)}
    (hs : Run (IsServer G maxSkew) (fun c e => signedCond G maxSkew c.s.db c.hist e) db w) :
    OneShot w.conf.hist := by
  have hi : SignedInv G maxSkew db db [] := by
    refine ⟨fun _ => rfl, fun _ _ hw => ?_, fun _ _ _ hw _ => ?_, fun _ _ hw => ?_,
      fun _ _ _ _ hm => (by cases hm), fun req => by simp⟩
    · cases hw.1
    · obtain ⟨_, _, hw⟩ := hw
      cases hw.1
    · cases hw.1
  refine ((signedRows G maxSkew db).inv_of_steps ?_ hi hs).oneShot
  rintro c rfl p
  exact triple_serveSigned

/-! Alice signs two requests, and the skew is 300 seconds. -/

def aliceSecret : String := "0123456789abcdef0123456789abcdef0123456789abcdef0123456789abcdef"
def emptySha256 : String := "e3b0c44298fc1c149afbf4c8996fb92427ae41e4649b934ca495991b7852b855"

def earlySignature : String := "35233fcecef3367540929e372c0c9c31b995e3077acb2441ee20c6b03dedbf74"
def aliceSignature : String := "4097d1e6e4addcaf49496bab9d9ca2ad16c6d943bab72c42d89006dbbc2e3b24"

def balanceText (timestamp : String) : String :=
  timestamp ++ "\nGET\n/v1/public/balance\n" ++ emptySha256

def aliceSigning : Signing where
  decryptWithAad payload aad :=
    if payload = "sealed" && aad = "api_key:1" then some aliceSecret else none
  hmacSha256Hex secret text :=
    if secret = aliceSecret && text = balanceText "1700000200" then aliceSignature
    else if secret = aliceSecret && text = balanceText "1700000000" then earlySignature
    else ""
  sha256Hex body := if body.isEmpty then emptySha256 else ""
  parseIp _ := none

def earlyRequest : SignedRequest := ⟨1, "1700000000", "GET", "/v1/public/balance", []⟩
def aliceRequest : SignedRequest := ⟨1, "1700000200", "GET", "/v1/public/balance", []⟩
def earlyInput : VerifySignedRequestInput := ⟨earlyRequest, earlySignature, "203.0.113.7"⟩
def aliceInput : VerifySignedRequestInput := ⟨aliceRequest, aliceSignature, "203.0.113.7"⟩

def aliceApi : SignedApiDb where
  now := 1700000000 * 1000000
  apiKeys := (∅ : Table ApiKeyRow).insert 1 ⟨7, ["*"], [], none, none, some "sealed", none⟩
  nonces := []

def stale (maxSkew : ℕ) (timestamp : String) (now : Micros) : Bool :=
  (parseI64 timestamp).all fun ts =>
    decide (0 ≤ timestampMs ts ∧ timestampMs ts + skewMillis maxSkew < (now / 1000 : ℕ))

theorem windowOver_of_stale {maxSkew : ℕ} {req : SignedRequest} {now : Micros}
    (h : stale maxSkew req.timestamp now = true) : WindowOver maxSkew req now := by
  intro ts hts t hle hmax hin
  rw [stale, hts] at h
  obtain ⟨hpos, hlt⟩ := of_decide_eq_true h
  have hmillis : ((now / 1000 : ℕ) : ℤ) ≤ (t / 1000 : ℕ) :=
    Int.ofNat_le.2 (Nat.div_le_div_right hle)
  have hlast : ((t / 1000 : ℕ) : ℤ) ≤ 8210266876799999 :=
    Int.ofNat_le.2 (Nat.div_le_div_right (c := 1000) hmax)
  have hwrap : wrap64 ((t / 1000 : ℕ) - timestampMs ts) = (t / 1000 : ℕ) - timestampMs ts := by
    unfold wrap64
    exact Int.bmod_eq_of_le (by omega) (by omega)
  have hskew := of_decide_eq_true hin
  rw [hwrap] at hskew
  omega

def reservesAs (p : ℕ) (input : VerifySignedRequestInput) : Event (sig signedApi) → Bool
  | .did q (.pool (.reserveNonce keyId signature)) _ =>
    q == p && keyId == input.keyId && signature == input.signature
  | _ => false

def spentFor (c : Conf (machine signedApi)) (keyId : Uuid) (signature : String) :
    Event (sig signedApi) → Bool
  | .did p (.call .receive) input =>
    !(input.keyId == keyId && input.signature == signature) ||
      (stale 300 input.timestamp c.s.db.now && c.hist.any (reservesAs p input))
  | _ => true

def signedRunner (pruneAny : Bool) : Runner signedApi where
  bound := 4
  progs := [serveSigned aliceSigning 300]
  tick n db := { db with now := db.now + n }
  allow c
    | .did _ (.call .utcNow) now => decide (now = c.s.db.now ∧ now ≤ maxUtc)
    | .did _ (.pool (.pruneNonces k cutoff)) _ => pruneAny || c.s.db.nonces.all fun n =>
      !n.expired k cutoff || c.hist.all (spentFor c n.apiKeyId n.signature)
    | _ => true

def aliceAnswers (input : VerifySignedRequestInput) (now : Micros) : (c : SignedApiCall) → c.Reply
  | .receive => input
  | .utcNow => now
  | .answer _ _ => ()

def aliceCall (p : ℕ) (input : VerifySignedRequestInput) (secs : ℕ) : List (Act signedApi) :=
  let answer : Act signedApi := .op p (.answer (aliceAnswers input (aliceApi.now + secs * 1000000)))
  [.start p 0, answer, answer, .op p (.go 0), answer, .op p (.go 0), .op p (.go 0)]

def aliceTold (p : ℕ) : List (Act signedApi) :=
  [.op p (.answer (aliceAnswers aliceInput 0)), .finish p]

theorem run_of_signedRunner {pruneAny : Bool}
    (cond : SignedApiDb → SignedHist → Event (sig signedApi) → Prop)
    (hcond : ∀ c e, (signedRunner pruneAny).allow c e → cond c.s.db c.hist e)
    {l : List (Act signedApi)} {w : World (machine signedApi)}
    (hw : (signedRunner pruneAny).run l (.init _ (.start aliceApi)) = some w) :
    Run (IsServer aliceSigning 300) (fun c e => cond c.s.db c.hist e) aliceApi w := by
  refine Runner.steps_of_run (R := signedRunner pruneAny) (fun c hc => List.mem_singleton.1 hc)
    (fun n db => ⟨_, Nat.le_add_right _ n, rfl⟩) hcond (fun _ _ => rfl) hw

theorem clockRead_of_allow {pruneAny : Bool} {c : Conf (machine signedApi)} {e : Event (sig signedApi)}
    (ha : (signedRunner pruneAny).allow c e) : ClockRead c.s.db e := by
  rintro p now rfl
  exact of_decide_eq_true ha

theorem spent_of_all {c : Conf (machine signedApi)} {keyId : Uuid} {signature : String}
    (h : c.hist.all (spentFor c keyId signature) = true) :
    Spent aliceSigning 300 c.s.db c.hist keyId signature := by
  rintro p input hr - rfl rfl
  have hone := List.all_eq_true.1 h _ hr
  simp only [spentFor, beq_self_eq_true, Bool.and_self, Bool.not_true, Bool.false_or,
    Bool.and_eq_true] at hone
  refine ⟨windowOver_of_stale hone.1, fun hu => ?_⟩
  obtain ⟨e, he, hres⟩ := List.any_eq_true.1 hone.2
  unfold reservesAs at hres
  split at hres
  · simp only [Bool.and_eq_true, beq_iff_eq] at hres
    obtain ⟨⟨rfl, rfl⟩, rfl⟩ := hres
    exact hu.unreserved _ he
  · cases hres

theorem signedCond_of_allow {c : Conf (machine signedApi)} {e : Event (sig signedApi)}
    (ha : (signedRunner false).allow c e) :
    signedCond aliceSigning 300 c.s.db c.hist e := by
  refine ⟨clockRead_of_allow ha, ?_⟩
  rintro p k cutoff r rfl n hn hx
  have := List.all_eq_true.1 ha n hn
  rw [hx] at this
  exact spent_of_all this

/-- The early request, the other one 400 seconds later, when the nonce of the first is pruned, and
each again after ten more. -/
def aliceScript : List (Act signedApi) :=
  aliceCall 0 earlyInput 0 ++ .op 0 (.go 0) :: aliceTold 0 ++ .tick 400000000 ::
    aliceCall 1 aliceInput 400 ++ .op 1 (.go 0) :: aliceTold 1 ++ .tick 10000000 ::
    (aliceCall 2 earlyInput 410).take 3 ++ aliceTold 2 ++ aliceCall 3 aliceInput 410 ++ aliceTold 3

theorem signed_requests_one_shot_replay : ∃ w : World (machine signedApi),
    Run (IsServer aliceSigning 300) (fun c e => signedCond aliceSigning 300 c.s.db c.hist e)
      aliceApi w ∧
    w.conf.hist.countP (accepts earlyRequest) = 1 ∧
    w.conf.hist.countP (accepts aliceRequest) = 1 ∧
    w.conf.s.db.reserved 1 earlySignature = false ∧ OneShot w.conf.hist := by
  have hrun : ((signedRunner false).run aliceScript (.init _ (.start aliceApi))).map (fun w =>
      (w.conf.hist.countP (accepts earlyRequest), w.conf.hist.countP (accepts aliceRequest),
        w.conf.s.db.reserved 1 earlySignature)) = some (1, 1, false) := by
    decide +kernel
  obtain ⟨w, hw, hc⟩ := Option.map_eq_some_iff.1 hrun
  obtain ⟨h₁, h₂, h₃⟩ := by simpa only [Prod.mk.injEq] using hc
  have hs := run_of_signedRunner (signedCond aliceSigning 300) (fun _ _ => signedCond_of_allow) hw
  exact ⟨w, hs, h₁, h₂, h₃, signed_requests_one_shot hs⟩

/-- A request dated 200 seconds ahead comes in again after 301, when its nonce is pruned and its
window still open. The clock goes on as it should, and it is accepted twice. -/
theorem signed_request_replayed : ∃ w : World (machine signedApi),
    Run (IsServer aliceSigning 300) (fun c e => ClockRead c.s.db e) aliceApi w ∧
    ¬ OneShot w.conf.hist := by
  have hrun : ((signedRunner true).run (aliceCall 0 aliceInput 0 ++ .op 0 (.go 0) :: aliceTold 0 ++
      .tick 301000000 :: aliceCall 1 aliceInput 301 ++ .op 1 (.go 0) :: aliceTold 1)
      (.init _ (.start aliceApi))).map (fun w => w.conf.hist.countP (accepts aliceRequest)) =
      some 2 := by
    decide +kernel
  obtain ⟨w, hw, hc⟩ := Option.map_eq_some_iff.1 hrun
  have hs : Run (IsServer aliceSigning 300) (fun c e => ClockRead c.s.db e) aliceApi w :=
    run_of_signedRunner (fun db _ e => ClockRead db e)
      (fun _ _ => clockRead_of_allow) hw
  refine ⟨w, hs, fun h => ?_⟩
  have := h aliceRequest
  omega

end SatsPay
