import SatsPay.Withdrawals

/-!
# The book of one withdrawal

What the store and the history say of one withdrawal: its row and its status, its
ledger entries, who claimed it, and which jobs of it are in whose hands.
-/

namespace SatsPay

open Interleave ReadCommitted RowProtocol

abbrev WdDb := Db withdrawalsExt
abbrev WdEvent := Event (sig (satsPay withdrawalsExt))
abbrev WdHist := Hist (sig (satsPay withdrawalsExt))

/-! ## Status -/

inductive WithdrawalStatus.Next : WithdrawalStatus → WithdrawalStatus → Prop
  | approve : Next .pending .approved
  | cancel : Next .pending .canceled
  | claimQueued : Next .queued .broadcasting
  | claimApproved : Next .approved .broadcasting
  | fail : Next .broadcasting .failed
  | broadcast : Next .broadcasting .broadcasted
  | confirm : Next .broadcasted .confirmed

abbrev WithdrawalStatus.Later := Relation.ReflTransGen WithdrawalStatus.Next

/-- What a move keeps, any number of moves keep. -/
theorem WithdrawalStatus.Later.keeps {P : WithdrawalStatus → Prop} {s s' : WithdrawalStatus}
    (h : s.Later s') (hP : ∀ s s', s.Next s' → P s → P s') (hs : P s) : P s' := by
  induction h with
  | refl => exact hs
  | tail _ hn ih => exact hP _ _ hn ih

def WithdrawalStatus.Sent (s : WithdrawalStatus) : Prop := s = .broadcasted ∨ s = .confirmed

theorem WithdrawalStatus.Sent.later {s s' : WithdrawalStatus} (hs : s.Sent) (h : s.Later s') :
    s'.Sent := by
  refine h.keeps (fun s s' hn hs => ?_) hs
  cases hn with
  | confirm => exact .inr rfl
  | _ => rcases hs with hs | hs <;> cases hs

theorem WithdrawalStatus.Later.of_final {s s' : WithdrawalStatus} (h : s.Later s')
    (hs : s = .confirmed ∨ s = .failed ∨ s = .canceled) : s' = s := by
  refine h.keeps (P := (· = s)) (fun t t' hn ht => ?_) rfl
  subst ht
  cases hn <;> rcases hs with hs | hs | hs <;> cases hs

def WithdrawalStatus.Claimed : WithdrawalStatus → Bool
  | .broadcasting | .broadcasted | .confirmed | .failed => true
  | _ => false

/-! ## Row and entries -/

def rowOf (id : Uuid) (db : WdDb) : Option Withdrawal := db.ext.withdrawals.lookup id

def entriesOf (id : Uuid) (c : Core) : List LedgerEntry :=
  c.ledger.filter fun e => e.referenceId == some id

def total (es : List LedgerEntry) : ℤ := (es.map LedgerEntry.amount).sum

def reversals (es : List LedgerEntry) : ℕ := es.countP fun e => e.type == .withdrawalReversal

@[simp] theorem total_nil : total [] = 0 := rfl
@[simp] theorem total_cons (e : LedgerEntry) (es : List LedgerEntry) :
    total (e :: es) = e.amount + total es := rfl
@[simp] theorem reversals_nil : reversals [] = 0 := rfl
theorem reversals_cons (e : LedgerEntry) (es : List LedgerEntry) :
    reversals (e :: es) = reversals es + if e.type = .withdrawalReversal then 1 else 0 := by
  simp [reversals, List.countP_cons]

/-- The amount and the fee are held, or were given back once. -/
def Withdrawal.Accounted (r : Withdrawal) (es : List LedgerEntry) : Prop :=
  if r.status = .failed ∨ r.status = .canceled then total es = 0 ∧ reversals es = 1
  else total es = -(r.amount + r.feeAmount) ∧ reversals es = 0

def Accounted : Option Withdrawal → List LedgerEntry → Prop
  | none, es => es = []
  | some r, es => r.Accounted es

structure Withdrawal.SameTerms (r r' : Withdrawal) : Prop where
  walletId : r'.walletId = r.walletId
  amount : r'.amount = r.amount
  feeAmount : r'.feeAmount = r.feeAmount
  requiresApproval : r'.requiresApproval = r.requiresApproval

theorem Withdrawal.sameTerms_set (u : WithdrawalUpdate) (r : Withdrawal) :
    r.SameTerms (u.set r) := by
  cases u <;> exact ⟨rfl, rfl, rfl, rfl⟩

theorem Withdrawal.SameTerms.trans {a b c : Withdrawal} (h : a.SameTerms b) (h' : b.SameTerms c) :
    a.SameTerms c :=
  ⟨h'.walletId.trans h.walletId, h'.amount.trans h.amount, h'.feeAmount.trans h.feeAmount,
    h'.requiresApproval.trans h.requiresApproval⟩

def Advance (row row' : Option Withdrawal) : Prop :=
  ∀ r, row = some r → ∃ r', row' = some r' ∧ r.SameTerms r' ∧ r.status.Later r'.status

theorem advance_refl (row : Option Withdrawal) : Advance row row :=
  fun r h => ⟨r, h, ⟨rfl, rfl, rfl, rfl⟩, .refl⟩

theorem Advance.trans {a b c : Option Withdrawal} (h : Advance a b) (h' : Advance b c) :
    Advance a c := by
  intro r hr
  obtain ⟨r', hr', ht, hl⟩ := h r hr
  obtain ⟨r'', hr'', ht', hl'⟩ := h' r' hr'
  exact ⟨r'', hr'', ht.trans ht', hl.trans hl'⟩

theorem advance_set {r : Withdrawal} {u : WithdrawalUpdate} (h : r.status.Next (u.set r).status) :
    Advance (some r) (some (u.set r)) := by
  rintro _ ⟨⟩
  exact ⟨_, rfl, Withdrawal.sameTerms_set u r, .single h⟩

/-! ## History -/

def isClaim (id : Uuid) : WdEvent → Bool
  | .did _ (.pool (.ext (.update i .claim))) (.ok (some _)) => i == id
  | _ => false

def isBroadcast (id : Uuid) : WdEvent → Bool
  | .did _ (.call (.broadcastWithdrawal i _ _ _)) _ => i == id
  | _ => false

def claims (id : Uuid) (h : WdHist) : ℕ := h.countP (isClaim id)
def broadcasts (id : Uuid) (h : WdHist) : ℕ := h.countP (isBroadcast id)

def ClaimedBy (id : Uuid) (p : Nat) (h : WdHist) : Prop := ∃ e ∈ h, isClaim id e ∧ e.pid = some p

def approveEvent (id : Uuid) (p : Nat) (adminId : Uuid) (r : Withdrawal) : WdEvent :=
  .did p (.tx (.ext (.update id (.approve adminId)))) (.ok (some r))

/-- An `approve_withdrawal` has committed: the commit ends the transaction of the
update. -/
def Approved (id : Uuid) (h : WdHist) : Prop :=
  ∃ p adminId r newer since older, h = newer ++ .did p .commit (.ok ()) ::
    (since ++ approveEvent id p adminId r :: older) ∧ ∀ e ∈ since, ∀ b, e ≠ .did p .begin b

def OnlyApproved (id : Uuid) (h : WdHist) : Prop :=
  ∀ newer e older, h = newer ++ e :: older → isBroadcast id e → Approved id older

theorem Approved.cons {id : Uuid} {h : WdHist} (e : WdEvent) (ha : Approved id h) :
    Approved id (e :: h) := by
  obtain ⟨p, adminId, r, newer, since, older, rfl, hs⟩ := ha
  exact ⟨p, adminId, r, e :: newer, since, older, rfl, hs⟩

theorem OnlyApproved.cons {id : Uuid} {h : WdHist} {e : WdEvent} (ho : OnlyApproved id h)
    (he : isBroadcast id e → Approved id h) : OnlyApproved id (e :: h) := by
  intro newer e' older heq hb
  cases newer with
  | nil => cases heq; exact he hb
  | cons _ newer => cases heq; exact ho newer e' older rfl hb

structure Sending (id : Uuid) (row : Option Withdrawal) (h : WdHist) : Prop where
  claims : claims id h = if row.any fun r => r.status.Claimed then 1 else 0
  broadcasts : broadcasts id h ≤ SatsPay.claims id h
  approved : ∀ r, row = some r → r.requiresApproval → r.status ≠ .pending →
    r.status ≠ .canceled → Approved id h
  only : ∀ r, row = some r → r.requiresApproval → OnlyApproved id h

theorem eq_of_countP_le_one {α : Type} {q : α → Bool} {a b : α} {l : List α} (h : l.countP q ≤ 1)
    (ha : a ∈ l) (hb : b ∈ l) (hqa : q a) (hqb : q b) : a = b := by
  induction l with
  | nil => cases ha
  | cons x l ih =>
    rw [List.countP_cons] at h
    rcases List.mem_cons.1 ha with hax | hal
    · rcases List.mem_cons.1 hb with hbx | hbl
      · rw [hax, hbx]
      · have : 0 < l.countP q := List.countP_pos_iff.2 ⟨b, hbl, hqb⟩
        rw [← hax, if_pos hqa] at h
        omega
    · have : 0 < l.countP q := List.countP_pos_iff.2 ⟨a, hal, hqa⟩
      rcases List.mem_cons.1 hb with hbx | hbl
      · rw [← hbx, if_pos hqb] at h
        omega
      · exact ih (by omega) hal hbl

/-- Two processes have not both claimed it. -/
theorem claimedBy_unique {id : Uuid} {p q : Nat} {h : WdHist} (hc : claims id h ≤ 1)
    (hp : ClaimedBy id p h) (hq : ClaimedBy id q h) : p = q := by
  obtain ⟨e, he, hce, hep⟩ := hp
  obtain ⟨f, hf, hcf, hfq⟩ := hq
  rw [eq_of_countP_le_one hc he hf hce hcf, hfq] at hep
  exact (Option.some.inj hep).symm

theorem claims_pos_of_claimedBy {id : Uuid} {p : Nat} {h : WdHist} (hp : ClaimedBy id p h) :
    0 < claims id h := by
  obtain ⟨e, he, hc, -⟩ := hp
  exact List.countP_pos_iff.2 ⟨e, he, hc⟩

theorem ClaimedBy.cons {id : Uuid} {p : Nat} {h : WdHist} (e : WdEvent) (hc : ClaimedBy id p h) :
    ClaimedBy id p (e :: h) := by
  obtain ⟨e', he, hc⟩ := hc
  exact ⟨e', List.mem_cons_of_mem _ he, hc⟩

/-! ## Hands -/

/-- A job that a worker has claimed and not yet closed. It has let go of the
withdrawal when it has seen it in a status other than BROADCASTED. -/
structure Hand where
  job : Uuid
  payload : Payload
  letGo : Bool

def sentStatus (s : Option WithdrawalStatus) : Bool := s == some .broadcasted

def handStep (id : Uuid) (p : Nat) (e : WdEvent) (hand : Option Hand) : Option Hand :=
  match e with
  | .did q (.pool (.core (.claimNext _ _))) (.ok (some (job, j))) =>
    if q = p then some ⟨job, j.payload, false⟩ else hand
  | .did q (.pool (.core (.completeJob _))) _ => if q = p then none else hand
  | .did q (.pool (.core (.failJob _ _))) _ => if q = p then none else hand
  | .did q (.pool (.ext (.withdrawalStatus i))) (.ok s) =>
    if q = p ∧ i = id ∧ sentStatus s = false then hand.map fun H => { H with letGo := true }
    else hand
  | .crashed q => if q = p then none else hand
  | .ended q => if q = p then none else hand
  | _ => hand

def handOf (id : Uuid) (p : Nat) : WdHist → Option Hand
  | [] => none
  | e :: h => handStep id p e (handOf id p h)

@[simp] theorem handOf_nil (id : Uuid) (p : Nat) : handOf id p [] = none := rfl
@[simp] theorem handOf_cons (id : Uuid) (p : Nat) (e : WdEvent) (h : WdHist) :
    handOf id p (e :: h) = handStep id p e (handOf id p h) := rfl

theorem handStep_of_ne {id : Uuid} {p : Nat} {e : WdEvent} (he : e.pid ≠ some p)
    (H : Option Hand) : handStep id p e H = H := by
  unfold handStep
  split <;> simp_all

theorem handOf_ext {id : Uuid} {p : Nat} {h h' : WdHist}
    (he : ReadCommitted.Ext (satsPay withdrawalsExt) p h h') : handOf id p h' = handOf id p h := by
  obtain ⟨l, rfl, hl⟩ := he
  induction l with
  | nil => rfl
  | cons e l ih =>
    rw [List.cons_append, handOf_cons, handStep_of_ne (hl e List.mem_cons_self)]
    exact ih fun e' he' => hl e' (List.mem_cons_of_mem _ he')

/-- The worker has a job of the withdrawal in hand and has not let go of it. -/
def Holding (id : Uuid) (p : Nat) (h : WdHist) : Prop :=
  ∃ H, handOf id p h = some H ∧ H.payload = .withdrawalId id ∧ H.letGo = false

def HasJob (id : Uuid) (jobs : Table Job) : Prop :=
  ∃ job j, jobs.lookup job = some j ∧ j.jobType = withdrawalBroadcastJob ∧ j.status = .pending ∧
    j.payload = .withdrawalId id

def Handled (id : Uuid) (jobs : Table Job) (h : WdHist) : Prop :=
  HasJob id jobs ∨ ∃ p, Holding id p h

def InHand (jobs : Table Job) (H : Hand) : Prop :=
  ∃ j, jobs.lookup H.job = some j ∧ j.status = .running ∧ j.payload = H.payload ∧
    j.jobType = withdrawalBroadcastJob

structure Hands (id : Uuid) (jobs : Table Job) (h : WdHist) : Prop where
  running : ∀ p H, handOf id p h = some H → InHand jobs H
  apart : ∀ p q H H', handOf id p h = some H → handOf id q h = some H' → H.job = H'.job → p = q

/-- A step of `p` on the jobs that leaves those in other hands alone. -/
theorem Hands.step {id : Uuid} {jobs jobs' : Table Job} {h : WdHist} {e : WdEvent} {p : Nat}
    (hh : Hands id jobs h) (he : e.pid = some p)
    (hkeep : ∀ q H, q ≠ p → handOf id q h = some H → jobs'.lookup H.job = jobs.lookup H.job)
    (hp : ∀ H, handOf id p (e :: h) = some H → InHand jobs' H ∧
      ∀ q H', q ≠ p → handOf id q h = some H' → H'.job ≠ H.job) : Hands id jobs' (e :: h) := by
  have hother : ∀ q, q ≠ p → handOf id q (e :: h) = handOf id q h := fun q hq => by
    rw [handOf_cons, handStep_of_ne (by simp [he, Ne.symm hq])]
  constructor
  · intro q H hH
    by_cases hq : q = p
    · subst hq; exact (hp H hH).1
    · rw [hother q hq] at hH
      obtain ⟨j, hj, hr⟩ := hh.running q H hH
      exact ⟨j, (hkeep q H hq hH).trans hj, hr⟩
  · intro q r H H' hH hH' hjob
    by_cases hq : q = p
    · by_cases hr : r = p
      · rw [hq, hr]
      · subst hq
        rw [hother r hr] at hH'
        exact absurd hjob.symm ((hp H hH).2 r H' hr hH')
    · rw [hother q hq] at hH
      by_cases hr : r = p
      · subst hr
        exact absurd hjob ((hp H' hH').2 q H hq hH)
      · rw [hother r hr] at hH'
        exact hh.apart q r H H' hH hH' hjob

/-- A step that leaves all jobs and hands alone. -/
theorem Hands.of_same {id : Uuid} {jobs : Table Job} {h : WdHist} {e : WdEvent}
    (hh : Hands id jobs h) (he : ∀ p H, handStep id p e H = H) : Hands id jobs (e :: h) := by
  constructor
  · intro p H hH
    rw [handOf_cons, he] at hH
    exact hh.running p H hH
  · intro p q H H' hH hH' hjob
    rw [handOf_cons, he] at hH hH'
    exact hh.apart p q H H' hH hH' hjob

theorem Holding.of_same {id : Uuid} {p : Nat} {h : WdHist} {e : WdEvent}
    (he : ∀ p H, handStep id p e H = H) (hh : Holding id p h) : Holding id p (e :: h) := by
  obtain ⟨H, hH, hr⟩ := hh
  exact ⟨H, by rw [handOf_cons, he]; exact hH, hr⟩

theorem Handled.of_same {id : Uuid} {jobs : Table Job} {h : WdHist} {e : WdEvent}
    (he : ∀ p H, handStep id p e H = H) (hh : Handled id jobs h) : Handled id jobs (e :: h) := by
  rcases hh with hj | ⟨p, hp⟩
  · exact .inl hj
  · exact .inr ⟨p, hp.of_same he⟩

/-- Another process keeps its hands when `p` makes a step. -/
theorem Holding.of_ne {id : Uuid} {p q : Nat} {h : WdHist} {e : WdEvent} (he : e.pid = some p)
    (hq : q ≠ p) (hh : Holding id q h) : Holding id q (e :: h) := by
  obtain ⟨H, hH, hr⟩ := hh
  exact ⟨H, by rw [handOf_cons, handStep_of_ne (by simp [he, Ne.symm hq])]; exact hH, hr⟩

/-! ## The protocol -/

structure Quiet (id : Uuid) (e : WdEvent) : Prop where
  claim : isClaim id e = false
  broadcast : isBroadcast id e = false
  hand : ∀ p H, handStep id p e H = H

/-- The process that drops the job it has in hand without closing it, or parks it. -/
def dropsJob (db : WdDb) : WdEvent → Option Nat
  | .crashed p => some p
  | .did p (.pool (.core (.failJob _ _))) (.error _) => some p
  | .did p (.pool (.core (.failJob job _))) (.ok _) =>
    match db.core.jobs.lookup job with
    | some j => if j.attempts ≥ j.maxAttempts then some p else none
    | none => some p
  | _ => none

/-- The withdrawal is BROADCASTED, and the step drops the only job there is of it. -/
def DropsLastJob (id : Uuid) (db : WdDb) (h : WdHist) (e : WdEvent) : Prop :=
  ∃ p, dropsJob db e = some p ∧ Holding id p h ∧
    (∃ r, rowOf id db = some r ∧ r.status = .broadcasted) ∧
    ¬ HasJob id db.core.jobs ∧ ∀ q, Holding id q h → q = p

structure Book (track : Prop) (id : Uuid) (row : Option Withdrawal) (es : List LedgerEntry)
    (jobs : Table Job) (h : WdHist) : Prop where
  accounted : Accounted row es
  sending : Sending id row h
  hands : Hands id jobs h
  handled : track → ∀ r, row = some r → r.status = .broadcasted → Handled id jobs h

def bookOf (track : Prop) (id : Uuid) (db : WdDb) (h : WdHist) : Prop :=
  Book track id (rowOf id db) (entriesOf id db.core) db.core.jobs h

/-- What a process may rely on: the row moves on, it stays as it is for who has
claimed it, and jobs in hand stay as they are. -/
structure Others (id : Uuid) (p : Nat) (db : WdDb) (h : WdHist) (db' : WdDb) (h' : WdHist) :
    Prop where
  hist : h <:+ h'
  wallets : ∀ w, (db'.core.wallets.lookup w).isSome = (db.core.wallets.lookup w).isSome
  row : Advance (rowOf id db) (rowOf id db')
  calls : ClaimedBy id p h → broadcasts id h' = broadcasts id h
  mine : ClaimedBy id p h → ∀ r, rowOf id db = some r → r.status = .broadcasting →
    rowOf id db' = some r
  hand : handOf id p h' = handOf id p h
  jobs : ∀ H, handOf id p h = some H → db'.core.jobs.lookup H.job = db.core.jobs.lookup H.job

theorem others_refl (id : Uuid) (p : Nat) (db : WdDb) (h : WdHist) : Others id p db h db h :=
  ⟨List.suffix_rfl, fun _ => rfl, advance_refl _, fun _ => rfl, fun _ _ hr _ => hr, rfl,
    fun _ _ => rfl⟩

theorem ClaimedBy.mono {id : Uuid} {p : Nat} {h h' : WdHist} (hs : h <:+ h')
    (hc : ClaimedBy id p h) : ClaimedBy id p h' := by
  obtain ⟨e, he, hc⟩ := hc
  exact ⟨e, hs.subset he, hc⟩

theorem Others.trans {id : Uuid} {p : Nat} {db₁ db₂ db₃ : WdDb} {h₁ h₂ h₃ : WdHist}
    (a : Others id p db₁ h₁ db₂ h₂) (b : Others id p db₂ h₂ db₃ h₃) : Others id p db₁ h₁ db₃ h₃ where
  hist := a.hist.trans b.hist
  wallets w := (b.wallets w).trans (a.wallets w)
  row := a.row.trans b.row
  calls hc := (b.calls (hc.mono a.hist)).trans (a.calls hc)
  mine hc r hr hs := b.mine (hc.mono a.hist) r (a.mine hc r hr hs) hs
  hand := b.hand.trans a.hand
  jobs H hH := (b.jobs H (a.hand.trans hH)).trans (a.jobs H hH)

section
variable {track : Prop} {id : Uuid} {row : Option Withdrawal} {es : List LedgerEntry}
variable {jobs : Table Job} {h : WdHist} {e : WdEvent}

theorem claims_cons : claims id (e :: h) = claims id h + if isClaim id e then 1 else 0 := by
  simp [claims, List.countP_cons]

theorem broadcasts_cons :
    broadcasts id (e :: h) = broadcasts id h + if isBroadcast id e then 1 else 0 := by
  simp [broadcasts, List.countP_cons]

theorem Sending.quiet (hs : Sending id row h) (hc : isClaim id e = false)
    (hb : isBroadcast id e = false) : Sending id row (e :: h) where
  claims := by rw [claims_cons, hc]; exact hs.claims
  broadcasts := by rw [claims_cons, broadcasts_cons, hc, hb]; exact hs.broadcasts
  approved r hr ha h₁ h₂ := (hs.approved r hr ha h₁ h₂).cons e
  only r hr ha := (hs.only r hr ha).cons fun he => by rw [hb] at he; cases he

theorem Book.quiet (hb : Book track id row es jobs h) (hq : Quiet id e) :
    Book track id row es jobs (e :: h) where
  accounted := hb.accounted
  sending := hb.sending.quiet hq.claim hq.broadcast
  hands := hb.hands.of_same hq.hand
  handled ht r hr hs := (hb.handled ht r hr hs).of_same hq.hand

end

theorem others_quiet {id : Uuid} {q : Nat} {db : WdDb} {h : WdHist} {e : WdEvent}
    (hb : isBroadcast id e = false) (he : e.pid ≠ some q) : Others id q db h db (e :: h) where
  hist := List.suffix_cons e h
  wallets _ := rfl
  row := advance_refl _
  calls _ := by rw [broadcasts_cons, hb]; rfl
  mine _ r hr _ := hr
  hand := by rw [handOf_cons, handStep_of_ne he]
  jobs _ _ := rfl

/-- A process that ends, or dies where that drops no last job. -/
theorem Book.close {track : Prop} {id : Uuid} {p : Nat} {row : Option Withdrawal}
    {es : List LedgerEntry} {jobs : Table Job} {h : WdHist} {e : WdEvent}
    (hb : Book track id row es jobs h) (hc : isClaim id e = false) (hcall : isBroadcast id e = false)
    (he : e.pid = some p) (hhand : handStep id p e (handOf id p h) = none)
    (hlast : track → (∃ r, row = some r ∧ r.status = .broadcasted) → Holding id p h →
      HasJob id jobs ∨ ∃ q, q ≠ p ∧ Holding id q h) : Book track id row es jobs (e :: h) where
  accounted := hb.accounted
  sending := hb.sending.quiet hc hcall
  hands := hb.hands.step he (fun _ _ _ _ => rfl) fun H hH => by
    rw [handOf_cons, hhand] at hH; cases hH
  handled ht r hr hs := by
    have other : HasJob id jobs ∨ ∃ q, q ≠ p ∧ Holding id q h := by
      rcases hb.handled ht r hr hs with hj | ⟨q, hq⟩
      · exact .inl hj
      · by_cases hqp : q = p
        · subst hqp; exact hlast ht ⟨r, hr, hs⟩ hq
        · exact .inr ⟨q, hqp, hq⟩
    rcases other with hj | ⟨q, hqp, hq⟩
    · exact .inl hj
    · exact .inr ⟨q, hq.of_ne he hqp⟩

/-- The steps allowed: any, or any that drop no last job. -/
def KeepsJobs (track : Prop) (id : Uuid) (db : WdDb) (h : WdHist) (e : WdEvent) : Prop :=
  track → ¬ DropsLastJob id db h e

/-- What a drop leaves. -/
theorem other_of_keepsJobs {track : Prop} {id : Uuid} {p : Nat} {db : WdDb} {h : WdHist}
    {e : WdEvent} (hk : KeepsJobs track id db h e) (hd : dropsJob db e = some p) (ht : track)
    (hr : ∃ r, rowOf id db = some r ∧ r.status = .broadcasted) (hp : Holding id p h) :
    HasJob id db.core.jobs ∨ ∃ q, q ≠ p ∧ Holding id q h := by
  by_contra hn
  push Not at hn
  refine hk ht ⟨p, hd, hp, hr, hn.1, fun q hq => ?_⟩
  by_contra hqp
  exact hn.2 q hqp hq

def withdrawalProtocol (track : Prop) (id : Uuid) :
    RowProtocol (satsPay withdrawalsExt) (KeepsJobs track id) where
  inv := bookOf track id
  rel := Others id
  done p _ h := handOf id p h = none
  quiet := Quiet id
  rel_refl := others_refl id
  rel_trans _ _ _ _ _ _ _ := Others.trans
  quiet_begin _ _ := ⟨rfl, rfl, fun _ _ => rfl⟩
  quiet_rollback _ := ⟨rfl, rfl, fun _ _ => rfl⟩
  quiet_tx _ _ _ := ⟨rfl, rfl, fun _ _ => rfl⟩
  quiet_commit _ _ := ⟨rfl, rfl, fun _ _ => rfl⟩
  inv_quiet hq hb := Book.quiet hb hq
  rel_quiet hq _ he := others_quiet hq.broadcast he
  finish := by
    intro p db h hb hd _
    refine ⟨Book.close hb rfl rfl rfl (by simp [handStep]) ?_,
      fun q hq => others_quiet rfl (by simpa using Ne.symm hq)⟩
    rintro - - ⟨H, hH, -⟩
    rw [hd] at hH
    cases hH
  crash := by
    intro p db h hb hk
    exact ⟨Book.close hb rfl rfl rfl (by simp [handStep]) fun ht hr hp =>
      other_of_keepsJobs hk rfl ht hr hp, fun q hq => others_quiet rfl (by simpa using Ne.symm hq)⟩
  env := by
    rintro db db' h hb ⟨t, -, rfl⟩ -
    refine ⟨Book.quiet hb ⟨rfl, rfl, fun _ _ => rfl⟩, fun q => ?_⟩
    have ho : Others id q db h db (.ticked :: h) := others_quiet rfl (by simp)
    exact ⟨ho.hist, ho.wallets, ho.row, ho.calls, ho.mine, ho.hand, ho.jobs⟩

end SatsPay
