import SatsPay.PoolSteps
import SatsPay.Script
import SatsPay.Withdrawals

/-!
# The job queue

`claim_next`, `complete` and `fail` for processes that close only what they have
claimed: none holds a job with another, a job is tried at most as often as its row
allows, and it is lost only where a worker stops with it in hand.
-/

namespace SatsPay

open Interleave ReadCommitted

variable {X : Ext}

/-! ## What a worker may do -/

def Claimed (i : Uuid) : List (Did (sig (satsPay X))) → Prop
  | [] => False
  | ⟨.pool (.core (.claimNext _ _)), .ok (some (job, _))⟩ :: t => job = i ∨ Claimed i t
  | ⟨.pool (.core (.completeJob job)), .ok _⟩ :: t => job ≠ i ∧ Claimed i t
  | ⟨.pool (.core (.failJob job _)), .ok _⟩ :: t => job ≠ i ∧ Claimed i t
  | _ :: t => Claimed i t

def CoreStmt.onQueue : CoreStmt → Bool
  | .enqueue _ _ | .claimNext _ _ | .completeJob _ | .failJob _ _ => true
  | _ => false

/-- The queue is used outside transactions, and a job is closed by who has claimed it. -/
def UsesQueue (t : List (Did (sig (satsPay X)))) : Op (satsPay X) → Prop
  | .tx (.core st) => st.onQueue = false
  | .pool (.core (.completeJob job)) => Claimed job t
  | .pool (.core (.failJob job _)) => Claimed job t
  | _ => True

def claimsJob (i : Uuid) : Event (sig (satsPay X)) → Bool
  | .did _ (.pool (.core (.claimNext _ _))) (.ok (some (job, _))) => job == i
  | _ => false

def enqueues (i : Uuid) : Event (sig (satsPay X)) → Bool
  | .did _ (.pool (.core (.enqueue _ _))) (.ok job) => job == i
  | _ => false

/-! ## What a step does to the queue -/

def newJob (jobType : String) (payload : Payload) (now : Time) : Job :=
  { jobType, payload, status := .pending, attempts := 0, maxAttempts := 5, runAfter := now,
    lockedBy := none, lastError := none }

inductive JobMove (p : Nat) (t : List (Did (sig (satsPay X)))) (now : Time) (jobs : Table Job) :
    Did (sig (satsPay X)) → Table Job → Prop
  | same {d : Did (sig (satsPay X))} (hd : ∀ i t, Claimed i (d :: t) ↔ Claimed i t)
      (hc : ∀ i, claimsJob i (.did p d.1 d.2) = false)
      (he : ∀ i, enqueues i (.did p d.1 d.2) = false) : JobMove p t now jobs d jobs
  | enqueue {jobType : String} {payload : Payload} {i : Uuid} (hi : jobs.lookup i = none) :
      JobMove p t now jobs ⟨.pool (.core (.enqueue jobType payload)), .ok i⟩
        (jobs.insert i (newJob jobType payload now))
  | claim {jobType lockedBy : String} {i : Uuid} {j : Job} (hj : jobs.lookup i = some j)
      (hs : j.status = .pending) :
      JobMove p t now jobs
        ⟨.pool (.core (.claimNext jobType lockedBy)), .ok (some (i, j.claim lockedBy))⟩
        (jobs.insert i (j.claim lockedBy))
  | complete {i : Uuid} {j : Job} (hi : Claimed i t) (hj : jobs.lookup i = some j) :
      JobMove p t now jobs ⟨.pool (.core (.completeJob i)), .ok ()⟩
        (jobs.insert i { j with status := .done })
  | fail {i : Uuid} {error : String} {j : Job} (hi : Claimed i t) (hj : jobs.lookup i = some j) :
      JobMove p t now jobs ⟨.pool (.core (.failJob i error)), .ok ()⟩ (jobs.insert i (j.fail now error))

def SparesJobs (w : Write X) : Prop := ∀ i j, w ≠ .core (.putJob i j)

def OffQueue (st : Stmt X) : Prop := ∀ c, st = .core c → c.onQueue = false

theorem sparesJobs_of_eval {st : Stmt X} (hst : OffQueue st) {db : Db X} {a : st.Ans}
    {ws : List (Write X)} (h : .ok (a, ws) ∈ (satsPay X).eval st db) : ∀ w ∈ ws, SparesJobs w := by
  rintro w hm i j rfl
  cases st with
  | ext st =>
    obtain ⟨ws', -, rfl⟩ := ext_eval_ok h
    simp at hm
  | core st =>
    obtain ⟨ws', h', rfl⟩ := core_eval_ok h
    have hm' : CoreWrite.putJob i j ∈ ws' := by simpa using hm
    have hq := hst st rfl
    cases st with
    | enqueue _ _ | claimNext _ _ | completeJob _ | failJob _ _ => cases hq
    | insertLedgerEntry input =>
      have h'' := List.mem_singleton.1 h'
      unfold Core.insertLedgerEntry at h''
      split at h''
      · cases h''
      · split at h''
        · cases h''
        · split at h''
          · cases h''
          · cases h''
            cases List.mem_singleton.1 hm'
    | setReorgHold id =>
      cases List.mem_singleton.1 h'
      split at hm'
      · cases List.mem_singleton.1 hm'
      · cases hm'
    | insertOutbox event | insertAudit log =>
      cases List.mem_singleton.1 h'
      cases List.mem_singleton.1 hm'
    | _ =>
      cases List.mem_singleton.1 h'
      cases hm'

abbrev seeJobs (db : Db X) : Table Job := db.core.jobs

theorem poolOnly_jobs : PoolOnly (S := satsPay X) seeJobs OffQueue SparesJobs where
  see_apply w db h := by
    cases w with
    | ext w => rfl
    | core w =>
      cases w with
      | putJob i j => exact absurd rfl (h i j)
      | _ => rfl
  see_tick := by
    rintro db _ ⟨t, -, rfl⟩
    rfl
  spares_eval _ hst _ _ _ he := sparesJobs_of_eval hst he

section
variable {p : Nat} {t : List (Did (sig (satsPay X)))}

theorem jobMove_of_pool {st : Stmt X} {db : Db X} {a : st.Ans} {ws : List (Write X)}
    (ho : UsesQueue t (.pool st)) (hown : ∀ i, Claimed i t → ∃ j, db.core.jobs.lookup i = some j)
    (he : .ok (a, ws) ∈ (satsPay X).eval st db) :
    JobMove p t db.core.now db.core.jobs ⟨.pool st, .ok a⟩ (viewOf ws db).core.jobs := by
  by_cases hq : OffQueue st
  · rw [show (viewOf ws db).core.jobs = db.core.jobs from
      poolOnly_jobs.see_applyAll (sparesJobs_of_eval hq he)]
    cases st with
    | ext st => exact .same (fun _ _ => Iff.rfl) (fun _ => rfl) fun _ => rfl
    | core st =>
      have hst := hq st rfl
      cases st with
      | enqueue _ _ | claimNext _ _ | completeJob _ | failJob _ _ => cases hst
      | _ => exact .same (fun _ _ => Iff.rfl) (fun _ => rfl) fun _ => rfl
  · unfold OffQueue at hq
    push Not at hq
    obtain ⟨c, rfl, hc⟩ := hq
    cases c with
    | enqueue jobType payload =>
      obtain ⟨rfl, rfl⟩ := core_eval_one rfl he
      exact .enqueue (lookup_newJobId db.core)
    | claimNext jobType lockedBy =>
      rcases claimNext_ok he with ⟨rfl, rfl⟩ | ⟨job, j, hj, -, hs, rfl, rfl⟩
      · exact .same (fun _ _ => Iff.rfl) (fun _ => rfl) fun _ => rfl
      · exact .claim hj hs
    | completeJob i =>
      obtain ⟨rfl, rfl⟩ := core_eval_one rfl he
      obtain ⟨j, hj⟩ := hown i ho
      rw [hj]
      exact .complete ho hj
    | failJob i error =>
      obtain ⟨rfl, rfl⟩ := core_eval_one rfl he
      obtain ⟨j, hj⟩ := hown i ho
      rw [hj]
      exact .fail ho hj
    | _ => exact absurd rfl hc

/-- What a step of a process that keeps to `UsesQueue` does to the jobs. -/
theorem jobMove_of_step {db db' : Db X} {d : Did (sig (satsPay X))} (ho : UsesQueue t d.1)
    (hown : ∀ i, Claimed i t → ∃ j, db.core.jobs.lookup i = some j)
    (hs : PoolStep seeJobs db db' d) : JobMove p t db.core.now db.core.jobs d db'.core.jobs := by
  cases hs with
  | pool he hdb =>
    rw [show db'.core.jobs = _ from hdb]
    exact jobMove_of_pool ho hown he
  | other hd hdb =>
    rw [show db'.core.jobs = db.core.jobs from hdb]
    obtain ⟨o, r⟩ := d
    cases o with
    | pool st =>
      cases r with
      | ok a => exact absurd rfl (hd st a)
      | error e =>
        cases st with
        | ext st => exact .same (fun _ _ => Iff.rfl) (fun _ => rfl) fun _ => rfl
        | core st => cases st <;> exact .same (fun _ _ => Iff.rfl) (fun _ => rfl) fun _ => rfl
    | _ => exact .same (fun _ _ => Iff.rfl) (fun _ => rfl) fun _ => rfl

end

/-! ## The invariant -/

/-- How often the job has been tried, by its row at the outset. -/
def attemptsAt (jobs : Table Job) (i : Uuid) : Nat := ((jobs.lookup i).map Job.attempts).getD 0

/-- A row is tried again only while it may be. -/
def Job.Sound (j : Job) : Prop :=
  j.attempts ≤ j.maxAttempts ∧ (j.status = .pending → j.attempts < j.maxAttempts)

structure QueueInv (jobs₀ jobs : Table Job) (h : Hist (sig (satsPay X))) : Prop where
  running : ∀ p i, Claimed i (doneBy p h) → ∃ j, jobs.lookup i = some j ∧ j.status = .running
  exclusive : ∀ p q i, Claimed i (doneBy p h) → Claimed i (doneBy q h) → p = q
  sound : ∀ i j, jobs.lookup i = some j → j.Sound
  attempts : ∀ i j, jobs.lookup i = some j → j.attempts = attemptsAt jobs₀ i + h.countP (claimsJob i)
  absent : ∀ i, jobs.lookup i = none → attemptsAt jobs₀ i = 0 ∧ h.countP (claimsJob i) = 0
  present : ∀ i e, e ∈ h → enqueues i e = true → ∃ j, jobs.lookup i = some j

section
variable {jobs₀ jobs jobs' : Table Job} {h : Hist (sig (satsPay X))} {p : Nat}

/-- An event that changes no job and says nothing of them. -/
theorem QueueInv.aside (hi : QueueInv jobs₀ jobs h) {e : Event (sig (satsPay X))}
    (hd : ∀ q i, Claimed i (doneBy q (e :: h)) ↔ Claimed i (doneBy q h))
    (hc : ∀ i, claimsJob i e = false) (he : ∀ i, enqueues i e = false) :
    QueueInv jobs₀ jobs (e :: h) where
  running q i hq := hi.running q i ((hd q i).1 hq)
  exclusive q r i hq hr := hi.exclusive q r i ((hd q i).1 hq) ((hd r i).1 hr)
  sound := hi.sound
  attempts i j hj := by rw [List.countP_cons_of_neg (by simp [hc i]), hi.attempts i j hj]
  absent i hn := by
    rw [List.countP_cons_of_neg (by simp [hc i])]
    exact hi.absent i hn
  present i e' hm he' := by
    rcases List.mem_cons.1 hm with rfl | hm
    · rw [he i] at he'
      cases he'
    · exact hi.present i e' hm he'

/-- An event that changes one row, and no claim of another. -/
theorem QueueInv.put (hi : QueueInv jobs₀ jobs h) {e : Event (sig (satsPay X))} {i : Uuid} {j : Job}
    (hd : ∀ q k, k ≠ i → (Claimed k (doneBy q (e :: h)) ↔ Claimed k (doneBy q h)))
    (hrun : ∀ q, Claimed i (doneBy q (e :: h)) → j.status = .running)
    (hex : ∀ q r, Claimed i (doneBy q (e :: h)) → Claimed i (doneBy r (e :: h)) → q = r)
    (hc : ∀ k, k ≠ i → claimsJob k e = false) (he : ∀ k, k ≠ i → enqueues k e = false)
    (hs : j.Sound) (ha : j.attempts = attemptsAt jobs₀ i + (e :: h).countP (claimsJob i)) :
    QueueInv jobs₀ (jobs.insert i j) (e :: h) where
  running q k hq := by
    by_cases hk : k = i
    · subst hk
      exact ⟨j, AList.lookup_insert _, hrun q hq⟩
    · rw [AList.lookup_insert_ne hk]
      exact hi.running q k ((hd q k hk).1 hq)
  exclusive q r k hq hr := by
    by_cases hk : k = i
    · subst hk
      exact hex q r hq hr
    · exact hi.exclusive q r k ((hd q k hk).1 hq) ((hd r k hk).1 hr)
  sound k j' hj := by
    by_cases hk : k = i
    · subst hk
      rw [AList.lookup_insert] at hj
      cases hj
      exact hs
    · rw [AList.lookup_insert_ne hk] at hj
      exact hi.sound k j' hj
  attempts k j' hj := by
    by_cases hk : k = i
    · subst hk
      rw [AList.lookup_insert] at hj
      cases hj
      exact ha
    · rw [AList.lookup_insert_ne hk] at hj
      rw [List.countP_cons_of_neg (by simp [hc k hk]), hi.attempts k j' hj]
  absent k hn := by
    by_cases hk : k = i
    · subst hk
      rw [AList.lookup_insert] at hn
      cases hn
    · rw [AList.lookup_insert_ne hk] at hn
      rw [List.countP_cons_of_neg (by simp [hc k hk])]
      exact hi.absent k hn
  present k e' hm he' := by
    by_cases hk : k = i
    · subst hk
      exact ⟨j, AList.lookup_insert _⟩
    · rw [AList.lookup_insert_ne hk]
      rcases List.mem_cons.1 hm with rfl | hm
      · rw [he k hk] at he'
        cases he'
      · exact hi.present k e' hm he'

theorem claimed_did (q : Nat) (i : Uuid) (d : Did (sig (satsPay X))) :
    Claimed i (doneBy q (.did p d.1 d.2 :: h)) ↔
      if q = p then Claimed i (d :: doneBy p h) else Claimed i (doneBy q h) := by
  by_cases hq : q = p
  · subst hq
    rw [if_pos rfl, doneBy_self]
  · rw [if_neg hq, doneBy_of_ne (by simp [Ne.symm hq])]

/-- Who closes the job had it in hand, and then nobody has. -/
theorem QueueInv.released (hi : QueueInv jobs₀ jobs h) {i : Uuid} {d : Did (sig (satsPay X))}
    (hd : ∀ t, ¬ Claimed i (d :: t)) (hp : Claimed i (doneBy p h)) (q : Nat) :
    ¬ Claimed i (doneBy q (.did p d.1 d.2 :: h)) := by
  intro hq
  rw [claimed_did] at hq
  split at hq
  · exact hd _ hq
  · rename_i hne
    exact hne (hi.exclusive q p i hq hp)

theorem QueueInv.step {now : Time} {d : Did (sig (satsPay X))} (hi : QueueInv jobs₀ jobs h)
    (hm : JobMove p (doneBy p h) now jobs d jobs') :
    QueueInv jobs₀ jobs' (.did p d.1 d.2 :: h) := by
  -- where an operation says nothing of a job, who has claimed it stays the same
  have other : ∀ {k : Uuid}, (Claimed k (d :: doneBy p h) ↔ Claimed k (doneBy p h)) → ∀ q,
      Claimed k (doneBy q (.did p d.1 d.2 :: h)) ↔ Claimed k (doneBy q h) := by
    intro k hk q
    rw [claimed_did]
    split
    · rename_i hq
      rw [hq, hk]
    · exact Iff.rfl
  cases hm with
  | same hd hc he => exact hi.aside (fun q i => other (hd i _) q) hc he
  | @enqueue jobType payload i hn =>
    have free : ∀ q, ¬ Claimed i (doneBy q h) := by
      intro q hq
      obtain ⟨j, hj, -⟩ := hi.running q i hq
      rw [hn] at hj
      cases hj
    have free' : ∀ q, ¬ Claimed i
        (doneBy q (.did p (.pool (.core (.enqueue jobType payload))) (.ok i) :: h)) :=
      fun q hq => free q ((other Iff.rfl q).1 hq)
    obtain ⟨h₀, hc⟩ := hi.absent i hn
    refine hi.put (fun q k _ => other Iff.rfl q) (fun q hq => absurd hq (free' q))
      (fun q r hq => absurd hq (free' q)) (fun _ _ => rfl) (fun k hk => ?_) ⟨?_, ?_⟩ ?_
    · exact beq_false_of_ne (Ne.symm hk)
    · exact Nat.zero_le 5
    · exact fun _ => Nat.succ_pos 4
    · rw [h₀, List.countP_cons_of_neg (by simp [claimsJob]), hc]
      rfl
  | @claim jobType lockedBy i j hj hs =>
    have free : ∀ q, ¬ Claimed i (doneBy q h) := by
      intro q hq
      obtain ⟨j', hj', hr⟩ := hi.running q i hq
      rw [hj] at hj'
      cases hj'
      rw [hs] at hr
      cases hr
    have mine : ∀ q, Claimed i (doneBy q (.did p (.pool (.core (.claimNext jobType lockedBy)))
        (.ok (some (i, j.claim lockedBy))) :: h)) → q = p := by
      intro q hq
      by_contra hne
      rw [claimed_did q i ⟨.pool (.core (.claimNext jobType lockedBy)), _⟩, if_neg hne] at hq
      exact free q hq
    have sound := hi.sound i j hj
    refine hi.put (fun q k hk => other ⟨fun h => h.resolve_left (Ne.symm hk), .inr⟩ q)
      (fun _ _ => rfl) (fun q r hq hr => (mine q hq).trans (mine r hr).symm) (fun k hk => ?_)
      (fun _ _ => rfl) ⟨sound.2 hs, fun h => nomatch h⟩ ?_
    · exact beq_false_of_ne (Ne.symm hk)
    · rw [List.countP_cons_of_pos (by simp [claimsJob])]
      show j.attempts + 1 = _
      rw [hi.attempts i j hj, Nat.add_assoc]
  | @complete i j hp hj =>
    have free := hi.released (d := ⟨.pool (.core (.completeJob i)), .ok ()⟩) (fun _ h => h.1 rfl) hp
    have sound := hi.sound i j hj
    refine hi.put (fun q k hk => other ⟨fun h => h.2, fun h => ⟨Ne.symm hk, h⟩⟩ q)
      (fun q hq => absurd hq (free q)) (fun q r hq => absurd hq (free q)) (fun _ _ => rfl)
      (fun _ _ => rfl) ⟨sound.1, fun h => nomatch h⟩ ?_
    rw [List.countP_cons_of_neg (by simp [claimsJob])]
    exact hi.attempts i j hj
  | @fail i error j hp hj =>
    have free := hi.released (d := ⟨.pool (.core (.failJob i error)), .ok ()⟩) (fun _ h => h.1 rfl) hp
    have sound := hi.sound i j hj
    refine hi.put (fun q k hk => other ⟨fun h => h.2, fun h => ⟨Ne.symm hk, h⟩⟩ q)
      (fun q hq => absurd hq (free q)) (fun q r hq => absurd hq (free q)) (fun _ _ => rfl)
      (fun _ _ => rfl) ⟨sound.1, fun h => ?_⟩ ?_
    · -- back to `PENDING` only while attempts remain
      by_contra hge
      have hge' : j.attempts ≥ j.maxAttempts := not_lt.1 hge
      simp [Job.fail, hge'] at h
    · rw [List.countP_cons_of_neg (by simp [claimsJob])]
      exact hi.attempts i j hj

/-- A finished job stays as it is, and is not claimed. -/
theorem JobMove.finished {now : Time} {d : Did (sig (satsPay X))} (hi : QueueInv jobs₀ jobs h)
    (hm : JobMove p (doneBy p h) now jobs d jobs') {i : Uuid} {j : Job}
    (hj : jobs.lookup i = some j) (hf : j.status = .done ∨ j.status = .failed) :
    jobs'.lookup i = some j ∧ claimsJob i (.did p d.1 d.2) = false := by
  -- whose row is written is another job, for this one is neither waiting nor in hand
  have other : ∀ {k : Uuid} {j' : Job}, jobs.lookup k = some j' →
      j'.status = .pending ∨ j'.status = .running → k ≠ i := by
    rintro k j' hk hs rfl
    rw [hj] at hk
    cases hk
    rcases hf with hf | hf <;> rcases hs with hs | hs <;> rw [hf] at hs <;> cases hs
  have held : ∀ {k : Uuid}, Claimed k (doneBy p h) → k ≠ i := by
    intro k hk
    obtain ⟨j', hj', hr⟩ := hi.running p k hk
    exact other hj' (.inr hr)
  cases hm with
  | same hd hc he => exact ⟨hj, hc i⟩
  | enqueue hn =>
    refine ⟨(AList.lookup_insert_ne ?_).trans hj, rfl⟩
    rintro rfl
    rw [hn] at hj
    cases hj
  | claim hk hs =>
    have hne := other hk (.inl hs)
    exact ⟨(AList.lookup_insert_ne hne.symm).trans hj, beq_false_of_ne hne⟩
  | complete hp _ => exact ⟨(AList.lookup_insert_ne (held hp).symm).trans hj, rfl⟩
  | fail hp _ => exact ⟨(AList.lookup_insert_ne (held hp).symm).trans hj, rfl⟩

/-- A job that runs after the move was in the hands of `p` or of another before, or is so now. -/
theorem JobMove.running {now : Time} {d : Did (sig (satsPay X))}
    (hm : JobMove p (doneBy p h) now jobs d jobs') {i : Uuid} {j : Job}
    (hj : jobs'.lookup i = some j) (hr : j.status = .running) :
    Claimed i (doneBy p (.did p d.1 d.2 :: h)) ∨
      jobs.lookup i = some j ∧ (Claimed i (d :: doneBy p h) ↔ Claimed i (doneBy p h)) := by
  rw [doneBy_self]
  -- a row that is written runs only where it was claimed
  have put : ∀ {k : Uuid} {j' : Job}, (jobs.insert k j').lookup i = some j →
      (k = i ∧ j' = j) ∨ k ≠ i ∧ jobs.lookup i = some j := by
    intro k j' hl
    by_cases hk : k = i
    · subst hk
      rw [AList.lookup_insert] at hl
      exact .inl ⟨rfl, Option.some.inj hl⟩
    · rw [AList.lookup_insert_ne (Ne.symm hk)] at hl
      exact .inr ⟨hk, hl⟩
  cases hm with
  | same hd hc he => exact .inr ⟨hj, hd i _⟩
  | enqueue hn =>
    rcases put hj with ⟨-, rfl⟩ | ⟨-, hl⟩
    · cases hr
    · exact .inr ⟨hl, Iff.rfl⟩
  | claim hk hs =>
    rcases put hj with ⟨rfl, -⟩ | ⟨hne, hl⟩
    · exact .inl (.inl rfl)
    · exact .inr ⟨hl, ⟨fun h => h.resolve_left hne, .inr⟩⟩
  | complete hp _ =>
    rcases put hj with ⟨-, rfl⟩ | ⟨hne, hl⟩
    · cases hr
    · exact .inr ⟨hl, ⟨fun h => h.2, fun h => ⟨hne, h⟩⟩⟩
  | @fail k error j' hp _ =>
    rcases put hj with ⟨-, rfl⟩ | ⟨hne, hl⟩
    · simp only [Job.fail] at hr
      split at hr <;> cases hr
    · exact .inr ⟨hl, ⟨fun h => h.2, fun h => ⟨hne, h⟩⟩⟩

end

/-! ## Whole runs -/

section
variable {main : Code (satsPay X) Empty Unit → Prop}
  {cond : Conf (machine (satsPay X)) → Event (sig (satsPay X)) → Prop}
  {jobs₀ : Table Job} {w w' : World (machine (satsPay X))}

/-- The end of a process says nothing of the jobs. -/
theorem QueueInv.stop {jobs : Table Job} {h : Hist (sig (satsPay X))} (hi : QueueInv jobs₀ jobs h)
    {e : Event (sig (satsPay X))} (he : ∀ p o r, e ≠ .did p o r) : QueueInv jobs₀ jobs (e :: h) := by
  cases e with
  | did p o r => exact absurd rfl (he p o r)
  | crashed p | ended p | ticked =>
    exact hi.aside (fun _ _ => Iff.rfl) (fun _ => rfl) fun _ => rfl

abbrev QueueWorld (jobs₀ : Table Job) (w : World (machine (satsPay X))) : Prop :=
  QueueInv jobs₀ w.conf.s.db.core.jobs w.conf.hist

abbrev QueueStep (cond : Conf (machine (satsPay X)) → Event (sig (satsPay X)) → Prop)
    (w w' : World (machine (satsPay X))) : Prop := PoolMove (S := satsPay X) seeJobs UsesQueue cond w w'

theorem QueueInv.move {jobs₀ : Table Job} {db db' : Db X} {h : Hist (sig (satsPay X))} {p : Nat}
    {d : Did (sig (satsPay X))} (hi : QueueInv jobs₀ db.core.jobs h)
    (ho : UsesQueue (doneBy p h) d.1) (hs : PoolStep seeJobs db db' d) :
    JobMove p (doneBy p h) db.core.now db.core.jobs d db'.core.jobs :=
  jobMove_of_step ho (fun i hc => (hi.running p i hc).imp fun _ hj => hj.1) hs

theorem queueWorld_step (hi : QueueWorld jobs₀ w) (hm : QueueStep cond w w') :
    QueueWorld jobs₀ w' := by
  unfold QueueWorld
  cases hm with
  | start hconf hp =>
    rw [hconf]
    exact hi
  | act p d hφ hs hcond hh hlive hc hp =>
    rw [hh]
    exact hi.step (hi.move hφ hs)
  | stop p e he hcond hdb hh hp =>
    rw [hh, show w'.conf.s.db.core.jobs = _ from hdb]
    exact hi.stop (by rcases he with rfl | rfl <;> simp)
  | tick hdb hcond hh hp =>
    rw [hh, show w'.conf.s.db.core.jobs = _ from hdb]
    exact hi.stop (by simp)

/-- A queue in which no job runs and each may be tried as its row says. -/
structure QueueStart (jobs : Table Job) : Prop where
  idle : ∀ i j, jobs.lookup i = some j → j.status ≠ .running
  sound : ∀ i j, jobs.lookup i = some j → j.Sound

theorem queueWorld_init (db : Db X) (hd : QueueStart db.core.jobs) :
    QueueWorld db.core.jobs (.init (machine (satsPay X)) (.start db)) where
  running _ _ h := h.elim
  exclusive _ _ _ h := h.elim
  sound := hd.sound
  attempts i j hj := by
    have hj' : db.core.jobs.lookup i = some j := hj
    simp [attemptsAt, hj', World.init]
  absent i hi := by
    have hi' : db.core.jobs.lookup i = none := hi
    exact ⟨by simp [attemptsAt, hi'], rfl⟩
  present _ _ h := absurd h List.not_mem_nil

theorem off_of_usesQueue (t : List (Did (sig (satsPay X)))) (st : Stmt X)
    (h : UsesQueue t (.tx st)) : OffQueue st := by
  rintro c rfl
  exact h

/-- A finished job stays as it is, and is claimed no more. -/
theorem finished_step (hi : QueueWorld jobs₀ w) (hm : QueueStep cond w w') {i : Uuid} {j : Job}
    (hj : w.conf.s.db.core.jobs.lookup i = some j) (hf : j.status = .done ∨ j.status = .failed) :
    w'.conf.s.db.core.jobs.lookup i = some j ∧
      w'.conf.hist.countP (claimsJob i) = w.conf.hist.countP (claimsJob i) := by
  cases hm with
  | start hconf hp =>
    rw [hconf]
    exact ⟨hj, rfl⟩
  | act p d hφ hs hcond hh hlive hc hp =>
    obtain ⟨hl, hcl⟩ := (hi.move hφ hs).finished hi hj hf
    exact ⟨hl, by rw [hh, List.countP_cons_of_neg (by simp [hcl])]⟩
  | stop p e he hcond hdb hh hp =>
    have hne : ¬ claimsJob i e = true := by rcases he with rfl | rfl <;> simp [claimsJob]
    exact ⟨(congrArg (·.lookup i) hdb).trans hj, by rw [hh, List.countP_cons_of_neg hne]⟩
  | tick hdb hcond hh hp =>
    exact ⟨(congrArg (·.lookup i) hdb).trans hj, by
      rw [hh, List.countP_cons_of_neg (by simp [claimsJob])]⟩

theorem finished_of_steps (hmain : ∀ c, main c → c.Free UsesQueue)
    (hp : PoolWorld UsesQueue SparesJobs w) (hw : QueueWorld jobs₀ w) {i : Uuid} {j : Job}
    (hj : w.conf.s.db.core.jobs.lookup i = some j) (hf : j.status = .done ∨ j.status = .failed)
    (hs : Steps (machine (satsPay X)) main cond w w') :
    w'.conf.hist.countP (claimsJob i) = w.conf.hist.countP (claimsJob i) := by
  have all : PoolWorld UsesQueue SparesJobs w' ∧ QueueWorld jobs₀ w' ∧
      w'.conf.s.db.core.jobs.lookup i = some j ∧
      w'.conf.hist.countP (claimsJob i) = w.conf.hist.countP (claimsJob i) := by
    induction hs with
    | refl => exact ⟨hp, hw, hj, rfl⟩
    | tail _ hs ih =>
      obtain ⟨hp', hw', hj', hc'⟩ := ih
      obtain ⟨hp'', hm⟩ := poolOnly_jobs.step off_of_usesQueue hmain hp' hs
      obtain ⟨hj'', hc''⟩ := finished_step hw' hm hj' hf
      exact ⟨hp'', queueWorld_step hw' hm, hj'', hc''.trans hc'⟩
  exact all.2.2.2

/-! ## No job is lost -/

def InLiveHands (w : World (machine (satsPay X))) (i : Uuid) : Prop :=
  ∃ p c, w.proc p = .running c ∧ Claimed i (doneBy p w.conf.hist)

/-- `claim_next` takes the job, or another of its type that has waited longer. -/
def Claimable (db : Db X) (i : Uuid) : Prop :=
  ∃ j, db.core.jobs.lookup i = some j ∧ j.status = .pending ∧ j.runAfter ≤ db.core.now

/-- Every job that is neither done nor failed is held by a live process or will be claimable. -/
def NoneLost (w : World (machine (satsPay X))) : Prop :=
  ∀ i j, w.conf.s.db.core.jobs.lookup i = some j → j.status ≠ .done → j.status ≠ .failed →
    InLiveHands w i ∨ ∃ n, Claimable (w.conf.s.db.wait n) i

def StopsFree (c : Conf (machine (satsPay X))) (e : Event (sig (satsPay X))) : Prop :=
  ∀ p, e = .crashed p ∨ e = .ended p → ∀ i, ¬ Claimed i (doneBy p c.hist)

def RunsHeld (w : World (machine (satsPay X))) : Prop :=
  ∀ i j, w.conf.s.db.core.jobs.lookup i = some j → j.status = .running → InLiveHands w i

theorem NoneLost.of_runsHeld (h : RunsHeld w) : NoneLost w := by
  intro i j hj hd hf
  cases hs : j.status with
  | pending => exact .inr ⟨j.runAfter, j, hj, hs, Nat.le_add_left _ _⟩
  | running => exact .inl (h i j hj hs)
  | done => exact absurd hs hd
  | failed => exact absurd hs hf

theorem RunsHeld.step (hi : QueueWorld jobs₀ w) (hr : RunsHeld w)
    (hm : QueueStep StopsFree w w') : RunsHeld w' := by
  intro i j hj hrun
  cases hm with
  | start hconf hp =>
    rw [hconf] at hj
    obtain ⟨p, c, hc, hcl⟩ := hr i j hj hrun
    obtain ⟨c', hc'⟩ := hp p c hc
    exact ⟨p, c', hc', by rw [hconf]; exact hcl⟩
  | act p d hφ hs hcond hh hlive hc hp =>
    rcases (hi.move hφ hs).running hj hrun with hcl | ⟨hl, hiff⟩
    · obtain ⟨c, hc⟩ := hc
      exact ⟨p, c, hc, by rw [hh]; exact hcl⟩
    · obtain ⟨q, c, hq, hcl⟩ := hr i j hl hrun
      obtain ⟨c', hc'⟩ := hp q c hq
      refine ⟨q, c', hc', ?_⟩
      rw [hh, claimed_did]
      split
      · rename_i hqp
        exact hiff.2 (hqp ▸ hcl)
      · exact hcl
  | stop p e he hcond hdb hh hp =>
    obtain ⟨q, c, hq, hcl⟩ := hr i j ((congrArg (·.lookup i) hdb).symm.trans hj) hrun
    have hqp : q ≠ p := by
      rintro rfl
      exact hcond q he i hcl
    refine ⟨q, c, hp q c hqp hq, ?_⟩
    rw [hh, doneBy_of_ne (by rcases he with rfl | rfl <;> simp [Ne.symm hqp])]
    exact hcl
  | tick hdb hcond hh hp =>
    obtain ⟨q, c, hq, hcl⟩ := hr i j ((congrArg (·.lookup i) hdb).symm.trans hj) hrun
    exact ⟨q, c, by rw [hp]; exact hq, by rw [hh]; exact hcl⟩

structure QueueLaw (main : Code (satsPay X) Empty Unit → Prop) (w : World (machine (satsPay X))) :
    Prop where
  exclusive : ∀ p q i, Claimed i (doneBy p w.conf.hist) → Claimed i (doneBy q w.conf.hist) → p = q
  atMost : ∀ i j, w.conf.s.db.core.jobs.lookup i = some j →
    w.conf.hist.countP (claimsJob i) ≤ j.maxAttempts
  final : ∀ i j, w.conf.s.db.core.jobs.lookup i = some j → j.status = .done ∨ j.status = .failed →
    ∀ w', Steps (machine (satsPay X)) main (anyStep _) w w' →
      w'.conf.hist.countP (claimsJob i) = w.conf.hist.countP (claimsJob i)
  present : ∀ i e, e ∈ w.conf.hist → enqueues i e = true →
    ∃ j, w.conf.s.db.core.jobs.lookup i = some j
  noneLost : NoneLost w

/-- In a run in which nobody stops with a job in hand, none is lost; the rest holds
in any run. -/
theorem queueLaw_of_run (hmain : ∀ c, main c → c.Free UsesQueue) {db : Db X}
    (hd : QueueStart db.core.jobs) (hs : Run main StopsFree db w) : QueueLaw main w := by
  obtain ⟨hp, hi, hr⟩ := poolOnly_jobs.run (I := fun w => QueueWorld db.core.jobs w ∧ RunsHeld w)
    off_of_usesQueue hmain
    ⟨queueWorld_init db hd, fun i j hj h => absurd h (hd.idle i j hj)⟩
    (fun _ _ _ hi hm => ⟨queueWorld_step hi.1 hm, hi.2.step hi.1 hm⟩) hs
  exact
    { exclusive := hi.exclusive
      atMost := fun i j hj => by
        have ha := hi.attempts i j hj
        have hs := (hi.sound i j hj).1
        omega
      final := fun _ _ hj hf _ hs' => finished_of_steps hmain hp hi hj hf hs'
      present := hi.present
      noneLost := .of_runsHeld hr }

end

/-! ## Workers -/

section

/-- `queue::complete` or `queue::fail` of a claimed job, whose own failure is only logged. -/
def closeClaimed (job : Uuid) (outcome : Except String Unit) : Code (satsPay X) Empty Unit := do
  let _ ← (match outcome with
    | .ok () => (corePool (.completeJob job) : Code (satsPay X) DbError Unit)
    | .error error => corePool (.failJob job error)).attempt
  pure ()

/-- The loop of a worker: `process` is what it does with a job, and `fuel` bounds the jobs
that one call takes. -/
def drainQueue (jobType lockedBy : String) (process : Payload → Code (satsPay X) String Unit) :
    ℕ → Code (satsPay X) Empty Unit
  | 0 => pure ()
  | fuel + 1 => do
    let claimed ← (corePool (.claimNext jobType lockedBy) :
      Code (satsPay X) DbError (Option (Uuid × Job))).attempt
    match claimed with
    | .ok (some (job, j)) => do
      let outcome ← (process j.payload).attempt
      closeClaimed job outcome
      drainQueue jobType lockedBy process fuel
    | _ => pure ()

theorem closeJob_eq : closeJob = closeClaimed := by
  funext job outcome
  cases outcome <;> rfl

/-- The broadcast worker is such a loop. -/
theorem drainBroadcastQueue_eq (E : WithdrawalsEnv) (lockedBy : String) : ∀ fuel,
    drainBroadcastQueue E lockedBy fuel =
      drainQueue withdrawalBroadcastJob lockedBy (runBroadcastJob E) fuel
  | 0 => rfl
  | fuel + 1 => by
    unfold drainBroadcastQueue drainQueue
    rw [funext fun _ => drainBroadcastQueue_eq E lockedBy fuel, closeJob_eq]
    refine congrArg _ (funext fun claimed => ?_)
    rcases claimed with e | _ | ⟨job, j⟩ <;> rfl

def LeavesQueue : Op (satsPay X) → Prop
  | .tx (.core st) => st.onQueue = false
  | .pool (.core st) => st.onQueue = false
  | _ => True

theorem usesQueue_of_leaves (t : List (Did (sig (satsPay X)))) (o : Op (satsPay X))
    (h : LeavesQueue o) : UsesQueue t o := by
  cases o with
  | tx st =>
    cases st with
    | core st => exact h
    | ext st => trivial
  | pool st =>
    cases st with
    | core st =>
      cases st with
      | completeJob i | failJob i error => cases h
      | _ => trivial
    | ext st => trivial
  | _ => trivial

theorem Claimed.of_leaves {i : Uuid} (o : Op (satsPay X)) (r : Op.Resp (satsPay X) o)
    (t : List (Did (sig (satsPay X)))) (h : LeavesQueue o) (hi : Claimed i t) :
    Claimed i (⟨o, r⟩ :: t) := by
  cases o with
  | pool st =>
    cases st with
    | core st =>
      cases st with
      | enqueue _ _ | claimNext _ _ | completeJob _ | failJob _ _ => cases h
      | _ => exact hi
    | ext st => exact hi
  | _ => exact hi

theorem heeds_closeClaimed {job : Uuid} (outcome : Except String Unit)
    {t : List (Did (sig (satsPay X)))} (h : Claimed job t) :
    (closeClaimed job outcome).Heeds UsesQueue t := by
  refine Prog.Heeds.bind (fun _ => .ret _) (Prog.Heeds.attempt ?_)
  split
  · exact ⟨h, fun r => free_orThrow r _⟩
  · exact ⟨h, fun r => free_orThrow r _⟩

theorem free_drainQueue {jobType lockedBy : String}
    {process : Payload → Code (satsPay X) String Unit}
    (hp : ∀ payload, (process payload).Free fun _ o => LeavesQueue o) : ∀ fuel,
    (drainQueue jobType lockedBy process fuel).Free UsesQueue
  | 0 => .ret _
  | fuel + 1 => fun t => by
    refine ⟨trivial, fun r => ?_⟩
    rcases r with e | _ | ⟨job, j⟩
    · exact trivial
    · exact trivial
    · have rest : ∀ outcome t', Claimed job t' → (closeClaimed job outcome >>= fun _ =>
          drainQueue jobType lockedBy process fuel).Heeds UsesQueue t' :=
        fun outcome t' ht => Prog.Heeds.bind (fun _ => free_drainQueue hp fuel)
          (heeds_closeClaimed outcome ht)
      exact Prog.Heeds.bind_keeping (T := Claimed job) (fun o r t => Claimed.of_leaves o r t)
        usesQueue_of_leaves (fun outcome t' => rest outcome t') ((hp j.payload).attempt _) (.inl rfl)

/-! ### Two workers and two jobs -/

theorem queueStart_empty : QueueStart (∅ : Table Job) := ⟨nofun, nofun⟩

theorem QueueStart.insert {jobs : Table Job} (h : QueueStart jobs) (i : Uuid) (jobType : String)
    (payload : Payload) (now : Time) : QueueStart (jobs.insert i (newJob jobType payload now)) := by
  refine ⟨fun k j hj => ?_, fun k j hj => ?_⟩
  · by_cases hk : k = i
    · subst hk
      cases (AList.lookup_insert _).symm.trans hj
      exact fun h => nomatch h
    · exact h.idle k j ((AList.lookup_insert_ne hk).symm.trans hj)
  · by_cases hk : k = i
    · subst hk
      cases (AList.lookup_insert _).symm.trans hj
      exact ⟨Nat.zero_le 5, fun _ => Nat.succ_pos 4⟩
    · exact h.2 k j ((AList.lookup_insert_ne hk).symm.trans hj)

def inHand : List (Did (sig (satsPay X))) → List Uuid
  | [] => []
  | ⟨.pool (.core (.claimNext _ _)), .ok (some (job, _))⟩ :: t => job :: inHand t
  | ⟨.pool (.core (.completeJob job)), .ok _⟩ :: t => (inHand t).filter (job ≠ ·)
  | ⟨.pool (.core (.failJob job _)), .ok _⟩ :: t => (inHand t).filter (job ≠ ·)
  | _ :: t => inHand t

theorem mem_inHand {i : Uuid} (t : List (Did (sig (satsPay X)))) : i ∈ inHand t ↔ Claimed i t := by
  fun_induction inHand t with
  | case1 => simp [Claimed]
  | case2 => simp_all [Claimed, eq_comm]
  | case3 => simp_all [Claimed, and_comm]
  | case4 => simp_all [Claimed, and_comm]
  | case5 d t h₁ h₂ h₃ ih => rw [ih, Claimed.eq_5 i d t h₁ h₂ h₃]

def timingOut : Code (satsPay noExt) Empty Unit :=
  drainQueue withdrawalBroadcastJob "first" (fun _ => .throw "timeout") 1

def completing : Code (satsPay noExt) Empty Unit :=
  drainQueue withdrawalBroadcastJob "second" (fun _ => pure ()) 3

def workers (c : Code (satsPay noExt) Empty Unit) : Prop := c = timingOut ∨ c = completing

theorem free_workers (c : Code (satsPay noExt) Empty Unit) (h : workers c) : c.Free UsesQueue := by
  rcases h with rfl | rfl
  · refine free_drainQueue (fun _ => ?_) 1
    exact fun _ => trivial
  · exact free_drainQueue (fun _ => .ret _) 3

def oneJob : Db noExt where
  core := {
    now := 0
    wallets := ∅
    ledger := []
    jobs := (∅ : Table Job).insert 1 (newJob withdrawalBroadcastJob (.withdrawalId 7) 0)
    outbox := []
    auditLogs := [] }
  ext := ()

def twoJobs : Db noExt :=
  { oneJob with core := { oneJob.core with
    jobs := oneJob.core.jobs.insert 2 (newJob withdrawalBroadcastJob (.withdrawalId 8) 0) } }

theorem queueStart_twoJobs : QueueStart twoJobs.core.jobs :=
  (queueStart_empty.insert _ _ _ _).insert _ _ _ _

def workerRunner : Runner (satsPay noExt) where
  bound := 3
  progs := [timingOut, completing]
  tick := Db.wait
  allow c e := match e with
    | .crashed p | .ended p => (inHand (doneBy p c.hist)).isEmpty
    | _ => true

theorem stopsFree_of_allow (c : Conf (machine (satsPay noExt))) (e : Event (sig (satsPay noExt)))
    (h : workerRunner.allow c e = true) : StopsFree c e := by
  intro p he i hi
  have hempty : (inHand (doneBy p c.hist)).isEmpty = true := by
    rcases he with rfl | rfl <;> exact h
  rw [← mem_inHand, List.isEmpty_iff.1 hempty] at hi
  cases hi

def workersScript : List (Act (satsPay noExt)) :=
  [.start 0 0, .start 1 1] ++ proceed 0 1 ++ proceed 1 1 ++ proceed 0 1 ++ [.finish 0] ++
    proceed 1 1 ++ [.tick 30] ++ proceed 1 3 ++ [.finish 1, .start 2 1] ++ proceed 2 1 ++ [.crash 2]

/-- Each worker has a job. The first one's fails, and is done by the second when it is tried
again. A third finds nothing to do, and dies. -/
theorem queueLaw_twoJobs : ∃ w : World (machine (satsPay noExt)),
    Run workers StopsFree twoJobs w ∧
    (w.conf.s.db.core.jobs.lookup 1).map (fun j => (j.status, j.attempts)) = some (.done, 1) ∧
    (w.conf.s.db.core.jobs.lookup 2).map (fun j => (j.status, j.attempts)) = some (.done, 2) ∧
    QueueLaw workers w := by
  have hrun : (workerRunner.run workersScript (.init _ (.start twoJobs))).map
      (fun w => ((w.conf.s.db.core.jobs.lookup 1).map (fun j => (j.status, j.attempts)),
        (w.conf.s.db.core.jobs.lookup 2).map (fun j => (j.status, j.attempts)))) =
      some (some (.done, 1), some (.done, 2)) := by
    decide +kernel
  obtain ⟨w, hw, hs⟩ := Option.map_eq_some_iff.1 hrun
  obtain ⟨h₁, h₂⟩ := by simpa only [Prod.mk.injEq] using hs
  have steps : Run workers StopsFree twoJobs w :=
    Runner.steps_of_run (R := workerRunner) (by simp [workerRunner, workers]) Db.tick_wait
      stopsFree_of_allow (fun _ _ => rfl) hw
  exact ⟨w, steps, h₁, h₂, queueLaw_of_run free_workers queueStart_twoJobs steps⟩

/-! ### A worker and one job -/

def oneWorker (c : Code (satsPay noExt) Empty Unit) : Prop :=
  c = drainQueue withdrawalBroadcastJob "worker" (fun _ => pure ()) 1

def stoppingRunner : Runner (satsPay noExt) where
  bound := 1
  progs := [drainQueue withdrawalBroadcastJob "worker" (fun _ => pure ()) 1]
  tick := Db.wait
  allow _ _ := true

/-- The worker dies between its claim and the end of the job, which nobody takes again. -/
theorem crash_loses_job : ¬ ∀ w, Run oneWorker (anyStep _) oneJob w → NoneLost w := by
  intro hall
  have hw : stoppingRunner.run [.start 0 0, .op 0 (.go 0), .crash 0] (.init _ (.start oneJob)) =
      some _ := rfl
  have steps : Steps (machine (satsPay noExt)) oneWorker (anyStep _) _ _ :=
    Runner.steps_of_run (R := stoppingRunner) (by simp [stoppingRunner, oneWorker]) Db.tick_wait
    (fun _ _ _ => trivial) (fun _ _ => rfl) hw
  have hd : JobStatus.running ≠ .done := nofun
  have hf : JobStatus.running ≠ .failed := nofun
  rcases hall _ steps 1 _ rfl hd hf with ⟨p, c, hp, -⟩ | ⟨n, j, hj, hs, -⟩
  · by_cases h : p = 0
    · subst h
      simp at hp
    · simp [h, World.init] at hp
  · cases hj
    cases hs

end

end SatsPay
