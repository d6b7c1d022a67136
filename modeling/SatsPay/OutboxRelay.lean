import SatsPay.Db
import SatsPay.Leading

/-!
# The transactional outbox and its relay

A transaction stages events, which its commit makes pending. A relay locks a batch of
pending rows, skipping those that others have locked, offers them to the broker one after
another, marks each that was acknowledged, and commits the marks of the batch together.
-/

namespace SatsPay

open Interleave

/-! ## Events -/

namespace DomainEvent

def aggregateType : DomainEvent → String
  | .depositConfirmed .. | .withdrawalBroadcasted .. | .withdrawalConfirmed ..
  | .withdrawalFailed .. => "wallet"
  | .swapExecuted .. => "swap"
  | .ledgerEntryCreated .. => "ledger"
  | .faucetClaimed .. => "faucet"
  | .stakeCreated .. | .stakeClosed .. => "stake"
  | .lendPositionOpened .. | .lendPositionClosed .. => "lend"
  | .rewardGranted .. => "rewards"
  | .adminActionPerformed .. => "admin"

/-- The key of the partition. -/
def aggregateId : DomainEvent → Uuid
  | .depositConfirmed walletId .. => walletId
  | .withdrawalBroadcasted walletId .. => walletId
  | .withdrawalConfirmed walletId .. => walletId
  | .withdrawalFailed walletId .. => walletId
  | .swapExecuted swapId .. => swapId
  | .ledgerEntryCreated walletId .. => walletId
  | .faucetClaimed walletId .. => walletId
  | .stakeCreated stakeId .. => stakeId
  | .stakeClosed stakeId .. => stakeId
  | .lendPositionOpened positionId .. => positionId
  | .lendPositionClosed positionId .. => positionId
  | .rewardGranted walletId .. => walletId
  | .adminActionPerformed adminId .. => adminId

def eventTypeName : DomainEvent → String
  | .depositConfirmed .. => "DepositConfirmed"
  | .withdrawalBroadcasted .. => "WithdrawalBroadcasted"
  | .withdrawalConfirmed .. => "WithdrawalConfirmed"
  | .withdrawalFailed .. => "WithdrawalFailed"
  | .swapExecuted .. => "SwapExecuted"
  | .ledgerEntryCreated .. => "LedgerEntryCreated"
  | .faucetClaimed .. => "FaucetClaimed"
  | .stakeCreated .. => "StakeCreated"
  | .stakeClosed .. => "StakeClosed"
  | .lendPositionOpened .. => "LendPositionOpened"
  | .lendPositionClosed .. => "LendPositionClosed"
  | .rewardGranted .. => "RewardGranted"
  | .adminActionPerformed .. => "AdminActionPerformed"

end DomainEvent

namespace Outbox

/-- `None` is the arm that the source calls unreachable. -/
def topicOf : String → Option String
  | "wallet" => some "bitcosats.wallet.events"
  | "swap" => some "bitcosats.swap.events"
  | "ledger" => some "bitcosats.ledger.events"
  | "faucet" => some "bitcosats.faucet.events"
  | "stake" => some "bitcosats.stake.events"
  | "lend" => some "bitcosats.lend.events"
  | "rewards" => some "bitcosats.rewards.events"
  | "admin" => some "bitcosats.admin.events"
  | _ => none

theorem topicOf_isSome (event : DomainEvent) : (topicOf event.aggregateType).isSome := by
  cases event <;> rfl

def topicFor (event : DomainEvent) : String := (topicOf event.aggregateType).get (topicOf_isSome event)

/-- The JSON of a row: that of an event, or any other. -/
inductive EventJson where
  | event (e : DomainEvent)
  | other (text : String)

def EventJson.fromValue : EventJson → Except String DomainEvent
  | .event e => .ok e
  | .other text => .error text

structure Envelope where
  eventId : Uuid
  event : EventJson

/-! ## The store -/

/-- A row with what open transactions have done to it: who has inserted it, who has locked
it, and when that one says it was published. -/
structure OutboxRow where
  id : Uuid
  aggregateType : String
  aggregateId : Uuid
  eventType : String
  payload : EventJson
  createdAt : Time
  publishedAt : Option Time
  inserter : Option ℕ
  lockedBy : Option ℕ
  update : Option Time

structure PendingRow where
  id : Uuid
  aggregateId : Uuid
  payload : EventJson

structure Session where
  began : Time
  aborted : Bool

/-- The rows stand in the order in which they were staged, the newest first. -/
structure Store where
  now : Time
  rows : List OutboxRow
  sessions : ℕ → Option Session

def Store.start (now : Time) : Store := ⟨now, [], fun _ => none⟩

def Store.setSession (s : Store) (p : ℕ) (t : Option Session) : Store :=
  { s with sessions := Function.update s.sessions p t }

def OutboxRow.same (r r' : OutboxRow) : Prop :=
  r'.id = r.id ∧ r'.aggregateType = r.aggregateType ∧ r'.aggregateId = r.aggregateId ∧
    r'.eventType = r.eventType ∧ r'.payload = r.payload ∧ r'.createdAt = r.createdAt

def OutboxRow.pending (r : OutboxRow) : PendingRow := ⟨r.id, r.aggregateId, r.payload⟩

def newRow (p : ℕ) (began : Time) (id : Uuid) (event : DomainEvent) : OutboxRow where
  id := id
  aggregateType := event.aggregateType
  aggregateId := event.aggregateId
  eventType := event.eventTypeName
  payload := .event event
  createdAt := began
  publishedAt := none
  inserter := some p
  lockedBy := none
  update := none

def OutboxRow.lock (p : ℕ) (xs : List Uuid) (r : OutboxRow) : OutboxRow :=
  if r.id ∈ xs then { r with lockedBy := some p } else r

def OutboxRow.mark (p : ℕ) (began : Time) (id : Uuid) (r : OutboxRow) : OutboxRow :=
  if r.id = id then { r with lockedBy := some p, update := some began } else r

def OutboxRow.settle (p : ℕ) (r : OutboxRow) : OutboxRow :=
  { r with
    publishedAt := if r.lockedBy = some p then r.update.or r.publishedAt else r.publishedAt
    inserter := if r.inserter = some p then none else r.inserter
    lockedBy := if r.lockedBy = some p then none else r.lockedBy
    update := if r.lockedBy = some p then none else r.update }

def OutboxRow.release (p : ℕ) (r : OutboxRow) : OutboxRow :=
  { r with
    lockedBy := if r.lockedBy = some p then none else r.lockedBy
    update := if r.lockedBy = some p then none else r.update }

def Store.commit (s : Store) (p : ℕ) : Store :=
  { s.setSession p none with rows := s.rows.map (OutboxRow.settle p) }

/-- What `p` has done is undone, and its session is left as `t`. -/
def Store.undo (s : Store) (p : ℕ) (t : Option Session) : Store :=
  { s.setSession p t with
    rows := (s.rows.filter fun r => r.inserter ≠ some p).map (OutboxRow.release p) }

/-- A row that is committed, not published, and not locked. A relay selects first of all, so
that no row is its own by then. -/
def OutboxRow.Free (r : OutboxRow) : Prop :=
  r.inserter = none ∧ r.publishedAt = none ∧ r.lockedBy = none

/-- `xs` are the oldest free rows, `limit` of them where there are so many. -/
structure Selects (rows : List OutboxRow) (limit : ℤ) (xs : List OutboxRow) : Prop where
  nonneg : 0 ≤ limit
  nodup : (xs.map OutboxRow.id).Nodup
  free : ∀ x ∈ xs, x ∈ rows ∧ x.Free
  ordered : xs.Pairwise fun x y => x.createdAt ≤ y.createdAt
  limited : (xs.length : ℤ) ≤ limit
  oldest : ∀ r ∈ rows, r.Free → r ∈ xs ∨
    (xs.length : ℤ) = limit ∧ ∀ x ∈ xs, x.createdAt ≤ r.createdAt

/-! ## Operations -/

inductive Op where
  | begin
  | stage (event : DomainEvent)
  | selectPending (limit : ℤ)
  | publish (topic key : String) (envelope : Envelope)
  | markPublished (id : Uuid)
  | commit
  | rollback

abbrev Op.Resp : Op → Type
  | .begin => Except DbError Unit
  | .stage _ => Except DbError Uuid
  | .selectPending _ => Except DbError (List PendingRow)
  | .publish .. => Except String Unit
  | .markPublished _ => Except DbError Unit
  | .commit => Except DbError Unit
  | .rollback => Unit

abbrev outboxSig : Sig := ⟨Op, Op.Resp⟩

/-- Any statement may fail, which aborts its transaction, and the broker may answer what it
likes. The rows that others have locked are skipped by a select and not written by a mark. -/
inductive Exec (p : ℕ) : (o : Op) → Store → Op.Resp o → Store → Prop
  | begin_ok {s} (h : s.sessions p = none) :
      Exec p .begin s (.ok ()) (s.setSession p (some ⟨s.now, false⟩))
  | begin_fail {s} (e : DbError) (h : s.sessions p = none) : Exec p .begin s (.error e) s
  | stage_ok {s t} (event : DomainEvent) (id : Uuid) (ht : s.sessions p = some t)
      (ha : t.aborted = false) (hid : ∀ r ∈ s.rows, r.id ≠ id) :
      Exec p (.stage event) s (.ok id) { s with rows := newRow p t.began id event :: s.rows }
  | stage_fail {s t} (event : DomainEvent) (e : DbError) (ht : s.sessions p = some t) :
      Exec p (.stage event) s (.error e) (s.undo p (some ⟨t.began, true⟩))
  | select_ok {s t xs} (limit : ℤ) (ht : s.sessions p = some t) (ha : t.aborted = false)
      (hs : Selects s.rows limit xs) :
      Exec p (.selectPending limit) s (.ok (xs.map OutboxRow.pending))
        { s with rows := s.rows.map (OutboxRow.lock p (xs.map OutboxRow.id)) }
  | select_fail {s t} (limit : ℤ) (e : DbError) (ht : s.sessions p = some t) :
      Exec p (.selectPending limit) s (.error e) (s.undo p (some ⟨t.began, true⟩))
  | publish {s} (topic key : String) (envelope : Envelope) (r : Except String Unit) :
      Exec p (.publish topic key envelope) s r s
  | mark_ok {s t} (id : Uuid) (ht : s.sessions p = some t) (ha : t.aborted = false)
      (hf : ∀ r ∈ s.rows, r.id = id → r.lockedBy = none ∨ r.lockedBy = some p) :
      Exec p (.markPublished id) s (.ok ()) { s with rows := s.rows.map (OutboxRow.mark p t.began id) }
  | mark_fail {s t} (id : Uuid) (e : DbError) (ht : s.sessions p = some t) :
      Exec p (.markPublished id) s (.error e) (s.undo p (some ⟨t.began, true⟩))
  | commit_ok {s t} (ht : s.sessions p = some t) : Exec p .commit s (.ok ()) (s.commit p)
  | commit_fail {s t} (e : DbError) (ht : s.sessions p = some t) :
      Exec p .commit s (.error e) (s.undo p none)
  | rollback {s} : Exec p .rollback s () (s.undo p none)

/-- Time passes. -/
abbrev machine : Machine where
  Sg := outboxSig
  S := Store
  exec := Exec
  close p s := s.undo p none
  env s s' := ∃ now, s.now ≤ now ∧ s' = { s with now := now }

/-! ## The relay -/

inductive RelayError where
  | db (e : DbError)
  | producer (text : String)
  | deserialize (text : String)

abbrev Relay := Prog outboxSig RelayError

def orThrow {ε α : Type} (f : ε → RelayError) : Except ε α → Relay α
  | .ok a => .ret a
  | .error e => .throw (f e)

def publishRow (row : PendingRow) : Relay Unit := do
  let event ← orThrow .deserialize row.payload.fromValue
  Prog.op (.publish (topicFor event) (toString row.aggregateId) ⟨row.id, row.payload⟩)
    (orThrow .producer)
  Prog.op (.markPublished row.id) (orThrow .db)

def publishRows : List PendingRow → ℕ → Relay ℕ
  | [], published => pure published
  | row :: pending, published => do
    publishRow row
    publishRows pending (published + 1)

def relayBatch (batchSize : ℤ) : Relay ℕ := do
  let pending ← Prog.op (.selectPending batchSize) (orThrow .db)
  let published ← publishRows pending 0
  Prog.op .commit (orThrow .db)
  pure published

/-- An error leaves the transaction to be rolled back. -/
def relayOnce (batchSize : ℤ) : Relay ℕ := do
  Prog.op .begin (orThrow .db)
  let r ← (relayBatch batchSize).attempt
  Prog.op .rollback .ret
  .ofExcept r

def Stages : Op → Prop
  | .begin | .stage _ | .commit | .rollback => True
  | _ => False

inductive OutboxProcess : Prog outboxSig Empty Unit → Prop
  | relay (batchSize : ℤ) : OutboxProcess (relayOnce batchSize).spawn
  | stager (c : Prog outboxSig Empty Unit) (h : c.Free fun _ => Stages) : OutboxProcess c

end Outbox

end SatsPay
