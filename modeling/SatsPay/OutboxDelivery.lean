import SatsPay.OutboxRelay

/-!
# Delivery of staged events

A row is marked as published only after the broker has acknowledged it, and no committed
row is lost. A batch is committed or given up as a whole, so an event that the broker
keeps rejecting holds up whatever shares its batch. Where it is alone there with events of
its aggregate, others go on and nothing is repeated because of it; and where events of an
aggregate are staged one commit after another, they are offered in that order.
-/

namespace SatsPay.Outbox

open Interleave

abbrev OutboxDid := Did outboxSig
abbrev OutboxEvent := Event outboxSig
abbrev OutboxHist := Hist outboxSig

/-! ## What is asked of the relay -/

def isAck (id : Uuid) : OutboxEvent → Bool
  | .did _ (.publish _ _ envelope) (.ok _) => envelope.eventId == id
  | _ => false

def isRejection (id : Uuid) : OutboxEvent → Bool
  | .did _ (.publish _ _ envelope) (.error _) => envelope.eventId == id
  | _ => false

def acks (id : Uuid) (h : OutboxHist) : ℕ := h.countP (isAck id)
def rejections (id : Uuid) (h : OutboxHist) : ℕ := h.countP (isRejection id)

def isAcked : OutboxDid → Bool
  | ⟨.publish .., .ok _⟩ => true
  | _ => false

def busy (p : ℕ) (h : OutboxHist) : Bool := (doneBy p h).any isAcked

/-- A batch with acknowledged events is given up: its relay dies, a statement fails, or the
broker rejects an event that it has not rejected `k` times before. -/
def interrupts (k : ℕ) : OutboxEvent → OutboxHist → Bool
  | .crashed p, h => busy p h
  | .did p (.markPublished _) (.error _), h => busy p h
  | .did p .commit (.error _), h => busy p h
  | .did p (.publish _ _ envelope) (.error _), h =>
    busy p h && decide (rejections envelope.eventId h < k)
  | _, _ => false

def interruptions (k : ℕ) : OutboxHist → ℕ
  | [] => 0
  | e :: h => (interrupts k e h).toNat + interruptions k h

def Published (rows : List OutboxRow) (id : Uuid) : Prop :=
  ∃ r ∈ rows, r.inserter = none ∧ r.id = id ∧ r.publishedAt.isSome

abbrev OutboxRun (cond : Conf machine → OutboxEvent → Prop) (now : Time) (w : World machine) : Prop :=
  Steps machine OutboxProcess cond (.init machine (.start now)) w

/-- What a relay delivers where an event may be rejected `k` times before it counts as one
that keeps failing. -/
structure Delivers (k : ℕ) (cond : Conf machine → OutboxEvent → Prop) : Prop where
  acknowledged : ∀ now w, OutboxRun cond now w → ∀ r ∈ w.conf.s.rows, r.publishedAt.isSome →
    0 < acks r.id w.conf.hist
  /-- A committed row stays. -/
  kept : ∀ now u w, OutboxRun cond now u → Steps machine OutboxProcess cond u w →
    ∀ r ∈ u.conf.s.rows, r.inserter = none →
      ∃ r' ∈ w.conf.s.rows, r.same r' ∧ r'.inserter = none ∧
        (r.publishedAt.isSome → r'.publishedAt.isSome)
  /-- A tick that returns has published what was free when it selected, or a whole batch of
  events that were not younger. -/
  returned : ∀ now u u' w p limit xs batchSize n, OutboxRun cond now u →
    Step machine OutboxProcess cond u u' →
    u'.conf.hist = .did p (.selectPending limit) (.ok xs) :: u.conf.hist →
    Steps machine OutboxProcess cond u' w →
    (relayOnce batchSize).After (doneBy p w.conf.hist) (.ret n) →
    ∀ r ∈ u.conf.s.rows, r.Free → Published w.conf.s.rows r.id ∨
      (xs.length : ℤ) = limit ∧ ∀ x ∈ xs, Published w.conf.s.rows x.id ∧
        ∃ r' ∈ u.conf.s.rows, r'.id = x.id ∧ r'.createdAt ≤ r.createdAt
  /-- A tick that the broker ends passes over events of the rejected one's aggregate only. -/
  unblocked : ∀ now u u' w p limit xs batchSize text, OutboxRun cond now u →
    Step machine OutboxProcess cond u u' →
    u'.conf.hist = .did p (.selectPending limit) (.ok xs) :: u.conf.hist →
    Steps machine OutboxProcess cond u' w →
    (relayOnce batchSize).After (doneBy p w.conf.hist) (.throw (.producer text)) →
    ∃ x ∈ xs, ∃ topic key older newer, w.conf.hist =
        newer ++ .did p (.publish topic key ⟨x.id, x.payload⟩) (.error text) :: older ∧
      (rejections x.id older < k ∨
        ∀ r ∈ u.conf.s.rows, r.Free → r.aggregateId = x.aggregateId)
  /-- An event is acknowledged once more at most for each interruption. -/
  unrepeated : ∀ now w, OutboxRun cond now w → ∀ id,
    acks id w.conf.hist ≤ interruptions k w.conf.hist + 1
  /-- An event is offered after all that were staged before it in its aggregate. -/
  ordered : ∀ now w, OutboxRun cond now w → ∀ newer p topic key envelope a older,
    w.conf.hist = newer ++ .did p (.publish topic key envelope) a :: older →
    ∀ l r l', w.conf.s.rows = l ++ r :: l' → r.id = envelope.eventId →
    ∀ r' ∈ l', r'.aggregateId = r.aggregateId → 0 < acks r'.id older

/-- An event is staged when those staged before it in its aggregate are committed, with
earlier timestamps; a batch takes no event while another relay has an older one of its
aggregate; and an event that keeps failing heads a batch of its aggregate that is not full. -/
def Delivering (k : ℕ) (c : Conf machine) : OutboxEvent → Prop
  | .did p (.stage event) (.ok _) => ∀ r ∈ c.s.rows, r.aggregateId = event.aggregateId →
      r.inserter = none ∧ ∀ t, c.s.sessions p = some t → r.createdAt < t.began
  | .did _ (.selectPending _) (.ok xs) => ∀ r ∈ c.s.rows, ∀ r' ∈ c.s.rows,
      r'.id ∈ xs.map PendingRow.id → r.aggregateId = r'.aggregateId → r.createdAt < r'.createdAt →
      r.publishedAt = none → r.lockedBy = none
  | .did p (.publish _ _ envelope) (.error _) => rejections envelope.eventId c.hist < k ∨
      ∃ limit x xs, (⟨.selectPending limit, .ok (x :: xs)⟩ : OutboxDid) ∈ doneBy p c.hist ∧
        x.id = envelope.eventId ∧ (∀ y ∈ xs, y.aggregateId = x.aggregateId) ∧
        (xs.length + 1 : ℤ) < limit
  | _ => True

/-! ## What a relay has done -/

/-- A relay that has selected `xs` has had `pre` acknowledged, and marked all of them, or all
but the last. -/
inductive Going (limit : ℤ) (xs : List PendingRow) : List PendingRow → Bool → List OutboxDid → Prop
  | selected : Going limit xs [] true [⟨.selectPending limit, .ok xs⟩, ⟨.begin, .ok ()⟩]
  | acked {pre x post t} (topic key : String) (h : Going limit xs pre true t)
      (hx : xs = pre ++ x :: post) : Going limit xs (pre ++ [x]) false
        (⟨.publish topic key ⟨x.id, x.payload⟩, .ok ()⟩ :: t)
  | marked {pre x t} (h : Going limit xs (pre ++ [x]) false t) :
      Going limit xs (pre ++ [x]) true (⟨.markPublished x.id, .ok ()⟩ :: t)

def Staging (t : List OutboxDid) : Prop := ∀ d ∈ t, Stages d.1

def Underway (t : List OutboxDid) : Prop := ∃ limit xs pre b, Going limit xs pre b t ∧ pre ≠ [] ∧
  ∀ x ∈ xs, ∃ event, x.payload = .event event

def Allowed (t : List OutboxDid) : Op → Prop
  | .begin => Staging t
  | .stage _ => Staging t
  | .selectPending _ => t = [⟨.begin, .ok ()⟩]
  | .publish _ _ envelope => ∃ limit xs pre x post, Going limit xs pre true t ∧
      xs = pre ++ x :: post ∧ envelope = ⟨x.id, x.payload⟩
  | .markPublished id => ∃ limit xs pre x, Going limit xs (pre ++ [x]) false t ∧ id = x.id
  | .commit => Staging t ∨ ∃ limit xs, Going limit xs xs true t
  | .rollback => ¬ Underway t

namespace Going

variable {limit limit' : ℤ} {xs xs' pre pre' : List PendingRow} {b b' : Bool} {t : List OutboxDid}

theorem pre_prefix (h : Going limit xs pre b t) : pre <+: xs := by
  induction h with
  | selected => exact List.nil_prefix
  | acked topic key h hx ih => exact ⟨_, by rw [hx, List.append_assoc]; rfl⟩
  | marked h ih => exact ih

theorem of_publish {topic key : String} {envelope : Envelope} {a : Except String Unit}
    (h : Going limit xs pre b (⟨.publish topic key envelope, a⟩ :: t)) : ∃ pre₀ x post,
      Going limit xs pre₀ true t ∧ pre = pre₀ ++ [x] ∧ b = false ∧ xs = pre₀ ++ x :: post ∧
        envelope = ⟨x.id, x.payload⟩ ∧ a = .ok () := by
  generalize ht : (⟨.publish topic key envelope, a⟩ : OutboxDid) :: t = t' at h
  cases h with
  | selected => cases ht
  | acked topic' key' h hx =>
    cases ht
    exact ⟨_, _, _, h, rfl, rfl, hx, rfl, rfl⟩
  | marked h => cases ht

theorem of_mark {id : Uuid} {a : Except DbError Unit}
    (h : Going limit xs pre b (⟨.markPublished id, a⟩ :: t)) : ∃ pre₀ x,
      Going limit xs (pre₀ ++ [x]) false t ∧ pre = pre₀ ++ [x] ∧ b = true ∧ id = x.id ∧
        a = .ok () := by
  generalize ht : (⟨.markPublished id, a⟩ : OutboxDid) :: t = t' at h
  cases h with
  | selected => cases ht
  | acked topic key h hx => cases ht
  | marked h =>
    cases ht
    exact ⟨_, _, h, rfl, rfl, rfl, rfl⟩

theorem unique (h : Going limit xs pre b t) : ∀ {pre' b'}, Going limit' xs' pre' b' t →
    limit' = limit ∧ xs' = xs ∧ pre' = pre ∧ b' = b := by
  induction h with
  | selected =>
    intro pre' b' h'
    cases h'
    exact ⟨rfl, rfl, rfl, rfl⟩
  | acked topic key h hx ih =>
    intro pre' b' h'
    obtain ⟨pre₀, y, post, hg, rfl, rfl, hx', -, -⟩ := h'.of_publish
    obtain ⟨rfl, rfl, rfl, -⟩ := ih hg
    cases List.append_cancel_left (hx.symm.trans hx')
    exact ⟨rfl, rfl, rfl, rfl⟩
  | marked h ih =>
    intro pre' b' h'
    obtain ⟨pre₀, y, hg, rfl, rfl, -, -⟩ := h'.of_mark
    obtain ⟨rfl, rfl, hpre, -⟩ := ih hg
    exact ⟨rfl, rfl, hpre, rfl⟩

/-- What a relay has selected stands in its trace, once. -/
theorem select_mem (h : Going limit xs pre b t) :
    (⟨.selectPending limit', .ok xs'⟩ : OutboxDid) ∈ t ↔ limit' = limit ∧ xs' = xs := by
  induction h with
  | selected =>
    constructor
    · intro hm
      rcases List.mem_cons.1 hm with hm | hm
      · cases hm
        exact ⟨rfl, rfl⟩
      · cases List.mem_singleton.1 hm
    · rintro ⟨rfl, rfl⟩
      exact List.mem_cons_self
  | acked topic key h hx ih =>
    rw [List.mem_cons, ih]
    exact or_iff_right (by rintro ⟨⟩)
  | marked h ih =>
    rw [List.mem_cons, ih]
    exact or_iff_right (by rintro ⟨⟩)

theorem not_staging (h : Going limit xs pre b t) : ¬ Staging t := fun hs =>
  hs _ (h.select_mem.2 ⟨rfl, rfl⟩)

theorem commit_not_mem (h : Going limit xs pre b t) :
    (⟨.commit, .ok ()⟩ : OutboxDid) ∉ t := by
  induction h with
  | selected => simp
  | acked topic key h hx ih => simpa using ih
  | marked h ih => simpa using ih

theorem acked_mem (h : Going limit xs pre b t) : ∀ x ∈ pre, ∃ topic key,
    (⟨.publish topic key ⟨x.id, x.payload⟩, .ok ()⟩ : OutboxDid) ∈ t := by
  induction h with
  | selected => exact fun x hx => absurd hx List.not_mem_nil
  | acked topic key h hx ih =>
    intro y hy
    rcases List.mem_append.1 hy with hy | hy
    · obtain ⟨topic', key', hm⟩ := ih y hy
      exact ⟨topic', key', List.mem_cons_of_mem _ hm⟩
    · cases List.mem_singleton.1 hy
      exact ⟨topic, key, List.mem_cons_self⟩
  | marked h ih =>
    intro y hy
    obtain ⟨topic', key', hm⟩ := ih y hy
    exact ⟨topic', key', List.mem_cons_of_mem _ hm⟩

/-- All of `pre` has been marked, or all but the last. -/
theorem marked_mem (h : Going limit xs pre b t) : ∀ x ∈ (if b then pre else pre.dropLast),
    (⟨.markPublished x.id, .ok ()⟩ : OutboxDid) ∈ t := by
  induction h with
  | selected => simp
  | acked topic key h hx ih =>
    intro y hy
    rw [if_neg (by simp), List.dropLast_concat] at hy
    rw [if_pos rfl] at ih
    exact List.mem_cons_of_mem _ (ih y hy)
  | @marked pre x t h ih =>
    intro y hy
    rw [if_neg (by simp), List.dropLast_concat] at ih
    rcases List.mem_append.1 hy with hy | hy
    · exact List.mem_cons_of_mem _ (ih y hy)
    · cases List.mem_singleton.1 hy
      exact List.mem_cons_self

theorem of_mem_mark {id : Uuid} (h : Going limit xs pre b t)
    (hm : (⟨.markPublished id, .ok ()⟩ : OutboxDid) ∈ t) : ∃ x ∈ pre, x.id = id := by
  induction h with
  | selected => simp at hm
  | acked topic key h hx ih =>
    rcases List.mem_cons.1 hm with hm | hm
    · cases hm
    · obtain ⟨x, hx', rfl⟩ := ih hm
      exact ⟨x, List.mem_append_left _ hx', rfl⟩
  | marked h ih =>
    rcases List.mem_cons.1 hm with hm | hm
    · cases hm
      exact ⟨_, List.mem_append_right _ List.mem_cons_self, rfl⟩
    · exact ih hm

def goes : OutboxDid → Bool
  | ⟨.selectPending _, .ok _⟩ => true
  | ⟨.publish .., .ok _⟩ => true
  | ⟨.markPublished _, .ok _⟩ => true
  | _ => false

theorem goes_head {d : OutboxDid} (h : Going limit xs pre b (d :: t)) : goes d = true := by
  generalize ht : d :: t = t' at h
  cases h with
  | selected => cases ht; rfl
  | acked topic key h hx => cases ht; rfl
  | marked h => cases ht; rfl

end Going

theorem not_underway_cons {d : OutboxDid} {t : List OutboxDid} (hd : Going.goes d = false) :
    ¬ Underway (d :: t) := by
  rintro ⟨limit, xs, pre, b, h, -⟩
  rw [h.goes_head] at hd
  cases hd

theorem Staging.not_underway {t : List OutboxDid} (ht : Staging t) : ¬ Underway t := by
  rintro ⟨limit, xs, pre, b, h, -⟩
  exact h.not_staging ht

theorem Staging.cons {t : List OutboxDid} (ht : Staging t) {o : Op} (ho : Stages o)
    (a : Op.Resp o) : Staging (⟨o, a⟩ :: t) := List.forall_mem_cons.2 ⟨ho, ht⟩

/-! ## Programs -/

def Worked (t : List OutboxDid) : Except RelayError ℕ → Prop
  | .ok _ => ∃ limit xs t', Going limit xs xs true t' ∧ t = ⟨.commit, .ok ()⟩ :: t'
  | .error (.producer text) => ∃ limit xs pre x post topic key t', Going limit xs pre true t' ∧
      xs = pre ++ x :: post ∧ t = ⟨.publish topic key ⟨x.id, x.payload⟩, .error text⟩ :: t'
  | .error _ => ¬ Underway t

theorem Worked.not_underway {t : List OutboxDid} {r : Except RelayError ℕ} (h : Worked t r) :
    ¬ Underway t := by
  match r with
  | .ok _ =>
    obtain ⟨limit, xs, t', -, rfl⟩ := h
    exact not_underway_cons rfl
  | .error (.producer text) =>
    obtain ⟨limit, xs, pre, x, post, topic, key, t', -, -, rfl⟩ := h
    exact not_underway_cons rfl
  | .error (.db e) => exact h
  | .error (.deserialize text) => exact h

def Ended (t : List OutboxDid) : Except RelayError ℕ → Prop
  | .ok n => ∃ t', t = ⟨.rollback, ()⟩ :: t' ∧ Worked t' (.ok n)
  | .error (.producer text) => ∃ t', t = ⟨.rollback, ()⟩ :: t' ∧ Worked t' (.error (.producer text))
  | .error _ => ¬ Underway t

theorem Ended.not_underway {t : List OutboxDid} {r : Except RelayError ℕ} (h : Ended t r) :
    ¬ Underway t := by
  match r with
  | .ok _ =>
    obtain ⟨t', rfl, -⟩ := h
    exact not_underway_cons rfl
  | .error (.producer text) =>
    obtain ⟨t', rfl, -⟩ := h
    exact not_underway_cons rfl
  | .error (.db e) => exact h
  | .error (.deserialize text) => exact h

section
variable {limit : ℤ} {xs : List PendingRow} {t : List OutboxDid}

/-- All of `pre` is marked, or the batch is given up. -/
def Advanced {α : Type} (limit : ℤ) (xs pre : List PendingRow) (t : List OutboxDid) :
    Except RelayError α → Prop
  | .ok _ => Going limit xs pre true t
  | .error e => Worked t (.error e)

theorem leads_publishRow {pre : List PendingRow} {x : PendingRow} {post : List PendingRow}
    (h : Going limit xs pre true t) (hx : xs = pre ++ x :: post) :
    (publishRow x).Leads Allowed (Advanced limit xs (pre ++ [x])) t := by
  obtain ⟨id, aggregateId, payload⟩ := x
  cases payload with
  | other text =>
    rintro ⟨limit', xs', pre', b, h', -, he⟩
    obtain ⟨rfl, rfl, -, -⟩ := h.unique h'
    obtain ⟨event, he⟩ := he _ (by rw [hx]; exact List.mem_append_right _ List.mem_cons_self)
    cases he
  | event e =>
    refine ⟨⟨limit, xs, pre, _, post, h, hx, rfl⟩, fun r => ?_⟩
    cases r with
    | error text => exact ⟨limit, xs, pre, _, post, _, _, t, h, hx, rfl⟩
    | ok a =>
      have h' := h.acked (topicFor e) (toString aggregateId) hx
      refine ⟨⟨limit, xs, pre, _, h', rfl⟩, fun r => ?_⟩
      cases r with
      | error e' => exact not_underway_cons rfl
      | ok a => exact h'.marked

theorem leads_publishRows : ∀ (rows pre : List PendingRow) (n : ℕ) {t : List OutboxDid},
    Going limit xs pre true t → xs = pre ++ rows →
    (publishRows rows n).Leads Allowed (Advanced limit xs xs) t
  | [], pre, n, t, h, hx => by
    obtain rfl : xs = pre := hx.trans (List.append_nil pre)
    exact h
  | x :: rows, pre, n, t, h, hx => by
    refine Prog.Leads.bind (fun _ t' h' => ?_) (fun e t' h' => ?_) (leads_publishRow h hx)
    swap
    · exact h'
    exact leads_publishRows rows (pre ++ [x]) (n + 1) h' (by rw [hx, List.append_assoc]; rfl)

theorem leads_relayBatch (batchSize : ℤ) :
    (relayBatch batchSize).Leads Allowed Worked [⟨.begin, .ok ()⟩] := by
  refine ⟨rfl, fun r => ?_⟩
  cases r with
  | error e => exact not_underway_cons rfl
  | ok xs =>
    have hrows : (publishRows xs 0).Leads Allowed (Advanced batchSize xs xs)
        [⟨.selectPending batchSize, .ok xs⟩, ⟨.begin, .ok ()⟩] :=
      leads_publishRows xs [] 0 .selected rfl
    show (publishRows xs 0 >>= fun n => Prog.op .commit (orThrow .db) >>= fun _ => pure n :
      Relay ℕ).Leads _ _ _
    refine Prog.Leads.bind (fun n t h => ?_) (fun e t h => ?_) hrows
    swap
    · exact h
    refine ⟨.inr ⟨_, _, h⟩, fun r => ?_⟩
    cases r with
    | ok a => exact ⟨_, _, _, h, rfl⟩
    | error e => exact not_underway_cons rfl

def Attempted (t : List OutboxDid) : Except RelayError (Except RelayError ℕ) → Prop
  | .ok r => Worked t r
  | .error _ => False

theorem leads_relayOnce (batchSize : ℤ) : (relayOnce batchSize).Leads Allowed Ended [] := by
  refine ⟨fun _ h => absurd h List.not_mem_nil, fun r => ?_⟩
  cases r with
  | error e => exact not_underway_cons rfl
  | ok a =>
    refine Prog.Leads.bind (Q := Attempted) (fun r t h => ?_) (fun _ _ h => h.elim)
      (Prog.Leads.attempt (leads_relayBatch batchSize))
    refine ⟨Worked.not_underway h, fun _ => ?_⟩
    match r with
    | .ok n => exact ⟨t, rfl, h⟩
    | .error (.producer text) => exact ⟨t, rfl, h⟩
    | .error (.db e) => exact not_underway_cons rfl
    | .error (.deserialize text) => exact not_underway_cons rfl

theorem leads_stager : ∀ {c : Prog outboxSig Empty Unit} {t : List OutboxDid},
    c.Heeds (fun _ => Stages) t → Staging t → c.Leads Allowed (fun t _ => ¬ Underway t) t
  | .ret _, _, _, ht => ht.not_underway
  | .throw e, _, _, _ => e.elim
  | .op o k, t, hc, ht => by
    refine ⟨?_, fun r => leads_stager (hc.2 r) (ht.cons hc.1 r)⟩
    have ho : Stages o := hc.1
    cases o with
    | begin | stage => exact ht
    | commit => exact .inl ht
    | rollback => exact ht.not_underway
    | selectPending | publish | markPublished => exact ho.elim

theorem leads_outboxProcess {c : Prog outboxSig Empty Unit} (hc : OutboxProcess c) :
    c.Leads Allowed (fun t _ => ¬ Underway t) [] := by
  cases hc with
  | relay batchSize =>
    refine Prog.Leads.bind (Q := fun t _ => ¬ Underway t) (fun r t h => ?_) (fun e t h => e.elim)
      (Prog.Leads.attempt ((leads_relayOnce batchSize).mono fun t r h => h.not_underway))
    exact h
  | stager c h => exact leads_stager (h []) fun _ h => absurd h List.not_mem_nil

end

end SatsPay.Outbox
