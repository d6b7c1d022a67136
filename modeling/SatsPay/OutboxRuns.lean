import SatsPay.OutboxDelivery

/-!
# Runs of relays and stagers

What the rows of the outbox are, by what has happened; what a relay that can go on holds;
and how often an event has been acknowledged. `delivers` puts them together.
-/

namespace SatsPay.Outbox

open Interleave

/-! ## Rewriting the rows -/

/-- A step of `p` that stages nothing: of some rows it leaves none, the others it changes by
`f`. -/
structure Rewrites (p : ℕ) (rows : List OutboxRow) (g : OutboxRow → Bool)
    (f : OutboxRow → OutboxRow) : Prop where
  same : ∀ r : OutboxRow, r.same (f r)
  kept : ∀ r ∈ rows, r.inserter = none → g r = true ∧ (f r).inserter = none
  published : ∀ r : OutboxRow, r.publishedAt.isSome → (f r).publishedAt.isSome
  others : ∀ q, q ≠ p → ∀ r ∈ rows, r.lockedBy = some q → r.inserter = none → f r = r

theorem OutboxRow.same_refl (r : OutboxRow) : r.same r := ⟨rfl, rfl, rfl, rfl, rfl, rfl⟩

theorem OutboxRow.same.trans {r r' r'' : OutboxRow} (h : r.same r') (h' : r'.same r'') :
    r.same r'' :=
  ⟨h'.1.trans h.1, h'.2.1.trans h.2.1, h'.2.2.1.trans h.2.2.1, h'.2.2.2.1.trans h.2.2.2.1,
    h'.2.2.2.2.1.trans h.2.2.2.2.1, h'.2.2.2.2.2.trans h.2.2.2.2.2⟩

theorem same_lock (p : ℕ) (ids : List Uuid) (r : OutboxRow) : r.same (r.lock p ids) := by
  unfold OutboxRow.lock
  split <;> exact ⟨rfl, rfl, rfl, rfl, rfl, rfl⟩

theorem same_mark (p : ℕ) (began : Time) (id : Uuid) (r : OutboxRow) :
    r.same (r.mark p began id) := by
  unfold OutboxRow.mark
  split <;> exact ⟨rfl, rfl, rfl, rfl, rfl, rfl⟩

section
variable {p : ℕ} {rows : List OutboxRow}

theorem eq_of_id (hn : (rows.map OutboxRow.id).Nodup) {r r' : OutboxRow} (hr : r ∈ rows)
    (hr' : r' ∈ rows) (h : r.id = r'.id) : r = r' :=
  List.inj_on_of_nodup_map hn hr hr' h

theorem rewrites_none : Rewrites p rows (fun _ => true) id where
  same r := r.same_refl
  kept _ _ h := ⟨rfl, h⟩
  published _ h := h
  others _ _ _ _ _ _ := rfl

theorem rewrites_lock {limit : ℤ} {xs : List OutboxRow} (hs : Selects rows limit xs)
    (hn : (rows.map OutboxRow.id).Nodup) :
    Rewrites p rows (fun _ => true) (OutboxRow.lock p (xs.map OutboxRow.id)) where
  same := same_lock p _
  kept r _ h := by
    refine ⟨rfl, ?_⟩
    unfold OutboxRow.lock
    split <;> exact h
  published r h := by
    unfold OutboxRow.lock
    split <;> exact h
  others q hq r hr hl _ := by
    rw [OutboxRow.lock, if_neg]
    intro hm
    obtain ⟨x, hx, he⟩ := List.mem_map.1 hm
    obtain ⟨hxr, hf⟩ := hs.free x hx
    cases eq_of_id hn hxr hr he
    cases hf.2.2.symm.trans hl

theorem rewrites_mark {b : Time} {id : Uuid}
    (hf : ∀ r ∈ rows, r.id = id → r.lockedBy = none ∨ r.lockedBy = some p) :
    Rewrites p rows (fun _ => true) (OutboxRow.mark p b id) where
  same := same_mark p b id
  kept r _ h := by
    refine ⟨rfl, ?_⟩
    unfold OutboxRow.mark
    split <;> exact h
  published r h := by
    unfold OutboxRow.mark
    split <;> exact h
  others q hq r hr hl _ := by
    rw [OutboxRow.mark, if_neg]
    intro he
    rcases hf r hr he with h | h
    · cases h.symm.trans hl
    · cases h.symm.trans hl
      exact hq rfl

theorem rewrites_settle : Rewrites p rows (fun _ => true) (OutboxRow.settle p) where
  same r := ⟨rfl, rfl, rfl, rfl, rfl, rfl⟩
  kept r _ h := ⟨rfl, by simp [OutboxRow.settle, h]⟩
  published r h := by
    simp only [OutboxRow.settle]
    split
    · cases hu : r.update with
      | none => simpa [hu] using h
      | some t => simp
    · exact h
  others q hq r _ hl hi := by
    have hne : r.lockedBy ≠ some p := by
      rw [hl]
      simpa using hq
    cases r
    simp_all [OutboxRow.settle]

theorem rewrites_release : Rewrites p rows (fun r => decide (r.inserter ≠ some p)) (OutboxRow.release p) where
  same r := ⟨rfl, rfl, rfl, rfl, rfl, rfl⟩
  kept r _ h := ⟨by simp [h], h⟩
  published r h := h
  others q hq r _ hl hi := by
    have hne : r.lockedBy ≠ some p := by
      rw [hl]
      simpa using hq
    cases r
    simp_all [OutboxRow.release]

variable {g : OutboxRow → Bool} {f : OutboxRow → OutboxRow}

theorem mem_rewrite {r' : OutboxRow} (h : r' ∈ (rows.filter g).map f) :
    ∃ r ∈ rows, f r = r' := by
  obtain ⟨r, hr, he⟩ := List.mem_map.1 h
  exact ⟨r, (List.mem_filter.1 hr).1, he⟩

theorem Rewrites.mem (hf : Rewrites p rows g f) {r : OutboxRow} (hr : r ∈ rows)
    (hi : r.inserter = none) : f r ∈ (rows.filter g).map f :=
  List.mem_map_of_mem (List.mem_filter.2 ⟨hr, (hf.kept r hr hi).1⟩)

theorem Rewrites.nodup (hf : Rewrites p rows g f) (hn : (rows.map OutboxRow.id).Nodup) :
    (((rows.filter g).map f).map OutboxRow.id).Nodup := by
  have hid : OutboxRow.id ∘ f = OutboxRow.id := funext fun r => (hf.same r).1
  rw [List.map_map, hid]
  exact hn.sublist (List.filter_sublist.map _)

end

/-! ## The book -/

def Older (r r' : OutboxRow) : Prop := r'.aggregateId = r.aggregateId ∧ r'.createdAt < r.createdAt

/-- The events that a batch or an offer passes by are acknowledged. -/
structure Book (k : ℕ) (rows : List OutboxRow) (h : OutboxHist) : Prop where
  nodup : (rows.map OutboxRow.id).Nodup
  events : ∀ r ∈ rows, ∃ event, r.payload = .event event
  ordered : rows.Pairwise fun r r' => r'.aggregateId = r.aggregateId →
    r'.inserter = none ∧ r'.createdAt < r.createdAt
  seen : ∀ p limit xs, (⟨.selectPending limit, .ok xs⟩ : OutboxDid) ∈ doneBy p h →
    ∀ x ∈ xs, ∃ r ∈ rows, r.inserter = none ∧ r.pending = x
  offered : ∀ p topic key envelope a, .did p (.publish topic key envelope) a ∈ h →
    ∃ r ∈ rows, r.inserter = none ∧ r.id = envelope.eventId
  batches : ∀ p limit xs, (⟨.selectPending limit, .ok xs⟩ : OutboxDid) ∈ doneBy p h →
    ∀ pre x post, xs = pre ++ x :: post → ∀ r ∈ rows, ∀ r' ∈ rows, r.id = x.id → Older r r' →
      0 < acks r'.id h ∨ ∃ y ∈ pre, y.id = r'.id
  offers : ∀ newer p topic key envelope a older,
    h = newer ++ .did p (.publish topic key envelope) a :: older →
    ∀ r ∈ rows, ∀ r' ∈ rows, r.id = envelope.eventId → Older r r' → 0 < acks r'.id older
  settled : ∀ p, (⟨.commit, .ok ()⟩ : OutboxDid) ∈ doneBy p h → ∀ id,
    (⟨.markPublished id, .ok ()⟩ : OutboxDid) ∈ doneBy p h → Published rows id
  rejected : ∀ newer p topic key envelope e older,
    h = newer ++ .did p (.publish topic key envelope) (.error e) :: older →
    rejections envelope.eventId older < k ∨
      ∃ limit x xs, (⟨.selectPending limit, .ok (x :: xs)⟩ : OutboxDid) ∈ doneBy p older ∧
        x.id = envelope.eventId ∧ (∀ y ∈ xs, y.aggregateId = x.aggregateId) ∧
        (xs.length + 1 : ℤ) < limit

section
variable {k p : ℕ} {rows : List OutboxRow} {h : OutboxHist} {e : OutboxEvent}

theorem acks_cons (id : Uuid) : acks id h ≤ acks id (e :: h) := by
  rw [acks, acks, List.countP_cons]
  exact Nat.le_add_right _ _

theorem acks_pos {topic key : String} {envelope : Envelope}
    (hm : (⟨.publish topic key envelope, .ok ()⟩ : OutboxDid) ∈ doneBy p h) :
    0 < acks envelope.eventId h :=
  List.countP_pos_iff.2 ⟨_, did_of_mem_doneBy hm, by simp [isAck]⟩

theorem rewrites_older {r r' s s' : OutboxRow} (hr : r.same s) (hr' : r'.same s')
    (ho : Older s s') : Older r r' := by
  obtain ⟨-, -, ha, -, -, hc⟩ := hr
  obtain ⟨-, -, ha', -, -, hc'⟩ := hr'
  rw [Older, ha, ha', hc, hc'] at ho
  exact ho

/-- The book of the same history, over rewritten rows. -/
theorem Book.rewrite (hb : Book k rows h) {g : OutboxRow → Bool} {f : OutboxRow → OutboxRow}
    (hf : Rewrites p rows g f) : Book k ((rows.filter g).map f) h where
  nodup := hf.nodup hb.nodup
  events r' hr' := by
    obtain ⟨r, hr, rfl⟩ := mem_rewrite hr'
    rw [(hf.same r).2.2.2.2.1]
    exact hb.events r hr
  ordered := by
    rw [List.pairwise_map]
    refine (hb.ordered.filter g).imp_of_mem fun {r r'} hr hr' hp ha => ?_
    rw [(hf.same r).2.2.1, (hf.same r').2.2.1] at ha
    rw [(hf.same r).2.2.2.2.2, (hf.same r').2.2.2.2.2]
    obtain ⟨hi, hc⟩ := hp ha
    exact ⟨(hf.kept r' (List.mem_filter.1 hr').1 hi).2, hc⟩
  seen q limit xs hm x hx := by
    obtain ⟨r, hr, hi, rfl⟩ := hb.seen q limit xs hm x hx
    obtain ⟨hid, -, ha, -, hp, -⟩ := hf.same r
    refine ⟨f r, hf.mem hr hi, (hf.kept r hr hi).2, ?_⟩
    rw [OutboxRow.pending, hid, ha, hp]
    rfl
  offered q topic key envelope a hm := by
    obtain ⟨r, hr, hi, hid⟩ := hb.offered q topic key envelope a hm
    exact ⟨f r, hf.mem hr hi, (hf.kept r hr hi).2, (hf.same r).1.trans hid⟩
  batches q limit xs hm pre x post hx s hs s' hs' hid ho := by
    obtain ⟨r, hr, rfl⟩ := mem_rewrite hs
    obtain ⟨r', hr', rfl⟩ := mem_rewrite hs'
    rw [(hf.same r').1]
    exact hb.batches q limit xs hm pre x post hx r hr r' hr' ((hf.same r).1.symm.trans hid)
      (rewrites_older (hf.same r) (hf.same r') ho)
  offers newer q topic key envelope a older he s hs s' hs' hid ho := by
    obtain ⟨r, hr, rfl⟩ := mem_rewrite hs
    obtain ⟨r', hr', rfl⟩ := mem_rewrite hs'
    rw [(hf.same r').1]
    exact hb.offers newer q topic key envelope a older he r hr r' hr' ((hf.same r).1.symm.trans hid)
      (rewrites_older (hf.same r) (hf.same r') ho)
  settled q hc id hm := by
    obtain ⟨r, hr, hi, hid, hp⟩ := hb.settled q hc id hm
    exact ⟨f r, hf.mem hr hi, (hf.kept r hr hi).2, (hf.same r).1.trans hid, hf.published r hp⟩
  rejected := hb.rejected

/-- The same with a new row, younger than all of its aggregate. -/
theorem Book.stage (hb : Book k rows h) {began : Time} {id : Uuid} {event : DomainEvent}
    (hid : ∀ r ∈ rows, r.id ≠ id) (hc : ∀ r ∈ rows, r.aggregateId = event.aggregateId →
      r.inserter = none ∧ r.createdAt < began) : Book k (newRow p began id event :: rows) h where
  nodup := by
    refine List.nodup_cons.2 ⟨fun hm => ?_, hb.nodup⟩
    obtain ⟨r, hr, he⟩ := List.mem_map.1 hm
    exact hid r hr he
  events := List.forall_mem_cons.2 ⟨⟨event, rfl⟩, hb.events⟩
  ordered := List.pairwise_cons.2 ⟨hc, hb.ordered⟩
  seen q limit xs hm x hx := (hb.seen q limit xs hm x hx).imp fun r => .imp_left (List.mem_cons_of_mem _)
  offered q topic key envelope a hm :=
    (hb.offered q topic key envelope a hm).imp fun r => .imp_left (List.mem_cons_of_mem _)
  batches q limit xs hm pre x post hx r hr r' hr' hrx ho := by
    rcases List.mem_cons.1 hr with rfl | hr
    · obtain ⟨s, hs, -, rfl⟩ := hb.seen q limit xs hm x
        (by rw [hx]; exact List.mem_append_right _ List.mem_cons_self)
      exact absurd hrx.symm (hid s hs)
    · rcases List.mem_cons.1 hr' with rfl | hr'
      · exact absurd ho.2 (Nat.not_lt.2 (hc r hr ho.1.symm).2.le)
      · exact hb.batches q limit xs hm pre x post hx r hr r' hr' hrx ho
  offers newer q topic key envelope a older he r hr r' hr' hre ho := by
    rcases List.mem_cons.1 hr with rfl | hr
    · obtain ⟨s, hs, -, hse⟩ := hb.offered q topic key envelope a
        (by rw [he]; exact List.mem_append_right _ List.mem_cons_self)
      exact absurd (hse.trans hre.symm) (hid s hs)
    · rcases List.mem_cons.1 hr' with rfl | hr'
      · exact absurd ho.2 (Nat.not_lt.2 (hc r hr ho.1.symm).2.le)
      · exact hb.offers newer q topic key envelope a older he r hr r' hr' hre ho
  settled q hc id' hm := (hb.settled q hc id' hm).imp fun r => .imp_left (List.mem_cons_of_mem _)
  rejected := hb.rejected

theorem did_mem_cons {q : ℕ} {d : OutboxDid} (hm : d ∈ doneBy q (e :: h)) :
    e = .did q d.1 d.2 ∨ d ∈ doneBy q h := by
  by_cases he : e.pid = some q
  · cases e with
    | did p o a =>
      cases he
      rw [doneBy_self] at hm
      rcases List.mem_cons.1 hm with rfl | hm
      · exact .inl rfl
      · exact .inr hm
    | crashed p | ended p => exact .inr hm
    | ticked => exact .inr hm
  · rw [doneBy_of_ne he] at hm
    exact .inr hm

/-- The same with one more event, which owes what its kind owes. -/
theorem Book.cons (hb : Book k rows h)
    (hsel : ∀ q limit xs, e = .did q (.selectPending limit) (.ok xs) →
      (∀ x ∈ xs, ∃ r ∈ rows, r.inserter = none ∧ r.pending = x) ∧
      ∀ pre x post, xs = pre ++ x :: post → ∀ r ∈ rows, ∀ r' ∈ rows, r.id = x.id → Older r r' →
        0 < acks r'.id h ∨ ∃ y ∈ pre, y.id = r'.id)
    (hpub : ∀ q topic key envelope a, e = .did q (.publish topic key envelope) a →
      (∃ r ∈ rows, r.inserter = none ∧ r.id = envelope.eventId) ∧
      ∀ r ∈ rows, ∀ r' ∈ rows, r.id = envelope.eventId → Older r r' → 0 < acks r'.id h)
    (hcom : ∀ q, e = .did q .commit (.ok ()) → ∀ id,
      (⟨.markPublished id, .ok ()⟩ : OutboxDid) ∈ doneBy q h → Published rows id)
    (hmark : ∀ q id, e = .did q (.markPublished id) (.ok ()) →
      (⟨.commit, .ok ()⟩ : OutboxDid) ∉ doneBy q h)
    (hrej : ∀ q topic key envelope text, e = .did q (.publish topic key envelope) (.error text) →
      rejections envelope.eventId h < k ∨
        ∃ limit x xs, (⟨.selectPending limit, .ok (x :: xs)⟩ : OutboxDid) ∈ doneBy q h ∧
          x.id = envelope.eventId ∧ (∀ y ∈ xs, y.aggregateId = x.aggregateId) ∧
          (xs.length + 1 : ℤ) < limit) : Book k rows (e :: h) where
  nodup := hb.nodup
  events := hb.events
  ordered := hb.ordered
  seen q limit xs hm := by
    rcases did_mem_cons hm with rfl | hm
    · exact (hsel q limit xs rfl).1
    · exact hb.seen q limit xs hm
  offered q topic key envelope a hm := by
    rcases List.mem_cons.1 hm with rfl | hm
    · exact (hpub q topic key envelope a rfl).1
    · exact hb.offered q topic key envelope a hm
  batches q limit xs hm pre x post hx r hr r' hr' hrx ho := by
    have hh : 0 < acks r'.id h ∨ ∃ y ∈ pre, y.id = r'.id := by
      rcases did_mem_cons hm with rfl | hm
      · exact (hsel q limit xs rfl).2 pre x post hx r hr r' hr' hrx ho
      · exact hb.batches q limit xs hm pre x post hx r hr r' hr' hrx ho
    exact hh.imp_left fun ha => ha.trans_le (acks_cons _)
  offers newer q topic key envelope a older he r hr r' hr' hre ho := by
    cases newer with
    | nil =>
      cases he
      exact (hpub q topic key envelope a rfl).2 r hr r' hr' hre ho
    | cons _ newer =>
      cases he
      exact hb.offers newer q topic key envelope a older rfl r hr r' hr' hre ho
  settled q hc id hm := by
    rcases did_mem_cons hc with hc | hc
    · rcases did_mem_cons hm with hm | hm
      · cases hc.symm.trans hm
      · exact hcom q hc id hm
    · rcases did_mem_cons hm with hm | hm
      · exact absurd hc (hmark q id hm)
      · exact hb.settled q hc id hm
  rejected newer q topic key envelope text older he := by
    cases newer with
    | nil =>
      cases he
      exact hrej q topic key envelope text rfl
    | cons _ newer =>
      cases he
      exact hb.rejected newer q topic key envelope text older rfl

/-- An event that selects, publishes, marks and commits nothing. -/
theorem Book.idle (hb : Book k rows h) (he : ∀ q o a, e = .did q o a →
    Going.goes ⟨o, a⟩ = false ∧ (∀ topic key envelope, o ≠ .publish topic key envelope) ∧
      ∀ u, (⟨o, a⟩ : OutboxDid) ≠ ⟨.commit, .ok u⟩) : Book k rows (e :: h) := by
  refine hb.cons ?_ ?_ ?_ ?_ ?_
  · rintro q limit xs rfl
    cases (he _ _ _ rfl).1
  · rintro q topic key envelope a rfl
    exact absurd rfl ((he _ _ _ rfl).2.1 topic key envelope)
  · rintro q rfl
    exact absurd rfl ((he _ _ _ rfl).2.2 ())
  · rintro q id rfl
    cases (he _ _ _ rfl).1
  · rintro q topic key envelope text rfl
    exact absurd rfl ((he _ _ _ rfl).2.1 topic key envelope)

end

/-! ## What a relay holds -/

/-- The rows of a batch are locked by its relay, and those it has marked are updated. -/
structure Batch (p : ℕ) (xs pre : List PendingRow) (b : Bool) (s : Store) : Prop where
  session : ∃ began, s.sessions p = some ⟨began, false⟩
  nodup : (xs.map PendingRow.id).Nodup
  locked : ∀ x ∈ xs, ∃ r ∈ s.rows, r.pending = x ∧ r.inserter = none ∧ r.publishedAt = none ∧
    r.lockedBy = some p ∧ (x ∈ (if b then pre else pre.dropLast) → r.update.isSome)

/-- The event is published, or in the hands of a relay that has had it acknowledged and can
go on. -/
def Held (c : Conf machine) (id : Uuid) : Prop :=
  Published c.s.rows id ∨ ∃ p limit xs pre b, Unended p c.hist ∧
    Going limit xs pre b (doneBy p c.hist) ∧ ∃ x ∈ pre, x.id = id

structure Inv (k : ℕ) (c : Conf machine) : Prop where
  book : Book k c.s.rows c.hist
  acked : ∀ r ∈ c.s.rows, r.publishedAt.isSome ∨ r.update.isSome → 0 < acks r.id c.hist
  holds : ∀ p limit xs pre b, Unended p c.hist → Going limit xs pre b (doneBy p c.hist) →
    Batch p xs pre b c.s
  count : ∀ id, acks id c.hist ≤ interruptions k c.hist + 1
  unheld : ∀ id, ¬ Held c id → acks id c.hist ≤ interruptions k c.hist

section
variable {k p : ℕ} {c : Conf machine} {s : Store} {e : OutboxEvent}

theorem unended_other {q : ℕ} (he : e.pid = some p) (hq : q ≠ p) {h : OutboxHist} :
    Unended q (e :: h) ↔ Unended q h := by
  refine ⟨fun hu => hu.tail, fun hu => hu.other ?_⟩
  rw [he]
  simpa using hq.symm

theorem doneBy_other {q : ℕ} (he : e.pid = some p) (hq : q ≠ p) (h : OutboxHist) :
    doneBy q (e :: h) = doneBy q h := doneBy_of_ne (by rw [he]; simpa using hq.symm) h

theorem Batch.other {q : ℕ} {xs pre : List PendingRow} {b : Bool} {s s' : Store}
    (hb : Batch q xs pre b s) (hs : s'.sessions q = s.sessions q)
    (hk : ∀ r ∈ s.rows, r.lockedBy = some q → r.inserter = none → r ∈ s'.rows) :
    Batch q xs pre b s' where
  session := hb.session.imp fun _ h => hs.trans h
  nodup := hb.nodup
  locked x hx := by
    obtain ⟨r, hr, hrx, hi, hp, hl, hu⟩ := hb.locked x hx
    exact ⟨r, hk r hr hl hi, hrx, hi, hp, hl, hu⟩

theorem busy_of_going {limit : ℤ} {xs pre : List PendingRow} {b : Bool} {h : OutboxHist}
    (hg : Going limit xs pre b (doneBy p h)) {x : PendingRow} (hx : x ∈ pre) : busy p h = true := by
  obtain ⟨topic, key, hm⟩ := hg.acked_mem x hx
  exact List.any_eq_true.2 ⟨_, hm, rfl⟩

/-- A step of `p` that is no acknowledgement. What `p` had had acknowledged is still held, or
the step interrupts. -/
theorem Inv.step (hI : Inv k c) (he : e.pid = some p) (hbook : Book k s.rows (e :: c.hist))
    (hacked : ∀ r ∈ s.rows, r.publishedAt.isSome ∨ r.update.isSome → 0 < acks r.id c.hist)
    (hsess : ∀ q, q ≠ p → s.sessions q = c.s.sessions q)
    (hkeep : ∀ q, q ≠ p → ∀ r ∈ c.s.rows, r.lockedBy = some q → r.inserter = none → r ∈ s.rows)
    (hown : ∀ limit xs pre b, Unended p (e :: c.hist) →
      Going limit xs pre b (doneBy p (e :: c.hist)) → Batch p xs pre b s)
    (hack : ∀ id, isAck id e = false)
    (hpub : ∀ id, Published c.s.rows id → Published s.rows id)
    (hheld : interrupts k e c.hist = false → ∀ limit xs pre b, Unended p c.hist →
      Going limit xs pre b (doneBy p c.hist) → ∀ x ∈ pre, Held (c.push s e) x.id) :
    Inv k (c.push s e) := by
  have hacks (id : Uuid) : acks id (e :: c.hist) = acks id c.hist := by
    rw [acks, List.countP_cons, hack id]
    rfl
  have hint : interruptions k c.hist ≤ interruptions k (e :: c.hist) := Nat.le_add_left _ _
  refine ⟨hbook, fun r hr hu => ?_, fun q limit xs pre b hu hg => ?_, fun id => ?_, fun id hn => ?_⟩
  · exact (hacked r hr hu).trans_le (acks_cons _)
  · by_cases hq : q = p
    · subst hq
      exact hown limit xs pre b hu hg
    · have hu' := (unended_other he hq).1 hu
      rw [show doneBy q (c.push s e).hist = doneBy q c.hist from doneBy_other he hq _] at hg
      exact (hI.holds q limit xs pre b hu' hg).other (hsess q hq) (hkeep q hq)
  · rw [show acks id (c.push s e).hist = _ from hacks id]
    exact (hI.count id).trans (Nat.succ_le_succ hint)
  · rw [show acks id (c.push s e).hist = _ from hacks id]
    cases hi : interrupts k e c.hist with
    | true =>
      have : interruptions k (e :: c.hist) = 1 + interruptions k c.hist := by
        rw [interruptions, hi]
        rfl
      show _ ≤ interruptions k (e :: c.hist)
      rw [this, Nat.add_comm]
      exact hI.count id
    | false =>
      refine (hI.unheld id fun hh => hn ?_).trans hint
      rcases hh with hh | ⟨q, limit, xs, pre, b, hu, hg, x, hx, rfl⟩
      · exact .inl (hpub id hh)
      · by_cases hq : q = p
        · subst hq
          exact hheld hi limit xs pre b hu hg x hx
        · refine .inr ⟨q, limit, xs, pre, b, (unended_other he hq).2 hu, ?_, x, hx, rfl⟩
          show Going limit xs pre b (doneBy q (e :: c.hist))
          rw [doneBy_other he hq]
          exact hg

/-- A step that rewrites the rows. -/
theorem Inv.rewrite (hI : Inv k c) {g : OutboxRow → Bool} {f : OutboxRow → OutboxRow}
    (hf : Rewrites p c.s.rows g f) (hrows : s.rows = (c.s.rows.filter g).map f)
    (he : e.pid = some p) (hbook : Book k ((c.s.rows.filter g).map f) c.hist →
      Book k ((c.s.rows.filter g).map f) (e :: c.hist))
    (hacked : ∀ r ∈ c.s.rows, (f r).publishedAt.isSome ∨ (f r).update.isSome → 0 < acks r.id c.hist)
    (hsess : ∀ q, q ≠ p → s.sessions q = c.s.sessions q)
    (hown : ∀ limit xs pre b, Unended p (e :: c.hist) →
      Going limit xs pre b (doneBy p (e :: c.hist)) → Batch p xs pre b s)
    (hack : ∀ id, isAck id e = false)
    (hheld : interrupts k e c.hist = false → ∀ limit xs pre b, Unended p c.hist →
      Going limit xs pre b (doneBy p c.hist) → ∀ x ∈ pre, Held (c.push s e) x.id) :
    Inv k (c.push s e) := by
  refine hI.step he ?_ ?_ hsess ?_ hown hack ?_ hheld
  · rw [hrows]
    exact hbook (hI.book.rewrite hf)
  · rw [hrows]
    intro r' hr' hu
    obtain ⟨r, hr, rfl⟩ := mem_rewrite hr'
    rw [(hf.same r).1]
    exact hacked r hr hu
  · intro q hq r hr hl hi
    rw [hrows, ← hf.others q hq r hr hl hi]
    exact hf.mem hr hi
  · rintro id ⟨r, hr, hi, hid, hp⟩
    rw [hrows]
    exact ⟨f r, hf.mem hr hi, (hf.kept r hr hi).2, (hf.same r).1.trans hid, hf.published r hp⟩

/-- A step of `p` that undoes what it has done. -/
theorem Inv.undo (hI : Inv k c) (t : Option Session) (he : e.pid = some p)
    (hidle : ∀ q o a, e = .did q o a → Going.goes ⟨o, a⟩ = false ∧
      (∀ topic key envelope, o ≠ .publish topic key envelope) ∧
      ∀ u, (⟨o, a⟩ : OutboxDid) ≠ ⟨.commit, .ok u⟩)
    (hown : ∀ limit xs pre b, Unended p (e :: c.hist) →
      ¬ Going limit xs pre b (doneBy p (e :: c.hist))) (hack : ∀ id, isAck id e = false)
    (hheld : interrupts k e c.hist = false → ∀ limit xs pre b, Unended p c.hist →
      Going limit xs pre b (doneBy p c.hist) → ∀ x ∈ pre, Held (c.push (c.s.undo p t) e) x.id) :
    Inv k (c.push (c.s.undo p t) e) := by
  refine hI.rewrite rewrites_release rfl he (fun hb => hb.idle hidle) (fun r hr hu => ?_)
    (fun q hq => Function.update_of_ne hq _ _)
    (fun limit xs pre b hu hg => absurd hg (hown limit xs pre b hu)) hack hheld
  refine hI.acked r hr (hu.imp_right fun hu => ?_)
  simp only [OutboxRow.release] at hu
  split at hu
  · cases hu
  · exact hu

/-- Events that can be read, and some of them acknowledged: the relay can go on. -/
theorem Inv.underway (hI : Inv k c) {limit : ℤ} {xs pre : List PendingRow} {b : Bool}
    (hg : Going limit xs pre b (doneBy p c.hist)) {x : PendingRow} (hx : x ∈ pre) :
    Underway (doneBy p c.hist) := by
  refine ⟨limit, xs, pre, b, hg, List.ne_nil_of_mem hx, fun y hy => ?_⟩
  obtain ⟨r, hr, -, rfl⟩ := hI.book.seen p limit xs (hg.select_mem.2 ⟨rfl, rfl⟩) y hy
  exact hI.book.events r hr

theorem not_going_of_head {o : Op} {a : Op.Resp o} {h : OutboxHist}
    (ha : Going.goes ⟨o, a⟩ = false) {limit : ℤ} {xs pre : List PendingRow} {b : Bool} :
    ¬ Going limit xs pre b (doneBy p (.did p o a :: h)) := by
  intro hg
  rw [doneBy_self] at hg
  rw [hg.goes_head] at ha
  cases ha

theorem not_unended_head {h : OutboxHist} (he : e = .crashed p ∨ e = .ended p) :
    ¬ Unended p (e :: h) := by
  intro hu
  obtain ⟨h₁, h₂⟩ := hu e List.mem_cons_self
  rcases he with rfl | rfl
  · exact h₁ rfl
  · exact h₂ rfl

theorem Inv.tick (hI : Inv k c) (now : Time) :
    Inv k (c.push { c.s with now := now } .ticked) := by
  have hacks (id : Uuid) : acks id (.ticked :: c.hist) = acks id c.hist := by
    rw [acks, List.countP_cons]
    rfl
  have hint : interruptions k (.ticked :: c.hist) = interruptions k c.hist := Nat.zero_add _
  refine ⟨hI.book.idle (by rintro q o a ⟨⟩), fun r hr hu => ?_, fun q limit xs pre b hu hg => ?_,
    fun id => ?_, fun id hn => ?_⟩
  · exact (hI.acked r hr hu).trans_le (acks_cons _)
  · obtain ⟨hs, hn, hl⟩ := hI.holds q limit xs pre b hu.tail hg
    exact ⟨hs, hn, hl⟩
  · show acks id (.ticked :: c.hist) ≤ interruptions k (.ticked :: c.hist) + 1
    rw [hacks, hint]
    exact hI.count id
  · show acks id (.ticked :: c.hist) ≤ interruptions k (.ticked :: c.hist)
    rw [hacks, hint]
    refine hI.unheld id fun hh => hn ?_
    rcases hh with hh | ⟨q, limit, xs, pre, b, hu, hg, hx⟩
    · exact .inl hh
    · exact .inr ⟨q, limit, xs, pre, b, hu.other (by simp), hg, hx⟩

theorem Inv.crash (hI : Inv k c) : Inv k (c.push (c.s.undo p none) (.crashed p)) := by
  refine hI.undo none rfl (by rintro q o a ⟨⟩) (fun _ _ _ _ hu => absurd hu (not_unended_head (.inl rfl)))
    (fun _ => rfl) fun hi limit xs pre b _ hg x hx => ?_
  exact absurd (busy_of_going hg hx) (by simpa [interrupts] using hi)

theorem Inv.finish (hI : Inv k c) (hq : ¬ Underway (doneBy p c.hist)) :
    Inv k (c.push (c.s.undo p none) (.ended p)) := by
  refine hI.undo none rfl (by rintro q o a ⟨⟩) (fun _ _ _ _ hu => absurd hu (not_unended_head (.inr rfl)))
    (fun _ => rfl) fun hi limit xs pre b _ hg x hx => ?_
  exact absurd (hI.underway hg hx) hq

theorem Inv.rollback (hI : Inv k c) (hq : ¬ Underway (doneBy p c.hist)) :
    Inv k (c.push (c.s.undo p none) (.did p .rollback ())) := by
  refine hI.undo none rfl ?_ (fun _ _ _ _ _ => not_going_of_head rfl) (fun _ => rfl)
    fun _ limit xs pre b _ hg x hx => ?_
  · rintro q o a ⟨⟩
    exact ⟨rfl, by simp, by simp⟩
  · exact absurd (hI.underway hg hx) hq

/-- A statement that fails. -/
theorem Inv.fail (hI : Inv k c) {o : Op} {a : Op.Resp o} (t : Option Session)
    (ha : Going.goes ⟨o, a⟩ = false) (ho : ∀ topic key envelope, o ≠ .publish topic key envelope)
    (hc : ∀ u, (⟨o, a⟩ : OutboxDid) ≠ ⟨.commit, .ok u⟩) (hack : ∀ id, isAck id (.did p o a) = false)
    (hi : interrupts k (.did p o a) c.hist = busy p c.hist ∨
      ∀ limit xs pre b, ¬ Going limit xs pre b (doneBy p c.hist)) :
    Inv k (c.push (c.s.undo p t) (.did p o a)) := by
  refine hI.undo t rfl ?_ (fun _ _ _ _ _ => not_going_of_head ha) hack
    fun hf limit xs pre b _ hg x hx => ?_
  · rintro q o' a' he
    cases he
    exact ⟨ha, ho, hc⟩
  · rcases hi with hi | hi
    · rw [hi, busy_of_going hg hx] at hf
      cases hf
    · exact absurd hg (hi limit xs pre b)

theorem Inv.begin (hI : Inv k c) {a : Except DbError Unit} (hφ : Staging (doneBy p c.hist))
    {t : Option Session} : Inv k (c.push (c.s.setSession p t) (.did p .begin a)) ∧
      Inv k (c.push c.s (.did p .begin a)) := by
  have hrows : c.s.rows = (c.s.rows.filter fun _ => true).map id := by simp
  have idle (hb : Book k ((c.s.rows.filter fun _ => true).map id) c.hist) :
      Book k ((c.s.rows.filter fun _ => true).map id) (.did p .begin a :: c.hist) := by
    refine hb.idle ?_
    rintro q o a' ⟨⟩
    exact ⟨rfl, by simp, by simp⟩
  constructor
  · exact hI.rewrite rewrites_none hrows rfl idle hI.acked (fun q hq => Function.update_of_ne hq _ _)
      (fun _ _ _ _ _ hg => absurd hg (not_going_of_head rfl)) (fun _ => rfl)
      fun _ _ _ _ _ _ hg => absurd hφ hg.not_staging
  · exact hI.rewrite rewrites_none hrows rfl idle hI.acked (fun q hq => rfl)
      (fun _ _ _ _ _ hg => absurd hg (not_going_of_head rfl)) (fun _ => rfl)
      fun _ _ _ _ _ _ hg => absurd hφ hg.not_staging

theorem Inv.stage (hI : Inv k c) {t : Session} {event : DomainEvent} {id : Uuid}
    (hφ : Staging (doneBy p c.hist)) (ht : c.s.sessions p = some t)
    (hid : ∀ r ∈ c.s.rows, r.id ≠ id) (hc : Delivering k c (.did p (.stage event) (.ok id))) :
    Inv k (c.push { c.s with rows := newRow p t.began id event :: c.s.rows }
      (.did p (.stage event) (.ok id))) := by
  refine hI.step rfl ?_ ?_ (fun _ _ => rfl) (fun _ _ _ hr _ _ => List.mem_cons_of_mem _ hr)
    (fun _ _ _ _ _ hg => absurd hg (not_going_of_head rfl)) (fun _ => rfl)
    (fun _ hp => hp.imp fun _ => .imp_left (List.mem_cons_of_mem _))
    fun _ _ _ _ _ _ hg => absurd hφ hg.not_staging
  · refine (hI.book.stage hid fun r hr ha => ?_).idle ?_
    · exact (hc r hr ha).imp_right fun h => h t ht
    · rintro q o a ⟨⟩
      exact ⟨rfl, by simp, by simp⟩
  · intro r hr hu
    rcases List.mem_cons.1 hr with rfl | hr
    · rcases hu with hu | hu <;> cases hu
    · exact hI.acked r hr hu

/-! ## Selecting -/

/-- What is older in an aggregate is committed. -/
theorem Book.older_committed {rows : List OutboxRow} {h : OutboxHist} (hb : Book k rows h)
    {r r' : OutboxRow} (hr : r ∈ rows) (hr' : r' ∈ rows) (ho : Older r r') : r'.inserter = none := by
  obtain ⟨l, l', rfl⟩ := List.append_of_mem hr
  obtain ⟨-, hp, hl⟩ := List.pairwise_append.1 hb.ordered
  rcases List.mem_append.1 hr' with hm | hm
  · exact absurd (hl r' hm r List.mem_cons_self ho.1.symm).2 (Nat.lt_asymm ho.2)
  · rcases List.mem_cons.1 hm with rfl | hm
    · exact absurd ho.2 (Nat.lt_irrefl _)
    · exact ((List.pairwise_cons.1 hp).1 r' hm ho.1).1

theorem Inv.selects_older (hI : Inv k c) {limit : ℤ} {xs : List OutboxRow}
    (hs : Selects c.s.rows limit xs)
    (hc : Delivering k c (.did p (.selectPending limit) (.ok (xs.map OutboxRow.pending))))
    {pre post : List PendingRow} {x : PendingRow}
    (hx : xs.map OutboxRow.pending = pre ++ x :: post) {r r' : OutboxRow} (hr : r ∈ c.s.rows)
    (hr' : r' ∈ c.s.rows) (hrx : r.id = x.id) (ho : Older r r') :
    0 < acks r'.id c.hist ∨ ∃ y ∈ pre, y.id = r'.id := by
  obtain ⟨xs₁, xs₂, rfl, rfl, hx₂⟩ := List.map_eq_append_iff.1 hx
  obtain ⟨r₀, xs₃, rfl, rfl, rfl⟩ := List.map_eq_cons_iff.1 hx₂
  have hm₀ : r₀ ∈ xs₁ ++ r₀ :: xs₃ := List.mem_append_right _ List.mem_cons_self
  obtain rfl := eq_of_id hI.book.nodup hr (hs.free r₀ hm₀).1 hrx
  cases hp : r'.publishedAt with
  | some t => exact .inl (hI.acked r' hr' (.inl (by rw [hp]; rfl)))
  | none =>
    have hid : r.id ∈ ((xs₁ ++ r :: xs₃).map OutboxRow.pending).map PendingRow.id := by
      rw [List.map_map]
      exact List.mem_map_of_mem hm₀
    have hfree : r'.Free := ⟨hI.book.older_committed hr hr' ho, hp, hc r' hr' r hr hid ho.1 ho.2 hp⟩
    have hm : r' ∈ xs₁ ++ r :: xs₃ := by
      rcases hs.oldest r' hr' hfree with hm | ⟨-, hall⟩
      · exact hm
      · exact absurd (hall r hm₀) (Nat.not_le.2 ho.2)
    refine .inr ⟨r'.pending, List.mem_map_of_mem ?_, rfl⟩
    rcases List.mem_append.1 hm with hm | hm
    · exact hm
    · rcases List.mem_cons.1 hm with rfl | hm
      · exact absurd ho.2 (Nat.lt_irrefl _)
      · have := (List.pairwise_cons.1 (List.pairwise_append.1 hs.ordered).2.1).1 r' hm
        exact absurd this (Nat.not_le.2 ho.2)

theorem Inv.select (hI : Inv k c) {t : Session} {limit : ℤ} {xs : List OutboxRow}
    (hφ : doneBy p c.hist = [⟨.begin, .ok ()⟩]) (ht : c.s.sessions p = some t)
    (ha : t.aborted = false) (hs : Selects c.s.rows limit xs)
    (hc : Delivering k c (.did p (.selectPending limit) (.ok (xs.map OutboxRow.pending)))) :
    Inv k (c.push { c.s with rows := c.s.rows.map (OutboxRow.lock p (xs.map OutboxRow.id)) }
      (.did p (.selectPending limit) (.ok (xs.map OutboxRow.pending)))) := by
  have hf := rewrites_lock (p := p) hs hI.book.nodup
  have hrows : c.s.rows.map (OutboxRow.lock p (xs.map OutboxRow.id)) =
      (c.s.rows.filter fun _ => true).map (OutboxRow.lock p (xs.map OutboxRow.id)) := by simp
  refine hI.rewrite hf hrows rfl (fun _ => (hI.book.cons ?_ (by simp) (by simp) (by simp)
    (by simp)).rewrite hf) (fun r hr hu => ?_) (fun _ _ => rfl) (fun limit' xs' pre b _ hg => ?_)
    (fun _ => rfl) fun _ limit' xs' pre b _ hg => ?_
  · rintro q limit' _ ⟨⟩
    refine ⟨fun x hx => ?_, fun pre x post hx r hr r' hr' hrx ho =>
      hI.selects_older hs hc hx hr hr' hrx ho⟩
    obtain ⟨r, hr, rfl⟩ := List.mem_map.1 hx
    obtain ⟨hm, hfree⟩ := hs.free r hr
    exact ⟨r, hm, hfree.1, rfl⟩
  · refine hI.acked r hr ?_
    unfold OutboxRow.lock at hu
    split at hu <;> exact hu
  · rw [doneBy_self, hφ] at hg
    obtain ⟨-, rfl, rfl, rfl⟩ := Going.selected.unique hg
    refine ⟨⟨t.began, by rw [← ha]; exact ht⟩, ?_, fun x hx => ?_⟩
    · rw [List.map_map]
      exact hs.nodup
    · obtain ⟨r, hr, rfl⟩ := List.mem_map.1 hx
      obtain ⟨hm, hi, hp, -⟩ := hs.free r hr
      have hl : r.lock p (xs.map OutboxRow.id) = { r with lockedBy := some p } :=
        if_pos (List.mem_map_of_mem hr)
      refine ⟨r.lock p (xs.map OutboxRow.id), List.mem_map_of_mem hm, ?_⟩
      rw [hl]
      exact ⟨rfl, hi, hp, rfl, fun h => absurd h List.not_mem_nil⟩
  · rw [hφ] at hg
    cases hg.goes_head

/-! ## Publishing -/

/-- What is offered is committed, and all that is older in its aggregate is acknowledged. -/
theorem Inv.offers_older (hI : Inv k c) {limit : ℤ} {xs pre post : List PendingRow}
    {x : PendingRow} (hg : Going limit xs pre true (doneBy p c.hist)) (hx : xs = pre ++ x :: post) :
    (∃ r ∈ c.s.rows, r.inserter = none ∧ r.id = x.id) ∧
      ∀ r ∈ c.s.rows, ∀ r' ∈ c.s.rows, r.id = x.id → Older r r' → 0 < acks r'.id c.hist := by
  have hsel := hg.select_mem.2 ⟨rfl, rfl⟩
  constructor
  · obtain ⟨r, hr, hi, hrx⟩ := hI.book.seen p limit xs hsel x
      (by rw [hx]; exact List.mem_append_right _ List.mem_cons_self)
    exact ⟨r, hr, hi, congrArg PendingRow.id hrx⟩
  · intro r hr r' hr' hrx ho
    rcases hI.book.batches p limit xs hsel pre x post hx r hr r' hr' hrx ho with ha | ⟨y, hy, hid⟩
    · exact ha
    · obtain ⟨topic, key, hm⟩ := hg.acked_mem y hy
      rw [← hid]
      exact acks_pos hm

theorem Inv.book_publish (hI : Inv k c) {limit : ℤ} {xs pre post : List PendingRow}
    {x : PendingRow} {topic key : String} {a : Except String Unit}
    (hg : Going limit xs pre true (doneBy p c.hist)) (hx : xs = pre ++ x :: post)
    (hc : Delivering k c (.did p (.publish topic key ⟨x.id, x.payload⟩) a)) :
    Book k c.s.rows (.did p (.publish topic key ⟨x.id, x.payload⟩) a :: c.hist) := by
  refine hI.book.cons (by simp) ?_ (by simp) (by simp) ?_
  · rintro q topic' key' envelope a' he
    cases he
    exact hI.offers_older hg hx
  · rintro q topic' key' envelope text he
    cases he
    exact hc

/-- A rejected event ends its batch: it heads the batch, or the batch is interrupted. -/
theorem Inv.reject (hI : Inv k c) {limit : ℤ} {xs pre post : List PendingRow} {x : PendingRow}
    {topic key text : String} (hg : Going limit xs pre true (doneBy p c.hist))
    (hx : xs = pre ++ x :: post) (hu : Unended p c.hist)
    (hc : Delivering k c (.did p (.publish topic key ⟨x.id, x.payload⟩) (.error text))) :
    Inv k (c.push c.s (.did p (.publish topic key ⟨x.id, x.payload⟩) (.error text))) := by
  have hrows : c.s.rows = (c.s.rows.filter fun _ => true).map id := by simp
  refine hI.rewrite rewrites_none hrows rfl (fun _ => ?_) hI.acked (fun _ _ => rfl)
    (fun _ _ _ _ _ hg' => absurd hg' (not_going_of_head rfl)) (fun _ => rfl)
    fun hi limit' xs' pre' b _ hg' y hy => ?_
  · rw [← hrows]
    exact hI.book_publish hg hx hc
  · obtain ⟨rfl, rfl, rfl, rfl⟩ := hg.unique hg'
    have hk : ¬ rejections x.id c.hist < k := by
      simpa [interrupts, busy_of_going hg' hy] using hi
    rcases hc with hc | ⟨limit₀, x₀, xs₀, hsel, hid, -, -⟩
    · exact absurd hc hk
    · obtain ⟨rfl, hxs⟩ := hg.select_mem.1 hsel
      have hn := (hI.holds p _ _ _ _ hu hg).nodup
      obtain ⟨z, pre₀, rfl⟩ := List.exists_cons_of_ne_nil (List.ne_nil_of_mem hy)
      rw [List.cons_append] at hx
      obtain ⟨rfl, rfl⟩ := List.cons.inj (hxs.trans hx)
      rw [hx, List.map_cons, List.nodup_cons] at hn
      refine absurd (List.mem_map.2 ⟨x, ?_, hid.symm⟩) hn.1
      exact List.mem_append_right _ List.mem_cons_self

/-- An event is acknowledged by the relay that holds it, and had not been since it was last
given up. -/
theorem Inv.acknowledge (hI : Inv k c) {limit : ℤ} {xs pre post : List PendingRow}
    {x : PendingRow} {topic key : String} (hg : Going limit xs pre true (doneBy p c.hist))
    (hx : xs = pre ++ x :: post) (hu : Unended p c.hist) :
    Inv k (c.push c.s (.did p (.publish topic key ⟨x.id, x.payload⟩) (.ok ()))) := by
  let e : OutboxEvent := .did p (.publish topic key ⟨x.id, x.payload⟩) (.ok ())
  have hu' : Unended p (e :: c.hist) := by
    intro e' he
    rcases List.mem_cons.1 he with rfl | he
    · simp [e]
    · exact hu e' he
  have hg' : Going limit xs (pre ++ [x]) false (doneBy p (e :: c.hist)) := by
    rw [doneBy_self]
    exact hg.acked topic key hx
  have hbatch := hI.holds p limit xs pre true hu hg
  have hxm : x ∈ xs := by
    rw [hx]
    exact List.mem_append_right _ List.mem_cons_self
  -- no other relay has it, and this one has not had it acknowledged
  have hnot : ¬ Held c x.id := by
    obtain ⟨r, hr, hrx, hi, hp, hl, -⟩ := hbatch.locked x hxm
    have hrid : r.id = x.id := congrArg PendingRow.id hrx
    rintro (⟨r', hr', -, hid, hp'⟩ | ⟨q, limit', xs', pre', b, huq, hgq, y, hy, hid⟩)
    · cases eq_of_id hI.book.nodup hr hr' (hrid.trans hid.symm)
      rw [hp] at hp'
      cases hp'
    · have hyx : y ∈ xs' := (hgq.pre_prefix).subset hy
      obtain ⟨r', hr', hry, -, -, hl', -⟩ := (hI.holds q limit' xs' pre' b huq hgq).locked y hyx
      cases eq_of_id hI.book.nodup hr hr'
        (hrid.trans (hid.symm.trans (congrArg PendingRow.id hry).symm))
      obtain rfl : p = q := Option.some.inj (hl.symm.trans hl')
      obtain ⟨rfl, rfl, rfl, rfl⟩ := hg.unique hgq
      have hn := hbatch.nodup
      rw [hx, List.map_append, List.nodup_append] at hn
      exact hn.2.2 y.id (List.mem_map_of_mem hy) x.id (List.mem_map_of_mem List.mem_cons_self) hid
  have hacks (id : Uuid) : acks id (e :: c.hist) = acks id c.hist + if x.id = id then 1 else 0 := by
    rw [acks, List.countP_cons]
    simp [isAck, acks, e]
  have hint : interruptions k (e :: c.hist) = interruptions k c.hist := Nat.zero_add _
  refine ⟨hI.book_publish hg hx trivial, fun r hr hu => (hI.acked r hr hu).trans_le (acks_cons _),
    fun q limit' xs' pre' b hq hgq => ?_, fun id => ?_, fun id hn => ?_⟩
  · by_cases hqp : q = p
    · subst hqp
      obtain ⟨rfl, rfl, rfl, rfl⟩ := hg'.unique hgq
      refine ⟨hbatch.session, hbatch.nodup, fun y hy => ?_⟩
      rw [if_neg (by simp), List.dropLast_concat]
      exact hbatch.locked y hy
    · refine hI.holds q limit' xs' pre' b ((unended_other (e := e) rfl hqp).1 hq) ?_
      rw [← doneBy_other (e := e) rfl hqp c.hist]
      exact hgq
  · show acks id (e :: c.hist) ≤ interruptions k (e :: c.hist) + 1
    rw [hacks, hint]
    split
    · rename_i hid
      exact Nat.succ_le_succ (hI.unheld id (hid ▸ hnot))
    · exact hI.count id
  · show acks id (e :: c.hist) ≤ interruptions k (e :: c.hist)
    have hid : x.id ≠ id := by
      rintro rfl
      exact hn (.inr ⟨p, limit, xs, _, _, hu', hg', x, List.mem_append_right _ List.mem_cons_self, rfl⟩)
    rw [hacks, hint, if_neg hid]
    refine hI.unheld id fun hh => hn ?_
    rcases hh with hh | ⟨q, limit', xs', pre', b, huq, hgq, y, hy, rfl⟩
    · exact .inl hh
    · by_cases hqp : q = p
      · subst hqp
        obtain ⟨rfl, rfl, rfl, rfl⟩ := hg.unique hgq
        exact .inr ⟨q, _, _, _, _, hu', hg', y, List.mem_append_left _ hy, rfl⟩
      · refine .inr ⟨q, limit', xs', pre', b, (unended_other rfl hqp).2 huq, ?_, y, hy, rfl⟩
        rw [← doneBy_other (e := e) rfl hqp c.hist] at hgq
        exact hgq

theorem unended_did {o : Op} {a : Op.Resp o} (hu : Unended p c.hist) :
    Unended p (.did p o a :: c.hist : OutboxHist) := by
  intro e he
  rcases List.mem_cons.1 he with rfl | he
  · simp
  · exact hu e he

theorem Inv.mark (hI : Inv k c) {limit : ℤ} {xs pre : List PendingRow} {x : PendingRow}
    {began : Time} (hg : Going limit xs (pre ++ [x]) false (doneBy p c.hist)) (hu : Unended p c.hist)
    (hf : ∀ r ∈ c.s.rows, r.id = x.id → r.lockedBy = none ∨ r.lockedBy = some p) :
    Inv k (c.push { c.s with rows := c.s.rows.map (OutboxRow.mark p began x.id) }
      (.did p (.markPublished x.id) (.ok ()))) := by
  have hg' : Going limit xs (pre ++ [x]) true
      (doneBy p (.did p (.markPublished x.id) (.ok ()) :: c.hist)) := by
    rw [doneBy_self]
    exact hg.marked
  have hrows : c.s.rows.map (OutboxRow.mark p began x.id) =
      (c.s.rows.filter fun _ => true).map (OutboxRow.mark p began x.id) := by simp
  refine hI.rewrite (rewrites_mark hf) hrows rfl (fun hb => hb.cons (by simp) (by simp) (by simp) ?_
    (by simp)) (fun r hr h => ?_) (fun _ _ => rfl) (fun limit' xs' pre' b _ hg₁ => ?_) (fun _ => rfl)
    fun _ limit' xs' pre' b _ hg₁ y hy => ?_
  · rintro q id ⟨⟩
    exact hg.commit_not_mem
  · unfold OutboxRow.mark at h
    split at h
    · rename_i hid
      obtain ⟨topic, key, hm⟩ := hg.acked_mem x (List.mem_append_right _ List.mem_cons_self)
      rw [hid]
      exact acks_pos hm
    · exact hI.acked r hr h
  · obtain ⟨rfl, rfl, rfl, rfl⟩ := hg'.unique hg₁
    have hbatch := hI.holds p _ _ _ _ hu hg
    refine ⟨hbatch.session, hbatch.nodup, fun y hy => ?_⟩
    obtain ⟨r, hr, hry, hi, hp, hl, hupd⟩ := hbatch.locked y hy
    refine ⟨r.mark p began x.id, List.mem_map_of_mem hr, ?_⟩
    rw [if_neg (by simp), List.dropLast_concat] at hupd
    unfold OutboxRow.mark
    split
    · exact ⟨hry, hi, hp, rfl, fun _ => rfl⟩
    · rename_i hne
      refine ⟨hry, hi, hp, hl, fun hm => ?_⟩
      rcases List.mem_append.1 hm with hm | hm
      · exact hupd hm
      · cases List.mem_singleton.1 hm
        exact absurd (congrArg PendingRow.id hry) hne
  · obtain ⟨rfl, rfl, rfl, rfl⟩ := hg.unique hg₁
    exact .inr ⟨p, _, _, _, _, unended_did hu, hg', y, hy, rfl⟩

/-- The rows of a batch that is all marked are published by its commit. -/
theorem Inv.settles (hI : Inv k c) {limit : ℤ} {xs : List PendingRow}
    (hg : Going limit xs xs true (doneBy p c.hist)) (hu : Unended p c.hist) {x : PendingRow}
    (hx : x ∈ xs) : Published (c.s.commit p).rows x.id := by
  obtain ⟨r, hr, hrx, hi, -, hl, hupd⟩ := (hI.holds p limit xs xs true hu hg).locked x hx
  refine ⟨r.settle p, List.mem_map_of_mem hr, ?_, congrArg PendingRow.id hrx, ?_⟩
  · simp [OutboxRow.settle, hi]
  · have := hupd hx
    simp only [OutboxRow.settle, hl, if_true]
    cases hr' : r.update with
    | none => rw [hr'] at this; cases this
    | some t => rfl

theorem Inv.commit (hI : Inv k c) (hu : Unended p c.hist)
    (hφ : Staging (doneBy p c.hist) ∨ ∃ limit xs, Going limit xs xs true (doneBy p c.hist)) :
    Inv k (c.push (c.s.commit p) (.did p .commit (.ok ()))) := by
  have hrows : (c.s.commit p).rows = (c.s.rows.filter fun _ => true).map (OutboxRow.settle p) := by
    simp [Store.commit]
  refine hI.rewrite rewrites_settle hrows rfl (fun hb => hb.cons (by simp) (by simp) ?_ (by simp)
    (by simp)) (fun r hr h => hI.acked r hr ?_) (fun q hq => Function.update_of_ne hq _ _)
    (fun _ _ _ _ _ hg => absurd hg (not_going_of_head rfl)) (fun _ => rfl)
    fun _ limit xs pre b _ hg x hx => ?_
  · rintro q ⟨⟩ id hm
    rcases hφ with hst | ⟨limit, xs, hg⟩
    · exact (hst _ hm).elim
    · obtain ⟨x, hx, rfl⟩ := hg.of_mem_mark hm
      rw [← hrows]
      exact hI.settles hg hu hx
  · simp only [OutboxRow.settle] at h
    split at h
    · cases hr' : r.update with
      | none => exact .inl (by simpa [hr'] using h)
      | some t => exact .inr rfl
    · exact h
  · rcases hφ with hst | ⟨limit', xs', hg'⟩
    · exact absurd hst hg.not_staging
    · obtain ⟨rfl, rfl, rfl, rfl⟩ := hg'.unique hg
      exact .inl (hI.settles hg hu hx)

/-! ## Any operation -/

theorem Inv.act (hI : Inv k c) {o : Op} {a : Op.Resp o} {s : Store} (hu : Unended p c.hist)
    (hφ : Allowed (doneBy p c.hist) o) (hx : Exec p o c.s a s)
    (hc : Delivering k c (.did p o a)) : Inv k (c.push s (.did p o a)) := by
  cases hx with
  | begin_ok => exact (hI.begin hφ).1
  | begin_fail e => exact (hI.begin (t := none) hφ).2
  | stage_ok event id ht ha hid => exact hI.stage hφ ht hid hc
  | stage_fail event e ht =>
    exact hI.fail _ rfl (by simp) (by simp) (fun _ => rfl) (.inr fun _ _ _ _ hg => hg.not_staging hφ)
  | select_ok limit ht ha hs => exact hI.select hφ ht ha hs hc
  | select_fail limit e ht =>
    refine hI.fail _ rfl (by simp) (by simp) (fun _ => rfl) (.inr fun _ _ _ _ hg => ?_)
    rw [show doneBy p c.hist = _ from hφ] at hg
    cases hg.goes_head
  | publish topic key envelope a =>
    obtain ⟨limit, xs, pre, x, post, hg, hxs, rfl⟩ := hφ
    cases a with
    | error text => exact hI.reject hg hxs hu hc
    | ok a => exact hI.acknowledge hg hxs hu
  | mark_ok id ht ha hf =>
    obtain ⟨limit, xs, pre, x, hg, rfl⟩ := hφ
    exact hI.mark hg hu hf
  | mark_fail id e ht => exact hI.fail _ rfl (by simp) (by simp) (fun _ => rfl) (.inl rfl)
  | commit_ok ht => exact hI.commit hu hφ
  | commit_fail e ht => exact hI.fail _ rfl (by simp) (by simp) (fun _ => rfl) (.inl rfl)
  | rollback => exact hI.rollback hφ

theorem inv_start (now : Time) : Inv k ⟨.start now, []⟩ where
  book := by
    refine ⟨List.nodup_nil, ?_, List.Pairwise.nil, ?_, ?_, ?_, ?_, ?_, ?_⟩
    · exact fun _ h => absurd h List.not_mem_nil
    · exact fun _ _ _ h => absurd h List.not_mem_nil
    · exact fun _ _ _ _ _ h => absurd h List.not_mem_nil
    · exact fun _ _ _ h => absurd h List.not_mem_nil
    · intro newer _ _ _ _ _ _ h
      simp at h
    · exact fun _ h => absurd h List.not_mem_nil
    · intro newer _ _ _ _ _ _ h
      simp at h
  acked _ h := absurd h List.not_mem_nil
  holds _ _ _ _ _ _ hg := absurd (show Staging [] from fun _ h => absurd h List.not_mem_nil)
    hg.not_staging
  count _ := Nat.zero_le _
  unheld _ _ := Nat.zero_le _

end

def outboxInvariant (k : ℕ) :
    Leading.Invariant machine Allowed (fun t => ¬ Underway t) (Delivering k) where
  Inv := Inv k
  act hI hu hφ hx hc := hI.act hu hφ hx hc
  finish hI _ hq := hI.finish hq
  crash hI _ := hI.crash
  env hI := by
    rintro ⟨now, -, rfl⟩
    exact hI.tick now

theorem inv_of_outboxRun {k : ℕ} {now : Time} {w : World machine}
    (hw : OutboxRun (Delivering k) now w) : Inv k w.conf :=
  (outboxInvariant k).run (fun _ => leads_outboxProcess) (inv_start now) hw

/-! ## Delivery -/

def KeptRows (rows rows' : List OutboxRow) : Prop := ∀ r ∈ rows, r.inserter = none →
  ∃ r' ∈ rows', r.same r' ∧ r'.inserter = none ∧ (r.publishedAt.isSome → r'.publishedAt.isSome)

section
variable {k p : ℕ} {now : Time} {u u' w : World machine}

theorem Rewrites.keptRows {rows rows' : List OutboxRow} {g : OutboxRow → Bool}
    {f : OutboxRow → OutboxRow} (hf : Rewrites p rows g f)
    (hrows : rows' = (rows.filter g).map f) : KeptRows rows rows' := by
  rw [hrows]
  exact fun r hr hi => ⟨f r, hf.mem hr hi, hf.same r, (hf.kept r hr hi).2, hf.published r⟩

theorem keptRows_refl (rows : List OutboxRow) : KeptRows rows rows :=
  fun r hr hi => ⟨r, hr, r.same_refl, hi, id⟩

theorem KeptRows.trans {rows rows' rows'' : List OutboxRow} (h : KeptRows rows rows')
    (h' : KeptRows rows' rows'') : KeptRows rows rows'' := by
  intro r hr hi
  obtain ⟨r', hr', hs, hi', hp⟩ := h r hr hi
  obtain ⟨r'', hr'', hs', hi'', hp'⟩ := h' r' hr' hi'
  exact ⟨r'', hr'', hs.trans hs', hi'', hp' ∘ hp⟩

theorem keptRows_exec {s s' : Store} {o : Op} {a : Op.Resp o}
    (hn : (s.rows.map OutboxRow.id).Nodup) (hx : Exec p o s a s') : KeptRows s.rows s'.rows := by
  have undo (t : Option Session) : KeptRows s.rows (s.undo p t).rows :=
    (rewrites_release (p := p)).keptRows rfl
  cases hx with
  | begin_ok | begin_fail | publish => exact keptRows_refl _
  | stage_ok event id => exact fun r hr hi => ⟨r, List.mem_cons_of_mem _ hr, r.same_refl, hi, fun h => h⟩
  | stage_fail | select_fail | mark_fail | commit_fail | rollback => exact undo _
  | select_ok limit ht ha hs => exact (rewrites_lock (p := p) hs hn).keptRows (by simp)
  | @mark_ok _ t id ht ha hf => exact (rewrites_mark (b := t.began) hf).keptRows (by simp)
  | commit_ok => exact (rewrites_settle (p := p)).keptRows (by simp [Store.commit])

theorem keptRows_step (hn : (u.conf.s.rows.map OutboxRow.id).Nodup)
    (hs : Step machine OutboxProcess (Delivering k) u w) : KeptRows u.conf.s.rows w.conf.s.rows := by
  cases hs with
  | start p c hp hc => exact keptRows_refl _
  | act p o f a s hp hx hc => exact keptRows_exec hn hx
  | finish p hp hc => exact (rewrites_release (p := p)).keptRows rfl
  | crash p c hp hc => exact (rewrites_release (p := p)).keptRows rfl
  | env s hx hc =>
    obtain ⟨now, -, rfl⟩ := hx
    exact keptRows_refl _

theorem keptRows_steps (hu : OutboxRun (Delivering k) now u)
    (hs : Steps machine OutboxProcess (Delivering k) u w) :
    KeptRows u.conf.s.rows w.conf.s.rows := by
  induction hs with
  | refl => exact keptRows_refl _
  | tail hs' hstep ih =>
    exact ih.trans (keptRows_step (inv_of_outboxRun (hu.trans hs')).book.nodup hstep)

theorem selects_of_step {limit : ℤ} {xs : List PendingRow}
    (hs : Step machine OutboxProcess (Delivering k) u u')
    (he : u'.conf.hist = .did p (.selectPending limit) (.ok xs) :: u.conf.hist) :
    ∃ rows, Selects u.conf.s.rows limit rows ∧ xs = rows.map OutboxRow.pending := by
  cases hs with
  | start q c hq hm => exact absurd he (by simp)
  | finish q hq hc' | crash q c' hq hc' => cases he
  | env s hx hc' => cases he
  | act q o f a s hq hx hc' =>
    cases he
    cases hx with
    | select_ok _ ht ha hsel => exact ⟨_, hsel, rfl⟩

theorem selected_later {limit : ℤ} {xs : List PendingRow}
    (he : u'.conf.hist = .did p (.selectPending limit) (.ok xs) :: u.conf.hist)
    (hs : Steps machine OutboxProcess (Delivering k) u' w) :
    (⟨.selectPending limit, .ok xs⟩ : OutboxDid) ∈ doneBy p w.conf.hist := by
  obtain ⟨l, hl⟩ := hist_of_steps hs
  rw [hl, he, doneBy_append, doneBy_self]
  exact List.mem_append_right _ List.mem_cons_self

theorem published_of_returned {batchSize limit : ℤ} {n : ℕ} {xs : List PendingRow}
    (hI : Inv k w.conf) (hm : (⟨.selectPending limit, .ok xs⟩ : OutboxDid) ∈ doneBy p w.conf.hist)
    (ha : (relayOnce batchSize).After (doneBy p w.conf.hist) (.ret n)) {x : PendingRow}
    (hx : x ∈ xs) : Published w.conf.s.rows x.id := by
  obtain ⟨-, ht, limit', xs', t, hg, rfl⟩ := (leads_relayOnce batchSize).after ha
  rw [ht] at hm
  have hm' : (⟨.selectPending limit, .ok xs⟩ : OutboxDid) ∈ t := by simpa using hm
  obtain ⟨rfl, rfl⟩ := hg.select_mem.1 hm'
  have hmark := hg.marked_mem x hx
  refine hI.book.settled p ?_ x.id ?_
  · rw [ht]
    exact List.mem_cons_of_mem _ List.mem_cons_self
  · rw [ht]
    exact List.mem_cons_of_mem _ (List.mem_cons_of_mem _ hmark)

/-- A tick that the broker ends has selected one batch, with the event that was rejected. -/
theorem rejected_of_failed {batchSize limit : ℤ} {text : String} {xs : List PendingRow}
    (hm : (⟨.selectPending limit, .ok xs⟩ : OutboxDid) ∈ doneBy p w.conf.hist)
    (ha : (relayOnce batchSize).After (doneBy p w.conf.hist) (.throw (.producer text))) :
    (∀ l ys, (⟨.selectPending l, .ok ys⟩ : OutboxDid) ∈ doneBy p w.conf.hist → l = limit ∧ ys = xs) ∧
      ∃ x ∈ xs, ∃ topic key,
        (.did p (.publish topic key ⟨x.id, x.payload⟩) (.error text) : OutboxEvent) ∈ w.conf.hist := by
  obtain ⟨-, ht, limit', xs', pre, x, post, topic, key, t, hg, hx, rfl⟩ :=
    (leads_relayOnce batchSize).after ha
  have selected {l : ℤ} {ys : List PendingRow}
      (h : (⟨.selectPending l, .ok ys⟩ : OutboxDid) ∈ doneBy p w.conf.hist) :
      l = limit' ∧ ys = xs' := by
    rw [ht] at h
    exact hg.select_mem.1 (by simpa using h)
  obtain ⟨rfl, rfl⟩ := selected hm
  refine ⟨fun l ys h => selected h, x, ?_, topic, key, did_of_mem_doneBy ?_⟩
  · rw [hx]
    exact List.mem_append_right _ List.mem_cons_self
  · rw [ht]
    exact List.mem_cons_of_mem _ List.mem_cons_self

/-- What a relay delivers while events are staged one commit after another in an aggregate,
no batch takes an event whose elders another relay has, and an event that keeps failing
heads a batch of its aggregate that is not full. -/
theorem delivers (k : ℕ) : Delivers k (Delivering k) where
  acknowledged now w hw r hr hp := (inv_of_outboxRun hw).acked r hr (.inl hp)
  kept now u w hu hs := keptRows_steps hu hs
  returned now u u' w p limit xs batchSize n hu hs he hs' ha r hr hfree := by
    have hI := inv_of_outboxRun ((hu.tail hs).trans hs')
    obtain ⟨rows, hsel, rfl⟩ := selects_of_step hs he
    have hpub {x : PendingRow} (hx : x ∈ rows.map OutboxRow.pending) : Published w.conf.s.rows x.id :=
      published_of_returned hI (selected_later he hs') ha hx
    rcases hsel.oldest r hr hfree with hm | ⟨hlen, hall⟩
    · exact .inl (hpub (List.mem_map_of_mem hm))
    · refine .inr ⟨by rw [List.length_map]; exact hlen, fun x hx => ⟨hpub hx, ?_⟩⟩
      obtain ⟨r', hr', rfl⟩ := List.mem_map.1 hx
      exact ⟨r', (hsel.free r' hr').1, rfl, hall r' hr'⟩
  unblocked now u u' w p limit xs batchSize text hu hs he hs' ha := by
    have hI := inv_of_outboxRun ((hu.tail hs).trans hs')
    obtain ⟨selected, x, hxm, topic, key, hrej⟩ := rejected_of_failed (selected_later he hs') ha
    obtain ⟨rows, hsel, rfl⟩ := selects_of_step hs he
    obtain ⟨newer, older, hh⟩ := List.append_of_mem hrej
    refine ⟨x, hxm, topic, key, older, newer, hh, ?_⟩
    refine (hI.book.rejected newer p topic key _ text older hh).imp_right ?_
    rintro ⟨l, y, ys, hmy, -, hagg, hlen⟩ r hr hfree
    have hmy' : (⟨.selectPending l, .ok (y :: ys)⟩ : OutboxDid) ∈ doneBy p w.conf.hist := by
      rw [hh, doneBy_append, doneBy_self]
      exact List.mem_append_right _ (List.mem_cons_of_mem _ hmy)
    obtain ⟨rfl, hys⟩ := selected _ _ hmy'
    have hall : ∀ z ∈ rows.map OutboxRow.pending, z.aggregateId = y.aggregateId := by
      rw [← hys]
      exact List.forall_mem_cons.2 ⟨rfl, hagg⟩
    rcases hsel.oldest r hr hfree with hmr | ⟨hfull, -⟩
    · exact (hall _ (List.mem_map_of_mem hmr)).trans (hall x hxm).symm
    · have := congrArg List.length hys
      rw [List.length_cons, List.length_map] at this
      omega
  unrepeated now w hw := (inv_of_outboxRun hw).count
  ordered now w hw newer p topic key envelope a older he l r l' hrows hid r' hr' hagg := by
    have hb := (inv_of_outboxRun hw).book
    have hp := hb.ordered
    rw [hrows] at hp
    have hold := ((List.pairwise_cons.1 (List.pairwise_append.1 hp).2.1).1 r' hr' hagg).2
    refine hb.offers newer p topic key envelope a older he r ?_ r' ?_ hid ⟨hagg, hold⟩
    · rw [hrows]
      exact List.mem_append_right _ List.mem_cons_self
    · rw [hrows]
      exact List.mem_append_right _ (List.mem_cons_of_mem _ hr')

end

/-! ### Two wallets, and a broker that rejects the event of one -/

section
variable (cond : Conf machine → OutboxEvent → Prop)

/-- Process `p` has gone on from `x` to `x'`. -/
inductive Performs (p : ℕ) : Conf machine → Prog outboxSig Empty Unit → Conf machine →
    Prog outboxSig Empty Unit → Prop
  | refl (c x) : Performs p c x c x
  | op {c o f a s c' x'} (h : Exec p o c.s a s) (hc : cond c (.did p o a))
      (hk : Performs p (c.push s (.did p o a)) (f a) c' x') : Performs p c (.op o f) c' x'

end

section
variable {cond : Conf machine → OutboxEvent → Prop}

theorem steps_of_performs {p : ℕ} {x x' : Prog outboxSig Empty Unit} {c c' : Conf machine}
    (h : Performs cond p c x c' x') : ∀ {w : World machine}, w.conf = c → w.proc p = .running x →
      Steps machine OutboxProcess cond w ⟨c', Function.update w.proc p (.running x')⟩ := by
  induction h with
  | refl c x =>
    rintro w rfl hp
    rw [← hp, Function.update_eq_self]
    exact .refl
  | @op c o f a s c' x' h hc hk ih =>
    rintro w rfl hp
    have hstep : Step machine OutboxProcess cond w _ := Step.act w p o f a s hp h hc
    have hrest := ih (w := ⟨w.conf.push s (.did p o a), Function.update w.proc p (.running (f a))⟩) rfl
      (Function.update_self ..)
    rw [Function.update_idem] at hrest
    exact .head hstep hrest

/-- A fresh process takes its first steps. -/
theorem steps_of_fresh {p : ℕ} {x x' : Prog outboxSig Empty Unit} {w : World machine}
    {c' : Conf machine} (hx : OutboxProcess x) (hp : w.proc p = .fresh)
    (h : Performs cond p w.conf x c' x') :
    Steps machine OutboxProcess cond w ⟨c', Function.update w.proc p (.running x')⟩ := by
  have hrest := steps_of_performs h (w := ⟨w.conf, Function.update w.proc p (.running x)⟩) rfl
    (Function.update_self ..)
  rw [Function.update_idem] at hrest
  exact .head (.start w p x hp hx) hrest

end

def walletRow (n : ℕ) : OutboxRow :=
  { newRow 0 n n (.withdrawalConfirmed n n 1) with inserter := none }

def stageOne (n : ℕ) : Prog outboxSig Empty Unit :=
  .op .begin fun _ => .op (.stage (.withdrawalConfirmed n n 1)) fun _ => .op .commit fun _ => .ret ()

theorem outboxProcess_stageOne (n : ℕ) : OutboxProcess (stageOne n) :=
  .stager _ fun _ => ⟨trivial, fun _ => ⟨trivial, fun _ => ⟨trivial, fun _ => trivial⟩⟩⟩

def inSession (p : ℕ) (now : Time) (rows : List OutboxRow) (began : Time) : Store :=
  ⟨now, rows, Function.update (fun _ => none) p (some ⟨began, false⟩)⟩

theorem inSession_self (p : ℕ) (now : Time) (rows : List OutboxRow) (began : Time) :
    (inSession p now rows began).sessions p = some ⟨began, false⟩ := by simp [inSession]

theorem exec_begin (p : ℕ) (now : Time) (rows : List OutboxRow) :
    Exec p .begin ⟨now, rows, fun _ => none⟩ (.ok ()) (inSession p now rows now) := .begin_ok rfl

theorem update_none (p : ℕ) (t : Option Session) :
    Function.update (Function.update (fun _ => none) p t) p none = fun _ : ℕ => (none : Option Session) := by
  rw [Function.update_idem, Function.update_eq_self_iff]

def staging (n : ℕ) : OutboxHist :=
  [.did n .commit (.ok ()), .did n (.stage (.withdrawalConfirmed n n 1)) (.ok n), .did n .begin (.ok ()),
    .ticked]

/-- Time passes, and then row `n` is staged, the first of its wallet, and committed. -/
theorem steps_stageOne {k : ℕ} {w : World machine} {rows : List OutboxRow} {m n : ℕ}
    (hw : w.conf.s = ⟨m, rows, fun _ => none⟩) (hm : m ≤ n) (hp : w.proc n = .fresh)
    (hid : ∀ r ∈ rows, r.id ≠ n) (hagg : ∀ r ∈ rows, r.aggregateId ≠ n)
    (hrows : rows.map (OutboxRow.settle n) = rows) :
    ∃ w', Steps machine OutboxProcess (Delivering k) w w' ∧
      w'.conf.s = ⟨n, walletRow n :: rows, fun _ => none⟩ ∧ (∀ q, q ≠ n → w'.proc q = w.proc q) ∧
      w'.conf.hist = staging n ++ w.conf.hist := by
  have htick : Step machine OutboxProcess (Delivering k) w
      { w with conf := w.conf.push ⟨n, rows, fun _ => none⟩ .ticked } :=
    .env w _ ⟨n, by rw [hw]; exact hm, by rw [hw]⟩ trivial
  have hstage : Exec n (.stage (.withdrawalConfirmed n n 1)) (inSession n n rows n) (.ok n)
      (inSession n n (newRow n n n (.withdrawalConfirmed n n 1) :: rows) n) :=
    Exec.stage_ok (s := inSession n n rows n) (t := ⟨n, false⟩) _ n (inSession_self ..) rfl hid
  have hcommit : Exec n .commit (inSession n n (newRow n n n (.withdrawalConfirmed n n 1) :: rows) n)
      (.ok ()) ⟨n, walletRow n :: rows, fun _ => none⟩ := by
    have hs : (inSession n n (newRow n n n (.withdrawalConfirmed n n 1) :: rows) n).commit n =
        ⟨n, walletRow n :: rows, fun _ => none⟩ := by
      rw [Store.commit, Store.setSession, inSession, update_none, List.map_cons, hrows]
      simp [OutboxRow.settle, walletRow, newRow]
    rw [← hs]
    exact .commit_ok (inSession_self ..)
  have hsteps : Steps machine OutboxProcess (Delivering k)
      { w with conf := w.conf.push ⟨n, rows, fun _ => none⟩ .ticked } _ :=
    steps_of_fresh (outboxProcess_stageOne n) hp (.op (exec_begin n n rows) trivial
      (.op hstage (fun r hr ha => absurd ha (hagg r hr)) (.op hcommit trivial (.refl _ _))))
  exact ⟨_, .head htick hsteps, rfl, fun q hq => Function.update_of_ne hq _ _, rfl⟩

/-- Row 1 is older than row 2, which the broker rejects. -/
def poisoned : Store := ⟨2, [walletRow 2, walletRow 1], fun _ => none⟩

theorem run_staged (k : ℕ) : ∃ w, OutboxRun (Delivering k) 0 w ∧ w.conf.s = poisoned ∧
    (∀ q, 3 ≤ q → w.proc q = .fresh) ∧ w.conf.hist = staging 2 ++ staging 1 := by
  obtain ⟨w, hw, hs, hf, hh⟩ := steps_stageOne (k := k) (w := .init machine (.start 0)) (n := 1) rfl
    (by decide) rfl (by simp) (by simp) rfl
  obtain ⟨w', hw', hs', hf', hh'⟩ := steps_stageOne (k := k) (n := 2) hs (by decide)
    (hf 2 (by decide)) (by simp [walletRow, newRow])
    (by simp [walletRow, newRow, DomainEvent.aggregateId]) rfl
  refine ⟨w', hw.trans hw', hs', fun q hq => ?_, ?_⟩
  · rw [hf' q (by omega), hf q (by omega)]
    rfl
  · rw [hh', hh]
    rfl

def lockedRow (p n : ℕ) (update : Option Time) : OutboxRow :=
  { walletRow n with lockedBy := some p, update := update }

def offer (p n : ℕ) (a : Except String Unit) : OutboxEvent :=
  .did p (.publish "bitcosats.wallet.events" (toString n) ⟨n, (walletRow n).payload⟩) a

def selection (p : ℕ) (limit : ℤ) (xs : List OutboxRow) : OutboxEvent :=
  .did p (.selectPending limit) (.ok (xs.map OutboxRow.pending))

def poisonedTick (p : ℕ) : OutboxHist :=
  [.did p .rollback (), offer p 2 (.error "rejected"), .did p (.markPublished 1) (.ok ()),
    offer p 1 (.ok ()), selection p 10 [walletRow 1, walletRow 2], .did p .begin (.ok ())]

theorem selects_poisoned : Selects poisoned.rows 10 [walletRow 1, walletRow 2] where
  nonneg := by decide
  nodup := by decide
  free := by
    intro x hx
    rcases List.mem_pair.1 hx with rfl | rfl
    · exact ⟨List.mem_cons_of_mem _ List.mem_cons_self, rfl, rfl, rfl⟩
    · exact ⟨List.mem_cons_self, rfl, rfl, rfl⟩
  ordered := by
    refine List.pairwise_pair.2 ?_
    decide
  limited := by decide
  oldest := by
    intro r hr _
    rcases List.mem_pair.1 hr with rfl | rfl
    · exact .inl (List.mem_cons_of_mem _ List.mem_cons_self)
    · exact .inl List.mem_cons_self

theorem performs_tick {cond : Conf machine → OutboxEvent → Prop} {c : Conf machine} {p : ℕ}
    (hc : c.s = poisoned)
    (hidle : ∀ c', cond c' (.did p .begin (.ok ())) ∧ cond c' (offer p 1 (.ok ())) ∧
      cond c' (.did p (.markPublished 1) (.ok ())) ∧ cond c' (.did p .rollback ()))
    (hselect : ∀ h, cond ⟨inSession p 2 poisoned.rows 2, h⟩ (selection p 10 [walletRow 1, walletRow 2]))
    (hreject : ∀ s, cond ⟨s, (poisonedTick p).drop 2 ++ c.hist⟩ (offer p 2 (.error "rejected"))) :
    Performs cond p c (relayOnce 10).spawn ⟨poisoned, poisonedTick p ++ c.hist⟩ (.ret ()) := by
  have hbegin : Exec p .begin c.s (.ok ()) (inSession p 2 poisoned.rows 2) := by
    rw [hc]
    exact exec_begin p 2 poisoned.rows
  have hlock : Exec p (.selectPending 10) (inSession p 2 poisoned.rows 2)
      (.ok [(walletRow 1).pending, (walletRow 2).pending])
      (inSession p 2 [lockedRow p 2 none, lockedRow p 1 none] 2) :=
    Exec.select_ok (s := inSession p 2 poisoned.rows 2) (t := ⟨2, false⟩) 10
      (inSession_self ..) rfl selects_poisoned
  have hmark : Exec p (.markPublished 1) (inSession p 2 [lockedRow p 2 none, lockedRow p 1 none] 2)
      (.ok ()) (inSession p 2 [lockedRow p 2 none, lockedRow p 1 (some 2)] 2) := by
    refine Exec.mark_ok (s := inSession p 2 [lockedRow p 2 none, lockedRow p 1 none] 2)
      (t := ⟨2, false⟩) 1 (inSession_self ..) rfl fun r hr _ => ?_
    rcases List.mem_pair.1 hr with rfl | rfl
    · exact .inr rfl
    · exact .inr rfl
  have hrollback : Exec p .rollback (inSession p 2 [lockedRow p 2 none, lockedRow p 1 (some 2)] 2) ()
      poisoned := by
    have hs : (inSession p 2 [lockedRow p 2 none, lockedRow p 1 (some 2)] 2).undo p none = poisoned := by
      rw [Store.undo, Store.setSession, inSession, update_none]
      simp [OutboxRow.release, lockedRow, walletRow, newRow, poisoned]
    rw [← hs]
    exact .rollback
  exact .op hbegin (hidle _).1 (.op hlock (hselect _) (.op (.publish _ _ _ (.ok ())) (hidle _).2.1
    (.op hmark (hidle _).2.2.1 (.op (.publish _ _ _ (.error "rejected")) (hreject _)
      (.op hrollback (hidle _).2.2.2 (.refl _ _))))))

section
variable (k p : ℕ) (h : OutboxHist)

theorem acks_poisonedTick : acks 1 (poisonedTick p ++ h) = acks 1 h + 1 := by
  simp [acks, poisonedTick, offer, selection, isAck]

theorem rejections_poisonedTick : rejections 2 (poisonedTick p ++ h) = rejections 2 h + 1 := by
  simp [rejections, poisonedTick, offer, selection, isRejection]

theorem interruptions_poisonedTick : interruptions k (poisonedTick p ++ h) =
    (decide (rejections 2 h < k)).toNat + interruptions k h := by
  have hr : ∀ a b c d : OutboxEvent, (∀ e ∈ [a, b, c, d], isRejection 2 e = false) →
      rejections 2 (a :: b :: c :: d :: h) = rejections 2 h := by
    intro a b c d he
    simp only [List.forall_mem_cons] at he
    simp [rejections, he]
  simp only [poisonedTick, offer, selection, List.cons_append, List.nil_append, interruptions,
    interrupts, Bool.toNat_false, Nat.zero_add, busy, doneBy_self, List.any_cons, isAcked,
    Bool.true_or, Bool.false_or, Bool.true_and]
  rw [hr]
  simp [isRejection]

end

/-! A batch of one event. -/

def publishedRow (n : ℕ) : OutboxRow := { walletRow n with publishedAt := some 2 }

section
variable {k p n : ℕ} {limit : ℤ} {rows rows' : List OutboxRow} {w : World machine}

/-- A tick goes on from its selection. -/
theorem steps_tick {cond : Conf machine → OutboxEvent → Prop} {o : Op} {a : Op.Resp o}
    {f : Op.Resp o → Prog outboxSig Empty Unit} {x x' : Prog outboxSig Empty Unit}
    {c c' : Conf machine} {s : Store} (hx : OutboxProcess x) (hp : w.proc p = .fresh)
    (h : Performs cond p w.conf x c (.op o f)) (ho : Exec p o c.s a s) (hc : cond c (.did p o a))
    (h' : Performs cond p (c.push s (.did p o a)) (f a) c' x') :
    ∃ u u', Steps machine OutboxProcess cond w u ∧ u.conf = c ∧
      Step machine OutboxProcess cond u u' ∧ u'.conf = c.push s (.did p o a) ∧
      Steps machine OutboxProcess cond u' ⟨c', Function.update w.proc p (.running x')⟩ := by
  have hself : ∀ {y}, (Function.update w.proc p y) p = y := Function.update_self ..
  have hrest := steps_of_performs h'
    (w := ⟨c.push s (.did p o a), Function.update w.proc p (.running (f a))⟩) rfl hself
  have hstep : Step machine OutboxProcess cond
      ⟨c, Function.update w.proc p (.running (.op o f))⟩ _ := .act _ p o f a s hself ho hc
  rw [Function.update_idem] at hrest hstep
  exact ⟨_, _, steps_of_fresh hx hp h, rfl, hstep, rfl, hrest⟩

theorem exec_select {xs : List OutboxRow} (h : Selects rows limit xs) :
    Exec p (.selectPending limit) (inSession p 2 rows 2) (.ok (xs.map OutboxRow.pending))
      (inSession p 2 (rows.map (OutboxRow.lock p (xs.map OutboxRow.id))) 2) :=
  Exec.select_ok (s := inSession p 2 rows 2) (t := ⟨2, false⟩) limit (inSession_self ..) rfl h

def acceptedTick (p n : ℕ) (limit : ℤ) : OutboxHist :=
  [.did p .rollback (), .did p .commit (.ok ()), .did p (.markPublished n) (.ok ()), offer p n (.ok ()),
    selection p limit [walletRow n], .did p .begin (.ok ())]

def rejectedTick (p n : ℕ) (limit : ℤ) : OutboxHist :=
  [.did p .rollback (), offer p n (.error "rejected"), selection p limit [walletRow n],
    .did p .begin (.ok ())]

/-- A tick over `rows`, of a batch with row `n` alone, that leaves `rows'`. -/
structure TickOf (k p n : ℕ) (limit : ℤ) (rows rows' : List OutboxRow) (t : OutboxHist)
    (w u u' w' : World machine) : Prop where
  opens : Steps machine OutboxProcess (Delivering k) w u
  rows_eq : u.conf.s.rows = rows
  selects : Step machine OutboxProcess (Delivering k) u u'
  selected : u'.conf.hist = selection p limit [walletRow n] :: u.conf.hist
  goes : Steps machine OutboxProcess (Delivering k) u' w'
  leaves : w'.conf.s = ⟨2, rows', fun _ => none⟩
  hist_eq : w'.conf.hist = t ++ w.conf.hist
  others : ∀ q, q ≠ p → w'.proc q = w.proc q

theorem steps_accepted (hs : w.conf.s = ⟨2, rows, fun _ => none⟩) (hp : w.proc p = .fresh)
    (hsel : Selects rows limit [walletRow n]) (hfree : ∀ r ∈ rows, r.lockedBy = none)
    (hdone : ((rows.map (OutboxRow.lock p [n])).map (OutboxRow.mark p 2 n)).map (OutboxRow.settle p) = rows')
    (hundo : (rows'.filter fun r => r.inserter ≠ some p).map (OutboxRow.release p) = rows') :
    ∃ u u' w', TickOf k p n limit rows rows' (acceptedTick p n limit) w u u' w' := by
  have hbegin : Exec p .begin w.conf.s (.ok ()) (inSession p 2 rows 2) := hs ▸ exec_begin p 2 rows
  have hmark : Exec p (.markPublished n) (inSession p 2 (rows.map (OutboxRow.lock p [n])) 2) (.ok ())
      (inSession p 2 ((rows.map (OutboxRow.lock p [n])).map (OutboxRow.mark p 2 n)) 2) := by
    refine Exec.mark_ok (s := inSession p 2 (rows.map (OutboxRow.lock p [n])) 2) (t := ⟨2, false⟩) n
      (inSession_self ..) rfl fun r' hr' _ => ?_
    obtain ⟨r, hr, rfl⟩ := List.mem_map.1 hr'
    unfold OutboxRow.lock
    split
    · exact .inr rfl
    · exact .inl (hfree r hr)
  have hcommit : Exec p .commit
      (inSession p 2 ((rows.map (OutboxRow.lock p [n])).map (OutboxRow.mark p 2 n)) 2) (.ok ())
      ⟨2, rows', fun _ => none⟩ := by
    have h := Exec.commit_ok (inSession_self p 2
      ((rows.map (OutboxRow.lock p [n])).map (OutboxRow.mark p 2 n)) 2)
    rwa [Store.commit, Store.setSession, inSession, update_none, hdone] at h
  have hrollback : Exec p .rollback ⟨2, rows', fun _ => none⟩ () ⟨2, rows', fun _ => none⟩ := by
    have h := Exec.rollback (p := p) (s := ⟨2, rows', fun _ => none⟩)
    rwa [Store.undo, Store.setSession, Function.update_eq_self_iff.2 rfl, hundo] at h
  have hopen : Performs (Delivering k) p w.conf (relayOnce limit).spawn _ _ :=
    .op hbegin trivial (.refl _ _)
  obtain ⟨u, u', hu, hc, hstep, hc', hw⟩ := steps_tick (.relay limit) hp hopen (exec_select hsel)
    (fun r hr _ _ _ _ _ _ => hfree r hr)
    (.op (.publish _ _ _ (.ok ())) trivial (.op hmark trivial (.op hcommit trivial
      (.op hrollback trivial (.refl _ _)))))
  exact ⟨u, u', _, hu, by rw [hc]; rfl, hstep, by rw [hc, hc']; rfl, hw, rfl, rfl,
    fun q hq => Function.update_of_ne hq _ _⟩

theorem steps_rejected (hs : w.conf.s = ⟨2, rows, fun _ => none⟩) (hp : w.proc p = .fresh)
    (hsel : Selects rows limit [walletRow n]) (hfree : ∀ r ∈ rows, r.lockedBy = none)
    (hlimit : 1 < limit)
    (hundo : ((rows.map (OutboxRow.lock p [n])).filter fun r => r.inserter ≠ some p).map
      (OutboxRow.release p) = rows) :
    ∃ u u' w', TickOf k p n limit rows rows (rejectedTick p n limit) w u u' w' := by
  have hbegin : Exec p .begin w.conf.s (.ok ()) (inSession p 2 rows 2) := hs ▸ exec_begin p 2 rows
  have hrollback : Exec p .rollback (inSession p 2 (rows.map (OutboxRow.lock p [n])) 2) ()
      ⟨2, rows, fun _ => none⟩ := by
    have h := Exec.rollback (p := p) (s := inSession p 2 (rows.map (OutboxRow.lock p [n])) 2)
    rwa [Store.undo, Store.setSession, inSession, update_none, hundo] at h
  have hopen : Performs (Delivering k) p w.conf (relayOnce limit).spawn _ _ :=
    .op hbegin trivial (.refl _ _)
  have halone (s : Store) : Delivering k ⟨s, selection p limit [walletRow n] :: .did p .begin (.ok ()) ::
      w.conf.hist⟩ (offer p n (.error "rejected")) := by
    refine .inr ⟨limit, (walletRow n).pending, [], ?_, rfl, by simp, by simpa using hlimit⟩
    exact mem_doneBy_of_did List.mem_cons_self
  obtain ⟨u, u', hu, hc, hstep, hc', hw⟩ := steps_tick (.relay limit) hp hopen (exec_select hsel)
    (fun r hr _ _ _ _ _ _ => hfree r hr)
    (.op (.publish _ _ _ (.error "rejected")) (halone _) (.op hrollback trivial (.refl _ _)))
  exact ⟨u, u', _, hu, by rw [hc]; rfl, hstep, by rw [hc, hc']; rfl, hw, rfl, rfl,
    fun q hq => Function.update_of_ne hq _ _⟩

end

theorem selects_first : Selects poisoned.rows 1 [walletRow 1] where
  nonneg := by decide
  nodup := by decide
  free := by
    intro x hx
    obtain rfl := List.mem_singleton.1 hx
    exact ⟨List.mem_cons_of_mem _ List.mem_cons_self, rfl, rfl, rfl⟩
  ordered := List.pairwise_singleton ..
  limited := by decide
  oldest := by
    intro r hr _
    refine .inr ⟨rfl, fun x hx => ?_⟩
    obtain rfl := List.mem_singleton.1 hx
    rcases List.mem_pair.1 hr with rfl | rfl
    · decide
    · decide

theorem selects_second : Selects [walletRow 2, publishedRow 1] 10 [walletRow 2] where
  nonneg := by decide
  nodup := by decide
  free := by
    intro x hx
    obtain rfl := List.mem_singleton.1 hx
    exact ⟨List.mem_cons_self, rfl, rfl, rfl⟩
  ordered := List.pairwise_singleton ..
  limited := by decide
  oldest := by
    intro r hr hfree
    rcases List.mem_pair.1 hr with rfl | rfl
    · exact .inl List.mem_cons_self
    · cases hfree.2.1

theorem TickOf.run {k p n : ℕ} {limit : ℤ} {rows rows' : List OutboxRow} {t : OutboxHist}
    {w u u' w' : World machine} (h : TickOf k p n limit rows rows' t w u u' w') :
    Steps machine OutboxProcess (Delivering k) w w' := (h.opens.tail h.selects).trans h.goes

/-- The broker rejects event 2 in a batch with event 1. -/
theorem run_rejected : ∃ w, OutboxRun (Delivering 1) 0 w ∧ w.conf.s = poisoned ∧
    (∀ q, 4 ≤ q → w.proc q = .fresh) ∧
      w.conf.hist = poisonedTick 3 ++ (staging 2 ++ staging 1) := by
  obtain ⟨w, hw, hs, hf, hh⟩ := run_staged 1
  have htick : Performs (Delivering 1) 3 w.conf (relayOnce 10).spawn
      ⟨poisoned, poisonedTick 3 ++ w.conf.hist⟩ (.ret ()) := by
    refine performs_tick hs (fun _ => ⟨trivial, trivial, trivial, trivial⟩) (fun _ => ?_) (fun _ => ?_)
    · intro r hr _ _ _ _ _ _
      rcases List.mem_pair.1 hr with rfl | rfl <;> rfl
    · left
      rw [hh]
      show rejections 2 ((poisonedTick 3).drop 2 ++ (staging 2 ++ staging 1)) < 1
      decide
  refine ⟨_, hw.trans (steps_of_fresh (.relay 10) (hf 3 (by decide)) htick), rfl, fun q hq => ?_,
    congrArg (poisonedTick 3 ++ ·) hh⟩
  exact (Function.update_of_ne (by omega) _ _).trans (hf q (by omega))

/-- Then it rejects it in a batch of its own. Event 1 is acknowledged twice, for one interruption,
and both are published. -/
theorem delivers_rejectedTwice : ∃ w, OutboxRun (Delivering 1) 0 w ∧
    rejections 2 w.conf.hist = 2 ∧ acks 1 w.conf.hist = 2 ∧ interruptions 1 w.conf.hist = 1 ∧
    (∀ id, acks id w.conf.hist ≤ 2) ∧ (∀ r ∈ w.conf.s.rows, 0 < acks r.id w.conf.hist) ∧
      Published w.conf.s.rows 2 := by
  obtain ⟨w₃, hw₃, hs₃, hf₃, hh₃⟩ := run_rejected
  obtain ⟨u₄, u₄', w₄, h₄⟩ : ∃ u u' w', TickOf 1 4 1 1 poisoned.rows [walletRow 2, publishedRow 1]
      (acceptedTick 4 1 1) w₃ u u' w' :=
    steps_accepted hs₃ (hf₃ 4 (by decide)) selects_first (by simp [poisoned, walletRow, newRow]) rfl rfl
  have hw₄ := hw₃.trans h₄.run
  obtain ⟨u₅, u₅', w₅, h₅⟩ : ∃ u u' w', TickOf 1 5 2 10 [walletRow 2, publishedRow 1]
      [walletRow 2, publishedRow 1] (rejectedTick 5 2 10) w₄ u u' w' :=
    steps_rejected h₄.leaves ((h₄.others 5 (by decide)).trans (hf₃ 5 (by decide))) selects_second
      (by simp [publishedRow, walletRow, newRow]) (by decide) rfl
  have hw₅ := hw₄.trans h₅.run
  obtain ⟨u₆, u₆', w₆, h₆⟩ : ∃ u u' w', TickOf 1 6 2 10 [walletRow 2, publishedRow 1]
      [publishedRow 2, publishedRow 1] (acceptedTick 6 2 10) w₅ u u' w' :=
    steps_accepted h₅.leaves
      ((h₅.others 6 (by decide)).trans ((h₄.others 6 (by decide)).trans (hf₃ 6 (by decide))))
      selects_second (by simp [publishedRow, walletRow, newRow]) rfl rfl
  have hw₆ := hw₅.trans h₆.run
  have hh₆ : w₆.conf.hist = acceptedTick 6 2 10 ++ (rejectedTick 5 2 10 ++ (acceptedTick 4 1 1 ++
      (poisonedTick 3 ++ (staging 2 ++ staging 1)))) := by
    rw [h₆.hist_eq, h₅.hist_eq, h₄.hist_eq, hh₃]
  have hint : interruptions 1 w₆.conf.hist = 1 := by
    rw [hh₆]
    decide
  have hend : (relayOnce 10).After (doneBy 6 w₆.conf.hist) (.ret 1) := by
    rw [hh₆]
    have h₁ : (relayOnce 10).After [⟨Op.begin, .ok ()⟩] _ := .step .start _
    have h₂ := h₁.step (.ok [(walletRow 2).pending] : Op.Resp (.selectPending 10))
    have h₃ := h₂.step (.ok () : Except String Unit)
    have h₄ := h₃.step (.ok () : Except DbError Unit)
    have h₅ := h₄.step (.ok () : Except DbError Unit)
    exact h₅.step ()
  have hall := (delivers 1).returned 0 u₆ u₆' w₆ 6 10 _ 10 1 (hw₅.trans h₆.opens) h₆.selects
    h₆.selected h₆.goes hend
  refine ⟨w₆, hw₆, by rw [hh₆]; decide, by rw [hh₆]; decide, hint, fun id => ?_, fun r hr => ?_, ?_⟩
  · have h := (delivers 1).unrepeated 0 w₆ hw₆ id
    rwa [hint] at h
  · refine (delivers 1).acknowledged 0 w₆ hw₆ r hr ?_
    rw [h₆.leaves] at hr
    rcases List.mem_pair.1 hr with rfl | rfl <;> rfl
  · have hmem : walletRow 2 ∈ u₆.conf.s.rows := h₆.rows_eq ▸ List.mem_cons_self
    exact (hall _ hmem ⟨rfl, rfl, rfl⟩).resolve_right fun h => absurd h.1 (by decide)

/-! One event that the broker keeps rejecting has another republished on every tick. -/

theorem run_poisoned (k n : ℕ) : ∃ w, OutboxRun (anyStep _) 0 w ∧ w.conf.s = poisoned ∧
    (∀ q, n + 3 ≤ q → w.proc q = .fresh) ∧ acks 1 w.conf.hist = n ∧ rejections 2 w.conf.hist = n ∧
      interruptions k w.conf.hist = min n k := by
  induction n with
  | zero =>
    obtain ⟨w, hw, hs, hf, hh⟩ := run_staged k
    refine ⟨w, hw.imp fun _ _ _ => trivial, hs, hf, ?_, ?_, ?_⟩
    · rw [hh]
      rfl
    · rw [hh]
      rfl
    · rw [hh, Nat.zero_min]
      rfl
  | succ n ih =>
    obtain ⟨w, hw, hs, hf, ha, hr, hi⟩ := ih
    have htick : Performs (anyStep _) (n + 3) w.conf _ _ _ := performs_tick hs
      (fun _ => ⟨trivial, trivial, trivial, trivial⟩) (fun _ => trivial) (fun _ => trivial)
    have hsteps := steps_of_fresh (.relay 10) (hf (n + 3) (by omega)) htick
    refine ⟨_, hw.trans hsteps, rfl, fun q hq => ?_, ?_, ?_, ?_⟩
    · exact (Function.update_of_ne (by omega) _ _).trans (hf q (by omega))
    · rw [acks_poisonedTick, ha]
    · rw [rejections_poisonedTick, hr]
    · rw [interruptions_poisonedTick, hr, hi]
      by_cases hk : n < k
      · simp [hk]
        omega
      · simp [hk]
        omega

/-- However often an event may fail before it counts as one that keeps failing, there is a
run in which another is published again because of it. -/
theorem not_delivers : ¬ ∃ k, Delivers k (anyStep _) := by
  rintro ⟨k, hall⟩
  obtain ⟨w, hw, -, -, ha, -, hi⟩ := run_poisoned k (k + 2)
  have := hall.unrepeated 0 w hw 1
  rw [ha, hi] at this
  omega

end SatsPay.Outbox
