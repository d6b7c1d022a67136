import SatsPay.RateLimits

/-!
# What the rate limits keep

However requests come to the replicas, the windows of a key in the shared table begin more than
a window apart, and those of a replica a minute at least: its counters are pruned by the measure
of whatever request comes by.
-/

namespace SatsPay

open Hit

/-! ## Keys -/

theorem RateClass.minute_le (cls : RateClass) : pruneEvery ≤ cls.limit.window := by
  cases cls <;> decide

theorem RateClass.name_inj {cls cls' : RateClass} (h : cls.name = cls'.name) : cls = cls' := by
  cases cls <;> cases cls' <;> simp_all [name]

theorem RateClass.takeWhile_key (cls : RateClass) (ip : String) :
    (cls.key ip).toList.takeWhile (· != '|') = cls.name.toList := by
  have hall : cls.name.toList.all (· != '|') = true := by
    cases cls <;> simp [name]
  have hname := List.all_eq_true.1 hall
  unfold RateClass.key
  rw [String.toList_append, String.toList_append, List.append_assoc,
    List.takeWhile_append_of_pos hname]
  simp

/-- Keys of different classes are different, and of a class those of different clients. -/
theorem RateClass.key_inj {cls cls' : RateClass} {ip ip' : String}
    (h : cls.key ip = cls'.key ip') : cls = cls' ∧ ip = ip' := by
  have hname : cls.name.toList = cls'.name.toList := by
    rw [← takeWhile_key cls ip, h, takeWhile_key]
  obtain rfl := RateClass.name_inj (String.toList_inj.1 hname)
  refine ⟨rfl, ?_⟩
  have hlist := congrArg String.toList h
  simp only [RateClass.key, String.toList_append, List.append_cancel_left_eq] at hlist
  exact String.toList_inj.1 hlist

/-! ## Windows -/

theorem lookup_retain (p : ℕ → Bool) (ws : Windows) (key : String) :
    (ws.retain p).lookup key = (ws.lookup key).filter fun e => p e.1 := by
  apply Option.ext
  intro e
  have hmem : e ∈ (ws.retain p).lookup key ↔ e ∈ ws.lookup key ∧ p e.1 = true := by
    rw [AList.mem_lookup_iff, AList.mem_lookup_iff]
    exact List.mem_filter
  rw [← Option.mem_def, hmem, Option.filter_eq_some_iff, Option.mem_def]

theorem keys_retain (p : ℕ → Bool) (ws : Windows) : (ws.retain p).keys ⊆ ws.keys :=
  (List.filter_sublist.map Sigma.fst).subset

def newest (hits : List Hit) : Option (ℕ × ℕ) := hits.head?.map fun h => (h.start, h.nth)

theorem windowed_shared {hits : List Hit} {window now : ℕ} {e : ℕ × ℕ}
    (hw : Windowed (window + 1) hits) (ht : ∀ h ∈ hits, h.time ≤ now)
    (he : countShared (newest hits) now window = some e) :
    Windowed (window + 1) (⟨now, e.1, e.2⟩ :: hits) ∧ now ≤ e.1 + window := by
  cases hits with
  | nil =>
    cases he
    exact ⟨.first now, Nat.le_add_right _ _⟩
  | cons h hits =>
    have hh := ht h List.mem_cons_self
    simp only [newest, List.head?_cons, Option.map_some, countShared] at he
    split at he
    · rename_i hlt
      cases he
      exact ⟨.next hw (.inr ⟨hlt, rfl, rfl⟩) hh, Nat.le_add_right _ _⟩
    · rename_i hle
      split at he
      · cases he
        exact ⟨.next hw (.inl ⟨rfl, rfl⟩) hh, not_lt.1 hle⟩
      · cases he

/-- The window of a key that is not there is over for a minute. -/
def Stands (old : Option (ℕ × ℕ)) (hits : List Hit) (now : ℕ) : Prop :=
  old = newest hits ∨ (old = none ∧ ∀ h ∈ hits.head?, h.start + pruneEvery ≤ now)

theorem windowed_local {hits : List Hit} {window now : ℕ} {old : Option (ℕ × ℕ)}
    (hw : Windowed pruneEvery hits) (ht : ∀ h ∈ hits, h.time ≤ now) (hold : Stands old hits now)
    (hmin : pruneEvery ≤ window) (hshort : hits.length + 1 < 2 ^ 32) :
    Windowed pruneEvery (⟨now, (countLocal old now window).1, (countLocal old now window).2⟩ :: hits) ∧
      now < (countLocal old now window).1 + window := by
  have hpos : 0 < window := lt_of_lt_of_le (by decide) hmin
  cases hits with
  | nil =>
    have hnone : old = none := by
      rcases hold with h | h
      · exact h
      · exact h.1
    subst hnone
    exact ⟨.first now, Nat.lt_add_of_pos_right hpos⟩
  | cons h hits =>
    have hh := ht h List.mem_cons_self
    rcases hold with rfl | ⟨rfl, hover⟩
    · simp only [newest, List.head?_cons, Option.map_some, countLocal]
      split
      · rename_i hle
        refine ⟨.next hw (.inr ⟨?_, rfl, rfl⟩) hh, Nat.lt_add_of_pos_right hpos⟩
        have hstart := hw.start_le.1
        show h.start + pruneEvery ≤ now
        omega
      · rename_i hlt
        have hnth := hw.nth_le.trans (List.length_filter_le _ _)
        rw [Nat.mod_eq_of_lt (by omega)]
        refine ⟨.next hw (.inl ⟨rfl, rfl⟩) hh, ?_⟩
        have hstart := hw.start_le.1
        show now < h.start + window
        omega
    · exact ⟨.next hw (.inr ⟨hover h rfl, rfl, rfl⟩) hh, Nat.lt_add_of_pos_right hpos⟩

/-! ## Runs -/

def hitsOf (s : CountedIn) (key : String) (log : List Counted) : List Hit :=
  (log.filter fun x => x.countedIn = s ∧ x.arrival.key = key).map (·.hit)

theorem hitsOf_cons (s : CountedIn) (key : String) (x : Counted) (log : List Counted) :
    hitsOf s key (x :: log) = if x.countedIn = s ∧ x.arrival.key = key then
      x.hit :: hitsOf s key log else hitsOf s key log := by
  unfold hitsOf
  rw [List.filter_cons]
  by_cases h : x.countedIn = s ∧ x.arrival.key = key
  · rw [if_pos (decide_eq_true h), if_pos h, List.map_cons]
  · rw [if_neg (by simpa using h), if_neg h]

/-- Clocks do not go back, nor is there room for too many keys, or hits. -/
structure Paced (started : ℕ → ℕ) (rs : List Arrival) : Prop where
  instants : rs.Pairwise fun later earlier =>
    later.replica = earlier.replica → earlier.instant ≤ later.instant
  nows : rs.Pairwise fun later earlier => earlier.now ≤ later.now
  begun : ∀ r ∈ rs, started r.replica ≤ r.instant
  short : rs.length < 2 ^ 31
  few : (rs.map Arrival.key).toFinset.card ≤ maxTrackedKeys

section
variable {started : ℕ → ℕ} {r : Arrival} {rs : List Arrival}

theorem Paced.tail (h : Paced started (r :: rs)) : Paced started rs where
  instants := (List.pairwise_cons.1 h.instants).2
  nows := (List.pairwise_cons.1 h.nows).2
  begun s hs := h.begun s (List.mem_cons_of_mem _ hs)
  short := by
    have hshort := h.short
    rw [List.length_cons] at hshort
    omega
  few := by
    refine (Finset.card_le_card ?_).trans h.few
    rw [List.map_cons, List.toFinset_cons]
    exact Finset.subset_insert _ _

structure Counted.Sound (x : Counted) : Prop where
  clock : x.hit.time = x.clock
  within : x.clock ≤ x.hit.start + x.arrival.rateClass.limit.window
  verdict : x.accepted ↔ x.hit.nth ≤ x.arrival.rateClass.limit.max
  retry : ∀ n, x.verdict = .error n →
    x.hit.start + x.arrival.rateClass.limit.window ≤ x.clock + fromSecs (n + 1)
  replica : ∀ i, x.countedIn = .replica i → i = x.arrival.replica

theorem Limit.isOk_verdict (limit : Limit) (n retry : ℕ) :
    (limit.verdict n retry).isOk ↔ n ≤ limit.max := by
  unfold Limit.verdict
  split
  · rename_i h
    simp [Except.isOk, Except.toBool, h]
  · rename_i h
    simp [Except.isOk, Except.toBool, not_lt.1 h]

theorem Limit.verdict_error {limit : Limit} {n retry m : ℕ}
    (h : limit.verdict n retry = .error m) : m = retry := by
  unfold Limit.verdict at h
  split at h
  · exact (Except.error.inj h).symm
  · cases h

/-- What is left is less than a second more than what its seconds are. -/
theorem le_fromSecs (left : ℕ) : left ≤ fromSecs (retryAfter left + 1) := by
  unfold retryAfter fromSecs
  omega

structure SharedInv (buckets : Windows) (log : List Counted) : Prop where
  newest : ∀ key, buckets.lookup key = newest (hitsOf .shared key log)
  windowed : ∀ cls ip, Windowed (RateClass.limit cls).window.succ (hitsOf .shared (cls.key ip) log)

structure ReplicaInv (i : ℕ) (c : Counters) (log : List Counted) : Prop where
  stands : ∀ key, Stands (c.hits.lookup key) (hitsOf (.replica i) key log) c.lastPrune
  windowed : ∀ key, Windowed pruneEvery (hitsOf (.replica i) key log)
  tracked : c.hits.keys ⊆ log.map fun x => x.arrival.key

/-- Where a request is counted in the shared table. -/
theorem layer_shared {st : Limiter} (h : (layer r st).1.countedIn = .shared) :
    ∃ e, countShared (st.buckets.lookup r.key) r.now r.rateClass.limit.window = some e ∧
      (layer r st).1.arrival = r ∧ (layer r st).1.hit = ⟨r.now, e.1, e.2⟩ ∧
      (layer r st).1.verdict =
        r.rateClass.limit.verdict e.2 (retryAfter r.rateClass.limit.window) ∧
      (layer r st).2 = { st with buckets := st.buckets.insert r.key e } := by
  unfold layer at h ⊢
  split at h
  · rename_i hc
    rw [if_pos hc]
    unfold checkShared at h ⊢
    cases he : countShared (st.buckets.lookup r.key) r.now r.rateClass.limit.window with
    | none =>
      rw [he] at h
      cases h
    | some e => exact ⟨e, rfl, rfl, rfl, rfl, rfl⟩
  · cases h

theorem layer_replica {st : Limiter} {i : ℕ} (h : (layer r st).1.countedIn = .replica i) :
    layer r st = countInReplica r st ∧ i = r.replica := by
  unfold layer at h ⊢
  split at h
  · rename_i hc
    rw [if_pos hc]
    unfold checkShared at h ⊢
    cases he : countShared (st.buckets.lookup r.key) r.now r.rateClass.limit.window with
    | none =>
      rw [he] at h
      cases h
      exact ⟨rfl, rfl⟩
    | some e =>
      rw [he] at h
      cases h
  · rename_i hc
    rw [if_neg hc]
    cases h
    exact ⟨rfl, rfl⟩

theorem mem_hitsOf {s : CountedIn} {key : String} {log : List Counted} {h : Hit}
    (hh : h ∈ hitsOf s key log) : ∃ x ∈ log, x.countedIn = s ∧ x.arrival.key = key ∧ x.hit = h := by
  obtain ⟨x, hx, rfl⟩ := List.mem_map.1 hh
  obtain ⟨hx, hc⟩ := List.mem_filter.1 hx
  obtain ⟨hs, hk⟩ := of_decide_eq_true hc
  exact ⟨x, hx, hs, hk, rfl⟩

theorem sharedInv_shared {buckets : Windows} {log : List Counted} {x : Counted} {e : ℕ × ℕ}
    (hi : SharedInv buckets log) (hr : x.arrival = r) (hx : x.countedIn = .shared)
    (ht : ∀ h ∈ hitsOf .shared r.key log, h.time ≤ r.now) (hhit : x.hit = ⟨r.now, e.1, e.2⟩)
    (he : countShared (buckets.lookup r.key) r.now r.rateClass.limit.window = some e) :
    SharedInv (buckets.insert r.key e) (x :: log) ∧
      e.1 ≤ r.now ∧ r.now ≤ e.1 + r.rateClass.limit.window := by
  subst hr
  rw [hi.newest] at he
  have hkey := windowed_shared (hi.windowed x.arrival.rateClass _) ht he
  refine ⟨⟨fun key => ?_, fun cls ip => ?_⟩, hkey.1.start_le.1, hkey.2⟩
  · rw [hitsOf_cons]
    by_cases hk : x.arrival.key = key
    · subst hk
      rw [if_pos ⟨hx, rfl⟩, AList.lookup_insert, hhit]
      rfl
    · rw [if_neg fun h => hk h.2, AList.lookup_insert_ne (Ne.symm hk)]
      exact hi.newest key
  · rw [hitsOf_cons]
    by_cases hk : x.arrival.key = cls.key ip
    · obtain ⟨rfl, rfl⟩ := RateClass.key_inj hk
      rw [if_pos ⟨hx, rfl⟩, hhit]
      exact hkey.1
    · rw [if_neg fun h => hk h.2]
      exact hi.windowed cls ip

theorem hitsOf_other {s : CountedIn} {x : Counted} (hx : x.countedIn ≠ s) (key : String)
    (log : List Counted) : hitsOf s key (x :: log) = hitsOf s key log := by
  rw [hitsOf_cons, if_neg fun h => hx h.1]

theorem sharedInv_other {buckets : Windows} {log : List Counted} {x : Counted}
    (hi : SharedInv buckets log) (hx : x.countedIn ≠ .shared) : SharedInv buckets (x :: log) where
  newest key := by rw [hitsOf_other hx]; exact hi.newest key
  windowed cls ip := by rw [hitsOf_other hx]; exact hi.windowed cls ip

theorem replicaInv_other {i : ℕ} {c : Counters} {log : List Counted} {x : Counted}
    (hi : ReplicaInv i c log) (hx : x.countedIn ≠ .replica i) : ReplicaInv i c (x :: log) where
  stands key := by rw [hitsOf_other hx]; exact hi.stands key
  windowed key := by rw [hitsOf_other hx]; exact hi.windowed key
  tracked := by
    rw [List.map_cons]
    exact List.Subset.trans hi.tracked (List.subset_cons_self _ _)

theorem Stands.later {old : Option (ℕ × ℕ)} {hits : List Hit} {now now' : ℕ} (h : Stands old hits now)
    (hn : now ≤ now') : Stands old hits now' :=
  h.imp_right fun h => ⟨h.1, fun x hx => (h.2 x hx).trans hn⟩

/-- What is pruned has been over for a minute. -/
theorem replicaInv_prune {i now window : ℕ} {c : Counters} {log : List Counted}
    (hi : ReplicaInv i c log) (hn : c.lastPrune ≤ now) (hw : pruneEvery ≤ window) :
    ReplicaInv i (c.prune now window) log ∧
      ((c.prune now window).lastPrune = c.lastPrune ∨ (c.prune now window).lastPrune = now) := by
  unfold Counters.prune
  split
  · refine ⟨⟨fun key => ?_, hi.windowed, List.Subset.trans (keys_retain _ _) hi.tracked⟩, .inr rfl⟩
    rw [lookup_retain]
    rcases (hi.stands key).later hn with h | ⟨h, hover⟩
    · rw [h]
      cases hh : hitsOf (.replica i) key log with
      | nil => exact .inl rfl
      | cons x hits =>
        by_cases hk : now - x.start < window
        · exact .inl (Option.filter_some_pos (by simpa using hk))
        · refine .inr ⟨Option.filter_some_neg (by simpa using hk), ?_⟩
          intro y hy
          cases hy
          have hw := hi.windowed key
          rw [hh] at hw
          have hpos : 0 < pruneEvery := by decide
          show x.start + pruneEvery ≤ now
          omega
    · exact .inr ⟨by rw [h]; rfl, hover⟩
  · exact ⟨hi, .inl rfl⟩

theorem bound_eq {i : ℕ} {c : Counters} {log : List Counted} (hi : ReplicaInv i c log)
    (hfew : (log.map fun x => x.arrival.key).toFinset.card ≤ maxTrackedKeys) : c.bound = c := by
  unfold Counters.bound
  refine if_neg (not_lt.2 ?_)
  rw [← List.toFinset_card_of_nodup c.hits.keys_nodup]
  refine (Finset.card_le_card fun key hk => ?_).trans hfew
  exact List.mem_toFinset.2 (hi.tracked (List.mem_toFinset.1 hk))

theorem replicaInv_local {c : Counters} {log : List Counted} {x : Counted} {e : ℕ × ℕ}
    (hi : ReplicaInv r.replica c log) (hr : x.arrival = r)
    (hx : x.countedIn = .replica r.replica) (hhit : x.hit = ⟨r.instant, e.1, e.2⟩)
    (hn : c.lastPrune ≤ r.instant)
    (ht : ∀ h ∈ hitsOf (.replica r.replica) r.key log, h.time ≤ r.instant)
    (hshort : log.length + 1 < 2 ^ 32)
    (he : countLocal (c.hits.lookup r.key) r.instant r.rateClass.limit.window = e) :
    ReplicaInv r.replica { c with hits := c.hits.insert r.key e } (x :: log) ∧
      e.1 ≤ r.instant ∧ r.instant < e.1 + r.rateClass.limit.window := by
  subst he hr
  have hlen : (hitsOf (.replica x.arrival.replica) x.arrival.key log).length ≤ log.length := by
    unfold hitsOf
    rw [List.length_map]
    exact List.length_filter_le _ _
  have hkey := windowed_local (hi.windowed x.arrival.key) ht ((hi.stands _).later hn)
    x.arrival.rateClass.minute_le (by omega)
  refine ⟨⟨fun key => ?_, fun key => ?_, ?_⟩, hkey.1.start_le.1, hkey.2⟩
  · rw [hitsOf_cons]
    by_cases hk : x.arrival.key = key
    · subst hk
      rw [if_pos ⟨hx, rfl⟩, AList.lookup_insert, hhit]
      exact .inl rfl
    · rw [if_neg fun h => hk h.2, AList.lookup_insert_ne (Ne.symm hk)]
      exact hi.stands key
  · rw [hitsOf_cons]
    by_cases hk : x.arrival.key = key
    · subst hk
      rw [if_pos ⟨hx, rfl⟩, hhit]
      exact hkey.1
    · rw [if_neg fun h => hk h.2]
      exact hi.windowed key
  · intro key hk
    rcases (AList.mem_insert _).1 (AList.mem_keys.2 hk) with rfl | hk
    · exact List.mem_cons_self
    · exact List.mem_cons_of_mem _ (hi.tracked (AList.mem_keys.1 hk))

def found (r : Arrival) (st : Limiter) : Counters :=
  ((st.counters r.replica).prune r.instant r.rateClass.limit.window).bound

theorem countInReplica_spec (r : Arrival) (st : Limiter) :
    ∃ e : ℕ × ℕ, countLocal ((found r st).hits.lookup r.key) r.instant r.rateClass.limit.window = e ∧
      (countInReplica r st).1.arrival = r ∧
      (countInReplica r st).1.countedIn = .replica r.replica ∧
      (countInReplica r st).1.hit = ⟨r.instant, e.1, e.2⟩ ∧
      (countInReplica r st).1.verdict = r.rateClass.limit.verdict e.2
        (retryAfter (r.rateClass.limit.window - (r.instant - e.1))) ∧
      (countInReplica r st).2 = ⟨Function.update st.counters r.replica
        ⟨(found r st).hits.insert r.key e, (found r st).lastPrune⟩, st.buckets⟩ :=
  ⟨countLocal ((found r st).hits.lookup r.key) r.instant r.rateClass.limit.window, rfl, rfl, rfl, rfl,
    rfl, rfl⟩

structure LimiterInv (started : ℕ → ℕ) (rs : List Arrival) : Prop where
  arrivals : (servedLog started rs).map (·.arrival) = rs
  sound : ∀ x ∈ servedLog started rs, x.Sound
  shared : SharedInv (limiterAfter started rs).buckets (servedLog started rs)
  replica : ∀ i, ReplicaInv i ((limiterAfter started rs).counters i) (servedLog started rs)
  pruned : ∀ i, ((limiterAfter started rs).counters i).lastPrune = started i ∨
    ∃ r ∈ rs, r.replica = i ∧ ((limiterAfter started rs).counters i).lastPrune = r.instant

theorem limiterInv_nil : LimiterInv started [] where
  arrivals := rfl
  sound _ hx := absurd hx List.not_mem_nil
  shared := ⟨fun _ => rfl, fun _ _ => .nil⟩
  replica _ := ⟨fun _ => .inl rfl, fun _ => .nil, List.nil_subset _⟩
  pruned _ := .inl rfl

/-- What a hit is the hit of. -/
theorem LimiterInv.of_hit (hi : LimiterInv started rs) {s : CountedIn} {key : String} {h : Hit}
    (hh : h ∈ hitsOf s key (servedLog started rs)) :
    ∃ x ∈ servedLog started rs, x.Sound ∧ x.arrival ∈ rs ∧ x.countedIn = s ∧ x.hit = h := by
  obtain ⟨x, hx, hs, -, he⟩ := mem_hitsOf hh
  have hm : x.arrival ∈ (servedLog started rs).map (·.arrival) := List.mem_map_of_mem hx
  rw [hi.arrivals] at hm
  exact ⟨x, hx, hi.sound x hx, hm, hs, he⟩

theorem limiterInv_shared (hp : Paced started (r :: rs)) (hi : LimiterInv started rs)
    (hc : (layer r (limiterAfter started rs)).1.countedIn = .shared) :
    LimiterInv started (r :: rs) := by
  obtain ⟨e, he, harr, hhit, hv, hst⟩ := layer_shared hc
  have hafter : limiterAfter started (r :: rs) =
    { limiterAfter started rs with buckets := (limiterAfter started rs).buckets.insert r.key e } := hst
  have ht : ∀ h ∈ hitsOf .shared r.key (servedLog started rs), h.time ≤ r.now := by
    intro h hh
    obtain ⟨x, -, hx, hm, hs, rfl⟩ := hi.of_hit hh
    rw [hx.clock, Counted.clock, hs]
    exact (List.pairwise_cons.1 hp.nows).1 _ hm
  obtain ⟨hnext, hstart, hwithin⟩ := sharedInv_shared hi.shared harr hc ht hhit he
  have hsound : (layer r (limiterAfter started rs)).1.Sound := by
    have hclock : (layer r (limiterAfter started rs)).1.clock = r.now := by
      rw [Counted.clock, hc, harr]
    refine ⟨?_, ?_, ?_, fun n hn => ?_, fun i h => ?_⟩
    · rw [hclock, hhit]
    · rw [hclock, hhit, harr]
      exact hwithin
    · rw [Counted.accepted, hv, hhit, harr]
      exact Limit.isOk_verdict _ _ _
    · rw [hv] at hn
      rw [hclock, hhit, harr, Limit.verdict_error hn]
      have hleft := le_fromSecs r.rateClass.limit.window
      show e.1 + _ ≤ _
      omega
    · rw [hc] at h
      cases h
  exact
    { arrivals := congrArg₂ List.cons harr hi.arrivals
      sound := List.forall_mem_cons.2 ⟨hsound, hi.sound⟩
      shared := by rw [hafter]; exact hnext
      replica := fun i => by
        rw [hafter]
        exact replicaInv_other (hi.replica i) (by rw [hc]; simp)
      pruned := fun i => by
        rw [hafter]
        exact (hi.pruned i).imp_right fun ⟨s, hs, h⟩ => ⟨s, List.mem_cons_of_mem _ hs, h⟩ }

theorem limiterInv_replica (hp : Paced started (r :: rs)) (hi : LimiterInv started rs) {i : ℕ}
    (hc : (layer r (limiterAfter started rs)).1.countedIn = .replica i) :
    LimiterInv started (r :: rs) := by
  obtain ⟨hl, rfl⟩ := layer_replica hc
  obtain ⟨e, he, harr, -, hhit, hv, hst⟩ := countInReplica_spec r (limiterAfter started rs)
  rw [← hl] at harr hhit hv hst
  have hw := r.rateClass.minute_le
  -- the replica's clock does not go back
  have hn : ((limiterAfter started rs).counters r.replica).lastPrune ≤ r.instant := by
    rcases hi.pruned r.replica with h | ⟨s, hs, hr, h⟩
    · rw [h]
      exact hp.begun r List.mem_cons_self
    · rw [h]
      exact (List.pairwise_cons.1 hp.instants).1 s hs hr.symm
  have ht : ∀ h ∈ hitsOf (.replica r.replica) r.key (servedLog started rs), h.time ≤ r.instant := by
    intro h hh
    obtain ⟨x, -, hx, hm, hs, rfl⟩ := hi.of_hit hh
    rw [hx.clock, Counted.clock, hs]
    exact (List.pairwise_cons.1 hp.instants).1 _ hm (hx.replica _ hs)
  obtain ⟨hpruned, hlast⟩ := replicaInv_prune (hi.replica r.replica) hn hw
  have hkeys : (servedLog started rs).map (fun x => x.arrival.key) = rs.map Arrival.key := by
    have hmap := congrArg (List.map Arrival.key) hi.arrivals
    rwa [List.map_map] at hmap
  have hfew : ((servedLog started rs).map fun x => x.arrival.key).toFinset.card ≤ maxTrackedKeys := by
    rw [hkeys]
    exact hp.tail.few
  have hlen : (servedLog started rs).length = rs.length := by
    rw [← List.length_map (f := (·.arrival)), hi.arrivals]
  have hfound : found r (limiterAfter started rs) =
      ((limiterAfter started rs).counters r.replica).prune r.instant r.rateClass.limit.window :=
    bound_eq hpruned hfew
  rw [← hfound] at hpruned hlast
  have hshort := hp.tail.short
  obtain ⟨hnext, hstart, hwithin⟩ := replicaInv_local hpruned harr hc hhit
    (by rcases hlast with h | h <;> omega) ht (by omega) he
  have hsound : (layer r (limiterAfter started rs)).1.Sound := by
    have hclock : (layer r (limiterAfter started rs)).1.clock = r.instant := by
      rw [Counted.clock, hc, harr]
    refine ⟨?_, ?_, ?_, fun n hn => ?_, fun i h => ?_⟩
    · rw [hclock, hhit]
    · rw [hclock, hhit, harr]
      exact hwithin.le
    · rw [Counted.accepted, hv, hhit, harr]
      exact Limit.isOk_verdict _ _ _
    · rw [hv] at hn
      rw [hclock, hhit, harr, Limit.verdict_error hn]
      have hleft := le_fromSecs (r.rateClass.limit.window - (r.instant - e.1))
      show e.1 + _ ≤ _
      omega
    · rw [hc] at h
      cases h
      rw [harr]
  exact
    { arrivals := congrArg₂ List.cons harr hi.arrivals
      sound := List.forall_mem_cons.2 ⟨hsound, hi.sound⟩
      shared := by
        show SharedInv (layer r (limiterAfter started rs)).2.buckets _
        rw [hst]
        exact sharedInv_other hi.shared (by rw [hc]; simp)
      replica := fun i => by
        show ReplicaInv i ((layer r (limiterAfter started rs)).2.counters i) _
        rw [hst]
        by_cases h : i = r.replica
        · subst h
          simp only [Function.update_self]
          exact hnext
        · simp only [Function.update_of_ne h]
          exact replicaInv_other (hi.replica i) (by rw [hc]; simpa using Ne.symm h)
      pruned := fun i => by
        show ((layer r (limiterAfter started rs)).2.counters i).lastPrune = _ ∨
          ∃ s ∈ r :: rs, _ ∧ ((layer r (limiterAfter started rs)).2.counters i).lastPrune = _
        rw [hst]
        by_cases h : i = r.replica
        · subst h
          simp only [Function.update_self]
          rcases hlast with h | h
          · rw [h]
            exact (hi.pruned r.replica).imp_right fun ⟨s, hs, h⟩ => ⟨s, List.mem_cons_of_mem _ hs, h⟩
          · exact .inr ⟨r, List.mem_cons_self, rfl, h⟩
        · simp only [Function.update_of_ne h]
          exact (hi.pruned i).imp_right fun ⟨s, hs, h⟩ => ⟨s, List.mem_cons_of_mem _ hs, h⟩ }

theorem limiterInv : ∀ {rs : List Arrival}, Paced started rs → LimiterInv started rs
  | [], _ => limiterInv_nil
  | r :: rs, hp => by
    have hi := limiterInv hp.tail
    cases hc : (layer r (limiterAfter started rs)).1.countedIn with
    | shared => exact limiterInv_shared hp hi hc
    | replica i => exact limiterInv_replica hp hi hc

end

/-! ## The law -/

def acceptedOf (s : CountedIn) (cls : RateClass) (ip : String) (log : List Counted) :
    List Counted :=
  log.filter fun x => x.accepted ∧ x.countedIn = s ∧ x.arrival.rateClass = cls ∧
    x.arrival.client = ip

structure RateLaw (started : ℕ → ℕ) (rs : List Arrival) : Prop where
  /-- Of a client the replicas accept twice the limit at most in a window of time, together. -/
  shared : ∀ cls ip a, ((acceptedOf .shared cls ip (servedLog started rs)).filter fun x =>
    decide (a ≤ x.clock ∧ x.clock ≤ a + cls.limit.window)).length ≤ 2 * cls.limit.max
  /-- By its own counters a replica accepts the limit once for each minute, and once more. -/
  replica : ∀ i cls ip a k, ((acceptedOf (.replica i) cls ip (servedLog started rs)).filter fun x =>
    decide (a ≤ x.clock ∧ x.clock < a + k * pruneEvery)).length ≤ (k + 1) * cls.limit.max
  /-- Nobody is refused who has not come as often as the limit within the window. -/
  refused : ∀ (newer : List Counted) (x : Counted) (older : List Counted),
    servedLog started rs = newer ++ x :: older → ¬ x.accepted →
    x.arrival.rateClass.limit.max ≤ (older.filter fun y =>
      decide (y.countedIn = x.countedIn ∧ y.arrival.key = x.arrival.key ∧
        x.clock ≤ y.clock + x.arrival.rateClass.limit.window)).length
  /-- Who waits for as long as is asked, and a second, comes after the window. -/
  retry : ∀ x ∈ servedLog started rs, ∀ n, x.verdict = .error n →
    x.hit.start + x.arrival.rateClass.limit.window ≤ x.clock + fromSecs (n + 1)
  /-- A class that is shared is counted by a replica only where the store does not answer. -/
  placed : ∀ x ∈ servedLog started rs, x.countedIn = .shared ↔
    x.arrival.rateClass.usesSharedStore ∧ x.arrival.storeAnswers

theorem key_eq_iff {r : Arrival} {cls : RateClass} {ip : String} :
    r.key = cls.key ip ↔ r.rateClass = cls ∧ r.client = ip := by
  constructor
  · exact fun h => RateClass.key_inj h
  · rintro ⟨rfl, rfl⟩
    rfl

/-- The accepted requests are the hits within the limit. -/
theorem length_acceptedOf {log : List Counted} (hlog : ∀ x ∈ log, x.Sound) (s : CountedIn)
    (cls : RateClass) (ip : String) (p : ℕ → Prop) [DecidablePred p] :
    ((acceptedOf s cls ip log).filter fun x => decide (p x.clock)).length =
      ((hitsOf s (cls.key ip) log).filter fun h =>
        decide (p h.time ∧ h.nth ≤ cls.limit.max)).length := by
  unfold acceptedOf hitsOf
  rw [List.filter_map, List.length_map, List.filter_filter, List.filter_filter]
  refine congrArg List.length (List.filter_congr fun x hx => ?_)
  have hs := hlog x hx
  rw [Bool.eq_iff_iff]
  simp only [Function.comp, Bool.and_eq_true, decide_eq_true_eq, key_eq_iff, hs.clock]
  constructor
  · rintro ⟨hp, ha, rfl, rfl, rfl⟩
    exact ⟨⟨hp, hs.verdict.1 ha⟩, rfl, rfl, rfl⟩
  · rintro ⟨⟨hp, hn⟩, rfl, rfl, rfl⟩
    exact ⟨hp, hs.verdict.2 hn, rfl, rfl, rfl⟩

section
variable {started : ℕ → ℕ} {r : Arrival} {rs : List Arrival}

theorem hitsOf_append (s : CountedIn) (key : String) (l l' : List Counted) :
    hitsOf s key (l ++ l') = hitsOf s key l ++ hitsOf s key l' := by
  simp [hitsOf]

theorem Windowed.of_append {gap : ℕ} {l l' : List Hit} (h : Windowed gap (l ++ l')) :
    Windowed gap l' := by
  induction l with
  | nil => exact h
  | cons x l ih => exact ih h.tail

theorem LimiterInv.windowed (hi : LimiterInv started rs) (x : Counted) :
    ∃ gap, Windowed gap (hitsOf x.countedIn x.arrival.key (servedLog started rs)) := by
  cases x.countedIn with
  | shared => exact ⟨_, hi.shared.windowed x.arrival.rateClass x.arrival.client⟩
  | replica i => exact ⟨_, (hi.replica i).windowed _⟩

theorem LimiterInv.refused (hi : LimiterInv started rs) {newer older : List Counted} {x : Counted}
    (hlog : servedLog started rs = newer ++ x :: older) (hx : ¬ x.accepted) :
    x.arrival.rateClass.limit.max ≤ (older.filter fun y =>
      decide (y.countedIn = x.countedIn ∧ y.arrival.key = x.arrival.key ∧
        x.clock ≤ y.clock + x.arrival.rateClass.limit.window)).length := by
  have hsound : ∀ y ∈ x :: older, y.Sound := fun y hy =>
    hi.sound y (by rw [hlog]; exact List.mem_append_right _ hy)
  have hs := hsound x List.mem_cons_self
  obtain ⟨gap, hw⟩ := hi.windowed x
  rw [hlog, hitsOf_append] at hw
  replace hw := Windowed.of_append hw
  rw [hitsOf_cons, if_pos ⟨rfl, rfl⟩] at hw
  have hnth := hw.nth_le
  have hover := not_le.1 fun h => hx (hs.verdict.2 h)
  rw [List.filter_cons_of_pos (by simpa using hw.start_le.1), List.length_cons] at hnth
  refine (Nat.le_of_lt_succ (lt_of_lt_of_le hover hnth)).trans ?_
  unfold hitsOf
  rw [List.filter_map, List.length_map, List.filter_filter]
  rw [← List.countP_eq_length_filter, ← List.countP_eq_length_filter]
  refine List.countP_mono_left fun y hy h => ?_
  simp only [Function.comp, Bool.and_eq_true, decide_eq_true_eq] at h ⊢
  obtain ⟨hstart, hin, hkey⟩ := h
  have hwithin := hs.within
  rw [(hsound y (List.mem_cons_of_mem _ hy)).clock] at hstart
  exact ⟨hin, hkey, by omega⟩

theorem Hit.Windowed.newest_le {gap : ℕ} {hits : List Hit} (hw : Windowed gap hits) {e : ℕ × ℕ}
    (he : newest hits = some e) : e.2 ≤ hits.length := by
  cases hits with
  | nil => cases he
  | cons h hits =>
    cases he
    exact hw.nth_le.trans (List.length_filter_le _ _)

/-- The count of the shared table does not run over. -/
theorem countShared_isSome (hp : Paced started (r :: rs)) (hi : LimiterInv started rs) :
    (countShared ((limiterAfter started rs).buckets.lookup r.key) r.now
      r.rateClass.limit.window).isSome := by
  rw [hi.shared.newest]
  cases he : newest (hitsOf .shared r.key (servedLog started rs)) with
  | none => rfl
  | some e =>
    have hle := (hi.shared.windowed r.rateClass r.client).newest_le he
    have hlen : (hitsOf .shared r.key (servedLog started rs)).length ≤ rs.length := by
      have harr := congrArg List.length hi.arrivals
      rw [List.length_map] at harr
      unfold hitsOf
      rw [List.length_map, ← harr]
      exact List.length_filter_le _ _
    have hshort := hp.short
    rw [List.length_cons] at hshort
    unfold countShared
    dsimp only
    split
    · rfl
    · rw [if_pos (lt_of_le_of_lt (Nat.succ_le_succ (hle.trans hlen)) hshort)]
      rfl

theorem placed_layer (hp : Paced started (r :: rs)) (hi : LimiterInv started rs) :
    (layer r (limiterAfter started rs)).1.countedIn = .shared ↔
      r.rateClass.usesSharedStore ∧ r.storeAnswers := by
  obtain ⟨e, he⟩ := Option.isSome_iff_exists.1 (countShared_isSome hp hi)
  unfold layer
  split
  · rename_i hc
    unfold checkShared
    rw [he]
    exact ⟨fun _ => hc, fun _ => rfl⟩
  · rename_i hc
    refine ⟨fun h => ?_, fun h => absurd h hc⟩
    cases h

theorem placed_log : ∀ {rs : List Arrival}, Paced started rs → ∀ x ∈ servedLog started rs,
    x.countedIn = .shared ↔ x.arrival.rateClass.usesSharedStore ∧ x.arrival.storeAnswers
  | [], _, _, hx => absurd hx List.not_mem_nil
  | r :: rs, hp, x, hx => by
    rcases List.mem_cons.1 hx with rfl | hx
    · have harr : (layer r (limiterAfter started rs)).1.arrival = r :=
        (List.cons.inj (limiterInv hp).arrivals).1
      rw [harr]
      exact placed_layer hp (limiterInv hp.tail)
    · exact placed_log hp.tail x hx

end

theorem LimiterInv.shared_le {started : ℕ → ℕ} {rs : List Arrival} (hi : LimiterInv started rs)
    (cls : RateClass) (ip : String) (a : ℕ) :
    ((acceptedOf .shared cls ip (servedLog started rs)).filter fun x =>
      decide (a ≤ x.clock ∧ x.clock ≤ a + cls.limit.window)).length ≤ 2 * cls.limit.max := by
  rw [length_acceptedOf hi.sound .shared cls ip fun t => a ≤ t ∧ t ≤ a + cls.limit.window]
  refine le_trans (le_of_eq ?_)
    ((hi.shared.windowed cls ip).length_le (Nat.succ_pos _) a 1 cls.limit.max)
  refine congrArg List.length (List.filter_congr fun h _ => ?_)
  rw [decide_eq_decide]
  omega

theorem LimiterInv.replica_le {started : ℕ → ℕ} {rs : List Arrival} (hi : LimiterInv started rs)
    (i : ℕ) (cls : RateClass) (ip : String) (a k : ℕ) :
    ((acceptedOf (.replica i) cls ip (servedLog started rs)).filter fun x =>
      decide (a ≤ x.clock ∧ x.clock < a + k * pruneEvery)).length ≤ (k + 1) * cls.limit.max := by
  rw [length_acceptedOf hi.sound (.replica i) cls ip fun t => a ≤ t ∧ t < a + k * pruneEvery]
  refine le_trans (le_of_eq ?_)
    (((hi.replica i).windowed (cls.key ip)).length_le (by decide) a k cls.limit.max)
  refine congrArg List.length (List.filter_congr fun h _ => ?_)
  rw [decide_eq_decide, and_assoc]

/-- The windows of a client in the shared table begin more than a window apart, and in the
counters of a replica a minute at least, since another class prunes them by its own window. -/
theorem rateLaw_of_paced {started : ℕ → ℕ} {rs : List Arrival} (hp : Paced started rs) :
    RateLaw started rs where
  shared := (limiterInv hp).shared_le
  replica := (limiterInv hp).replica_le
  refused _ _ _ hlog hx := (limiterInv hp).refused hlog hx
  retry x hx := ((limiterInv hp).sound x hx).retry
  placed := placed_log hp

/-- A fixed window is left behind after five minutes, and then another is begun. -/
def loginAt (t : ℕ) : Arrival :=
  ⟨0, .post, "/v1/auth/login".toList, ⟨[("x-real-ip", "203.0.113.7".toByteArray.toList)], none⟩,
    fromSecs t, fromSecs t, true⟩

def loginTimes : List ℕ := [310, 310, 9, 8, 7, 7, 7, 6, 6, 6, 5, 5, 5]

theorem rateLaw_logins :
    RateLaw (fun _ => 0) (loginTimes.map loginAt) ∧
      ((servedLog (fun _ => 0) (loginTimes.map loginAt)).map fun x => (x.accepted, x.hit.nth)) =
        [(true, 2), (true, 1), (false, 11), (true, 10), (true, 9), (true, 8), (true, 7), (true, 6),
          (true, 5), (true, 4), (true, 3), (true, 2), (true, 1)] := by
  have hp : Paced (fun _ => 0) (loginTimes.map loginAt) :=
    ⟨by decide +kernel, by decide +kernel, fun _ _ => Nat.zero_le _, by decide,
      by decide +kernel⟩
  exact ⟨rateLaw_of_paced hp, by decide +kernel⟩

/-! ## Forged headers -/

/-- The bytes of a header, as the characters that they are. -/
def asciiChars (value : List UInt8) : List Char := value.map fun b => Char.ofNat b.toNat

/-- What may be a hop: it has neither blanks nor commas. -/
structure Hop (addr : List UInt8) : Prop where
  visible : ∀ b ∈ addr, 33 ≤ b ∧ b < 127 ∧ b ≠ 44
  ne_nil : addr ≠ []

/-- What an address is printed as, unless it is one of the private ones. -/
structure PublicAddr (addr : List UInt8) : Prop extends Hop addr where
  isPublic : isInternalOrPrivate (asciiChars addr) = false

structure InternalAddr (addr : List UInt8) : Prop extends Hop addr where
  isInternal : isInternalOrPrivate (asciiChars addr) = true

/-- Proxies that append a hop put a comma before it, and most of them a blank. -/
def addHop (value : List UInt8) (blank : Bool) (hop : List UInt8) : List UInt8 :=
  value ++ 44 :: ((if blank then [32] else []) ++ hop)

/-- The hops that a header names when it has passed the proxies: the client's, after whatever it
has sent itself, and those of proxies inside. -/
inductive Forwarded (addr : List UInt8) : List UInt8 → Prop
  | alone : Forwarded addr addr
  | appended (forged : List UInt8) (blank : Bool) : Forwarded addr (addHop forged blank addr)
  | passed {value : List UInt8} (h : Forwarded addr value) (blank : Bool) {hop : List UInt8}
      (hhop : InternalAddr hop) : Forwarded addr (addHop value blank hop)

/-- What a proxy leaves of the headers that a client sends: it has set the one to the client's
address, or else to nothing that counts and appended to the other what the client is. -/
inductive Proxied (addr : List UInt8) (parts : Parts) : Prop
  | real (h : parts.header "x-real-ip" = some addr)
  | forwarded (value : List UInt8) (hreal : ∀ hop ∈ parts.header "x-real-ip", InternalAddr hop)
      (hxff : parts.header "x-forwarded-for" = some value) (h : Forwarded addr value)

/-- Headers that are no text are as good as none. -/
def Parts.Legible (parts : Parts) : Prop :=
  ∀ value, parts.header "x-forwarded-for" = some value → (headerStr value).isSome

section
variable {addr : List UInt8} {parts : Parts}

theorem not_white {b : UInt8} (h : 33 ≤ b) (h' : b < 127) :
    isWhitespace (Char.ofNat b.toNat) = false := by
  have hall : ∀ n : Fin 127, 33 ≤ n.1 → isWhitespace (Char.ofNat n.1) = false := by decide
  exact hall ⟨b.toNat, UInt8.lt_iff_toNat_lt.1 h'⟩ (UInt8.le_iff_toNat_le.1 h)

theorem ne_comma {b : UInt8} (h : b < 127) (h' : b ≠ 44) : Char.ofNat b.toNat ≠ ',' := by
  have hall : ∀ n : Fin 127, n.1 ≠ 44 → Char.ofNat n.1 ≠ ',' := by decide
  exact hall ⟨b.toNat, UInt8.lt_iff_toNat_lt.1 h⟩ fun hb => h' (UInt8.toNat_inj.1 hb)

theorem headerStr_eq {value : List UInt8} {text : List Char} (h : headerStr value = some text) :
    text = asciiChars value := by
  unfold headerStr at h
  split at h
  · exact (Option.some.inj h).symm
  · cases h

namespace Hop

theorem headerStr (h : Hop addr) : headerStr addr = some (asciiChars addr) := by
  unfold SatsPay.headerStr
  refine if_pos (List.all_eq_true.2 fun b hb => ?_)
  have hv := h.visible b hb
  have hle : (32 : UInt8) ≤ b := UInt8.le_trans (by decide) hv.1
  simp [hle, hv.2.1]

theorem trim (h : Hop addr) : trim (asciiChars addr) = asciiChars addr := by
  apply trim_eq_self
  intro c hc
  obtain ⟨b, hb, rfl⟩ := List.mem_map.1 hc
  exact not_white (h.visible b hb).1 (h.visible b hb).2.1

theorem isEmpty (h : Hop addr) : (asciiChars addr).isEmpty = false := by
  simpa [asciiChars] using h.ne_nil

theorem not_comma (h : Hop addr) : ',' ∉ asciiChars addr := by
  intro hc
  obtain ⟨b, hb, hbc⟩ := List.mem_map.1 hc
  exact ne_comma (h.visible b hb).2.1 (h.visible b hb).2.2 hbc

theorem hops (h : Hop addr) : hops (asciiChars addr) = [asciiChars addr] := by
  unfold SatsPay.hops
  rw [List.splitOn_eq_singleton h.not_comma, List.map_singleton, h.trim]
  simp [h.isEmpty]

/-- What is appended is the last hop. -/
theorem hops_addHop (h : Hop addr) (value : List UInt8) (blank : Bool) :
    SatsPay.hops (asciiChars (addHop value blank addr)) =
      SatsPay.hops (asciiChars value) ++ [asciiChars addr] := by
  have hlast : ∃ text : List Char,
      asciiChars (addHop value blank addr) = asciiChars value ++ ',' :: text ∧
      ',' ∉ text ∧ SatsPay.trim text = asciiChars addr := by
    cases blank with
    | false => exact ⟨asciiChars addr, by simp [asciiChars, addHop], h.not_comma, h.trim⟩
    | true =>
      refine ⟨' ' :: asciiChars addr, by simp [asciiChars, addHop], ?_, ?_⟩
      · exact List.not_mem_cons_of_ne_of_not_mem (by decide) h.not_comma
      · have hwhite : isWhitespace ' ' = true := by decide
        rw [SatsPay.trim, List.dropWhile_cons_of_pos hwhite]
        exact h.trim
  obtain ⟨text, heq, hcomma, htrim⟩ := hlast
  unfold SatsPay.hops
  rw [heq, List.splitOn_append_cons_self, List.splitOn_eq_singleton hcomma, List.map_append,
    List.filter_append, List.map_singleton, htrim]
  simp [h.isEmpty]

end Hop

/-- The last hop that is not private is the client's. -/
theorem Forwarded.find_hop {value : List UInt8} (h : PublicAddr addr) (hf : Forwarded addr value) :
    (hops (asciiChars value)).reverse.find? (!isInternalOrPrivate ·) = some (asciiChars addr) := by
  induction hf with
  | alone =>
    rw [h.toHop.hops, List.reverse_singleton, List.find?_cons_of_pos]
    simp [h.isPublic]
  | appended forged blank =>
    rw [h.toHop.hops_addHop, List.reverse_append, List.reverse_singleton, List.singleton_append,
      List.find?_cons_of_pos]
    simp [h.isPublic]
  | passed _ blank hhop ih =>
    rw [hhop.toHop.hops_addHop, List.reverse_append, List.reverse_singleton, List.singleton_append,
      List.find?_cons_of_neg]
    · exact ih
    · simp [hhop.isInternal]

theorem InternalAddr.realIp {hop : List UInt8} (h : InternalAddr hop)
    (hr : parts.header "x-real-ip" = some hop) : realIp parts = none := by
  unfold SatsPay.realIp
  rw [hr, Option.bind_some, h.toHop.headerStr, Option.map_some, h.toHop.trim]
  simp [Option.filter, h.isInternal]

namespace PublicAddr

theorem realIp (h : PublicAddr addr) (hr : parts.header "x-real-ip" = some addr) :
    realIp parts = some (asciiChars addr) := by
  unfold SatsPay.realIp
  rw [hr, Option.bind_some, h.toHop.headerStr, Option.map_some, h.toHop.trim]
  apply Option.filter_some_pos
  simp [h.toHop.isEmpty, h.isPublic]

theorem forwardedFor (h : PublicAddr addr) {value : List UInt8}
    (hxff : parts.header "x-forwarded-for" = some value) (hf : Forwarded addr value) :
    forwardedFor parts = some (asciiChars addr) ∨
      ¬ parts.Legible ∧ forwardedFor parts = none := by
  unfold SatsPay.forwardedFor
  rw [hxff, Option.bind_some]
  cases ht : SatsPay.headerStr value with
  | none =>
    refine .inr ⟨fun hl => ?_, rfl⟩
    have hsome := hl _ hxff
    rw [ht] at hsome
    cases hsome
  | some text =>
    obtain rfl := headerStr_eq ht
    exact .inl (hf.find_hop h)

/-- Whatever a client forges, it is itself, or the proxy where the headers are no text. -/
theorem resolveClientIp (h : PublicAddr addr) (hp : Proxied addr parts) :
    resolveClientIp parts = some (String.ofList (asciiChars addr)) ∨
      ¬ parts.Legible ∧ resolveClientIp parts = parts.peer := by
  unfold SatsPay.resolveClientIp
  cases hp with
  | real hr =>
    rw [h.realIp hr]
    exact .inl rfl
  | forwarded value hr hxff hf =>
    have hnone : SatsPay.realIp parts = none := by
      cases hreal : parts.header "x-real-ip" with
      | none =>
        unfold SatsPay.realIp
        rw [hreal]
        rfl
      | some hop => exact (hr hop hreal).realIp hreal
    rw [hnone]
    rcases h.forwardedFor hxff hf with hs | ⟨hl, hs⟩
    · rw [Option.orElse_none, hs]
      exact .inl rfl
    · rw [Option.orElse_none, hs]
      exact .inr ⟨hl, rfl⟩

end PublicAddr

/-- What is accepted of all that is sent, where one client is under the limits `n` times. -/
structure SentLaw (started : ℕ → ℕ) (rs : List Arrival) (sent : Arrival → Bool) (n : ℕ) : Prop where
  shared : ∀ cls a, (servedLog started rs).countP (fun x => decide (sent x.arrival ∧ x.accepted ∧
    x.countedIn = .shared ∧ x.arrival.rateClass = cls ∧
      a ≤ x.clock ∧ x.clock ≤ a + cls.limit.window)) ≤ n * (2 * cls.limit.max)
  replica : ∀ i cls a k, (servedLog started rs).countP (fun x => decide (sent x.arrival ∧
    x.accepted ∧ x.countedIn = .replica i ∧ x.arrival.rateClass = cls ∧
      a ≤ x.clock ∧ x.clock < a + k * pruneEvery)) ≤ n * ((k + 1) * cls.limit.max)

variable {started : ℕ → ℕ} {rs : List Arrival} {sent : Arrival → Bool}

theorem countP_acceptedOf (log : List Counted) (s : CountedIn) (cls : RateClass) (ip : String)
    (p : Counted → Prop) [DecidablePred p] :
    ((acceptedOf s cls ip log).filter fun x => decide (p x)).length = log.countP fun x =>
      decide (x.accepted ∧ x.countedIn = s ∧ x.arrival.rateClass = cls ∧ x.arrival.client = ip ∧
        p x) := by
  unfold acceptedOf
  rw [List.filter_filter, ← List.countP_eq_length_filter]
  refine List.countP_congr fun x _ => ?_
  simp only [Bool.and_eq_true, decide_eq_true_eq]
  tauto

theorem sentLaw_of_clients (hp : Paced started rs) {ips : List String}
    (h : ∀ r ∈ rs, sent r → r.client ∈ ips) : SentLaw started rs sent ips.length := by
  have hi := limiterInv hp
  have hlog : ∀ x ∈ servedLog started rs, sent x.arrival → x.arrival.client ∈ ips := by
    intro x hx
    apply h
    rw [← hi.arrivals]
    exact List.mem_map_of_mem hx
  constructor
  · intro cls a
    refine countP_le_of_forall_exists (fun x hx hs => ?_) fun ip _ =>
      (countP_acceptedOf _ .shared cls ip _).symm.trans_le (hi.shared_le cls ip a)
    obtain ⟨hs, ha, hin, hcls, ht⟩ := of_decide_eq_true hs
    exact ⟨_, hlog x hx hs, decide_eq_true ⟨ha, hin, hcls, rfl, ht⟩⟩
  · intro i cls a k
    refine countP_le_of_forall_exists (fun x hx hs => ?_) fun ip _ =>
      (countP_acceptedOf _ (.replica i) cls ip _).symm.trans_le (hi.replica_le i cls ip a k)
    obtain ⟨hs, ha, hin, hcls, ht⟩ := of_decide_eq_true hs
    exact ⟨_, hlog x hx hs, decide_eq_true ⟨ha, hin, hcls, rfl, ht⟩⟩

/-- By the headers that it forges a client is not counted as anyone but itself and the proxies
that it comes through, and as one of these only where what it sends is no text. -/
theorem sentLaw_of_proxied (hp : Paced started rs) (haddr : PublicAddr addr) {proxies : List String}
    (hsent : ∀ r ∈ rs, sent r → Proxied addr r.parts ∧ ∃ p ∈ proxies, r.parts.peer = some p) :
    SentLaw started rs sent (1 + proxies.length) ∧
      ((∀ r ∈ rs, sent r → r.parts.Legible) → SentLaw started rs sent 1) := by
  have hclient : ∀ r ∈ rs, sent r → r.client = String.ofList (asciiChars addr) ∨
      ¬ r.parts.Legible ∧ r.client ∈ proxies := by
    intro r hr hs
    obtain ⟨hpr, p, hpm, hpeer⟩ := hsent r hr hs
    unfold Arrival.client
    rcases haddr.resolveClientIp hpr with h | ⟨hl, h⟩
    · rw [h]
      exact .inl rfl
    · rw [h, hpeer]
      exact .inr ⟨hl, hpm⟩
  constructor
  · rw [Nat.add_comm]
    have hall : ∀ r ∈ rs, sent r → r.client ∈ String.ofList (asciiChars addr) :: proxies := ?_
    · exact sentLaw_of_clients hp hall
    intro r hr hs
    rcases hclient r hr hs with h | ⟨-, h⟩
    · rw [h]
      exact List.mem_cons_self
    · exact List.mem_cons_of_mem _ h
  · intro hl
    have hall : ∀ r ∈ rs, sent r → r.client ∈ [String.ofList (asciiChars addr)] := ?_
    · exact sentLaw_of_clients hp hall
    intro r hr hs
    rcases hclient r hr hs with h | ⟨h, -⟩
    · rw [h]
      exact List.mem_singleton_self _
    · exact absurd (hl r hr hs) h

/-- `203.0.113.7`, as the proxies pass it on: alone, behind another that it says that it forwards
for, and before a proxy inside. -/
def forgedHeader (k : ℕ) : List UInt8 :=
  let addr := "203.0.113.7".toByteArray.toList
  match k % 3 with
  | 0 => addr
  | 1 => addHop ("198.51.100.".toByteArray.toList ++ [48 + k.toUInt8]) true addr
  | _ => addHop (addHop [] false addr) true "10.0.0.1".toByteArray.toList

def forgedAt (k : ℕ) : Arrival :=
  ⟨0, .post, "/v1/auth/login".toList,
    ⟨[("x-forwarded-for", forgedHeader k)], some "10.0.0.2"⟩, fromSecs 5, fromSecs 5, true⟩

theorem forwarded_forgedHeader (k : ℕ) :
    Forwarded "203.0.113.7".toByteArray.toList (forgedHeader k) := by
  have hinside : InternalAddr "10.0.0.1".toByteArray.toList :=
    ⟨⟨by decide +kernel, by decide +kernel⟩, by decide +kernel⟩
  unfold forgedHeader
  dsimp only
  split
  · exact .alone
  · exact .appended _ _
  · exact .passed (.appended _ _) _ hinside

theorem sentLaw_forged :
    SentLaw (fun _ => 0) ((List.range 11).map forgedAt) (fun _ => true) 2 ∧
      (servedLog (fun _ => 0) ((List.range 11).map forgedAt)).map (fun x => x.accepted) =
        false :: List.replicate 10 true := by
  have hp : Paced (fun _ => 0) ((List.range 11).map forgedAt) :=
    ⟨by decide +kernel, by decide +kernel, fun _ _ => Nat.zero_le _, by decide,
      by decide +kernel⟩
  have haddr : PublicAddr "203.0.113.7".toByteArray.toList :=
    ⟨⟨by decide +kernel, by decide +kernel⟩, by decide +kernel⟩
  have hproxied : ∀ r ∈ (List.range 11).map forgedAt, true →
      Proxied "203.0.113.7".toByteArray.toList r.parts ∧ ∃ p ∈ ["10.0.0.2"], r.parts.peer = some p := ?_
  · exact ⟨(sentLaw_of_proxied hp haddr hproxied).1, by decide +kernel⟩
  intro r hr _
  obtain ⟨k, -, rfl⟩ := List.mem_map.1 hr
  refine ⟨.forwarded _ (fun hop hhop => ?_) rfl (forwarded_forgedHeader k), _,
    List.mem_singleton_self _, rfl⟩
  cases hhop

end

end SatsPay
