import Mathlib.Data.List.Nodup

/-!
# Sending through several endpoints

A client signs a transfer and offers it to one endpoint after the other until one
answers. An endpoint may take the transfer and lose its answer. Transfers of one
account with one nonce exclude each other on chain, those with different nonces do
not.
-/

namespace Failover

/-- A transfer that a node took; `reverted` when it is known to have failed on chain. -/
structure Transfer (τ : Type) where
  tx : τ
  reverted : Bool

inductive Turn (τ ρ ε : Type) where
  /-- Nothing was sent: the next one is tried. -/
  | next (message : String)
  /-- A transfer was taken and the answer lost: the next one is tried. -/
  | lost (tx : τ) (message : String)
  | done (sent : Option (Transfer τ)) (r : Except ε ρ)

structure Call (τ ρ ε : Type) where
  sent : List (Transfer τ)
  result : Except ε ρ

variable {τ ν ρ ε : Type}

def tryAll (failed : String → ε) : List (Turn τ ρ ε) → String → Call τ ρ ε
  | [], lastError => ⟨[], .error (failed lastError)⟩
  | .next message :: ts, _ => tryAll failed ts message
  | .lost tx message :: ts, _ =>
    ⟨⟨tx, false⟩ :: (tryAll failed ts message).sent, (tryAll failed ts message).result⟩
  | .done sent r :: _, _ => ⟨sent.toList, r⟩

/-- The transfers `l` of those taken may all succeed. -/
structure OnChain (nonce : τ → ν) (sent l : List (Transfer τ)) : Prop where
  sublist : l.Sublist sent
  nonces : (l.map fun t => nonce t.tx).Nodup
  live : ∀ t ∈ l, ∀ u ∈ sent, nonce u.tx = nonce t.tx → u.reverted = false

/-- At most one transfer succeeds, and none after an error that says so. -/
structure Sound (nonce : τ → ν) (safe : ε → Bool) (c : Call τ ρ ε) : Prop where
  atMostOne : ∀ l, OnChain nonce c.sent l → l.length ≤ 1
  safeError : ∀ e, c.result = .error e → safe e = true → ∀ l, OnChain nonce c.sent l → l = []

/-- A call that ends says it is safe exactly when it knows that nothing can succeed. -/
def Turn.Honest (safe : ε → Bool) : Turn τ ρ ε → Prop
  | .done none r => ∃ e, r = .error e ∧ safe e = true
  | .done (some t) r => t.reverted = true ↔ ∃ e, r = .error e ∧ safe e = true
  | _ => True

def Turn.Sends (P : τ → Prop) : Turn τ ρ ε → Prop
  | .next _ => True
  | .lost tx _ => P tx
  | .done sent _ => ∀ t ∈ sent, P t.tx

/-! ## The transfers of a call -/

def lostTxs : List (Turn τ ρ ε) → List τ
  | [] => []
  | .next _ :: ts => lostTxs ts
  | .lost tx _ :: ts => tx :: lostTxs ts
  | .done _ _ :: _ => []

/-- Where the call ends before the endpoints do. -/
def final : List (Turn τ ρ ε) → Option (Option (Transfer τ) × Except ε ρ)
  | [] => none
  | .next _ :: ts => final ts
  | .lost _ _ :: ts => final ts
  | .done sent r :: _ => some (sent, r)

def finalTransfer (ts : List (Turn τ ρ ε)) : Option (Transfer τ) := (final ts).bind Prod.fst

variable {failed : String → ε} {safe : ε → Bool} {nonce : τ → ν}

theorem tryAll_sent (failed : String → ε) (ts : List (Turn τ ρ ε)) : ∀ m, (tryAll failed ts m).sent =
    (lostTxs ts).map (fun tx => ⟨tx, false⟩) ++ (finalTransfer ts).toList := by
  induction ts with
  | nil => intro m; rfl
  | cons t ts ih =>
    intro m
    cases t with
    | next message => exact ih message
    | lost tx message => exact congrArg (_ :: ·) (ih message)
    | done sent r => rfl

theorem tryAll_sends {P : τ → Prop} {ts : List (Turn τ ρ ε)} (h : ∀ t ∈ ts, t.Sends P) (m : String) :
    ∀ t ∈ (tryAll failed ts m).sent, P t.tx := by
  induction ts generalizing m with
  | nil => intro t ht; cases ht
  | cons turn ts ih =>
    have ih := ih (fun t ht => h t (List.mem_cons_of_mem _ ht))
    have hturn := h turn List.mem_cons_self
    cases turn with
    | next message => exact ih message
    | lost tx message =>
      intro t ht
      rcases List.mem_cons.1 ht with rfl | ht
      · exact hturn
      · exact ih message t ht
    | done sent r => exact fun t ht => hturn t (by simpa [tryAll] using ht)

theorem tryAll_result (failed : String → ε) (ts : List (Turn τ ρ ε)) : ∀ m, match final ts with
    | none => ∃ m', (tryAll failed ts m).result = .error (failed m')
    | some (_, r) => (tryAll failed ts m).result = r := by
  induction ts with
  | nil => intro m; exact ⟨m, rfl⟩
  | cons t ts ih =>
    intro m
    cases t with
    | next message => exact ih message
    | lost tx message => exact ih message
    | done sent r => rfl

theorem honest_final {ts : List (Turn τ ρ ε)} (h : ∀ t ∈ ts, t.Honest safe)
    {sent : Option (Transfer τ)} {r : Except ε ρ} (hf : final ts = some (sent, r)) :
    (Turn.done sent r).Honest safe := by
  induction ts with
  | nil => cases hf
  | cons t ts ih =>
    cases t with
    | next message => exact ih (fun t ht => h t (List.mem_cons_of_mem _ ht)) hf
    | lost tx message => exact ih (fun t ht => h t (List.mem_cons_of_mem _ ht)) hf
    | done sent' r' =>
      cases hf
      exact h _ List.mem_cons_self

/-- When nothing but the lost transfers was taken, or the last one reverted, the
call says that it is safe. -/
theorem safe_of_final {ts : List (Turn τ ρ ε)} (hfailed : ∀ m, safe (failed m) = true)
    (h : ∀ t ∈ ts, t.Honest safe) (m : String)
    (hf : ∀ u, finalTransfer ts = some u → u.reverted = true) :
    ∃ e, (tryAll failed ts m).result = .error e ∧ safe e = true := by
  have hr := tryAll_result failed ts m
  cases hfin : final ts with
  | none =>
    rw [hfin] at hr
    obtain ⟨m', hr⟩ := hr
    exact ⟨_, hr, hfailed m'⟩
  | some x =>
    obtain ⟨sent, r⟩ := x
    rw [hfin] at hr
    have hh := honest_final h hfin
    cases sent with
    | none =>
      obtain ⟨e, he, hs⟩ := hh
      exact ⟨e, hr.trans he, hs⟩
    | some u =>
      have hu : u.reverted = true := hf u (by rw [finalTransfer, hfin]; rfl)
      obtain ⟨e, he, hs⟩ := hh.1 hu
      exact ⟨e, hr.trans he, hs⟩

theorem reverted_of_safe {ts : List (Turn τ ρ ε)} (h : ∀ t ∈ ts, t.Honest safe) {m : String}
    {e : ε} (he : (tryAll failed ts m).result = .error e) (hs : safe e = true) {u : Transfer τ}
    (hu : finalTransfer ts = some u) : u.reverted = true := by
  have hr := tryAll_result failed ts m
  obtain ⟨⟨sent, r⟩, hfin, hsent⟩ := Option.bind_eq_some_iff.1 hu
  rw [hfin] at hr
  cases hsent
  exact (honest_final h hfin).2 ⟨e, hr.symm.trans he, hs⟩

/-! ## When a call is sound -/

/-- Every transfer whose answer was lost is followed by one with the same nonce
whose answer came. -/
def Answered (nonce : τ → ν) (ts : List (Turn τ ρ ε)) : Prop :=
  ∀ tx ∈ lostTxs ts, ∃ u, finalTransfer ts = some u ∧ nonce u.tx = nonce tx

theorem sound_of_answered {ts : List (Turn τ ρ ε)} (h : ∀ t ∈ ts, t.Honest safe) {m : String}
    (ha : Answered nonce ts) : Sound nonce safe (tryAll failed ts m) := by
  have hsent := tryAll_sent failed ts m
  cases hfin : finalTransfer ts with
  | none =>
    -- nothing was taken
    have hnil : (tryAll failed ts m).sent = [] := by
      cases hl : lostTxs ts with
      | nil => rw [hsent, hl, hfin]; rfl
      | cons tx l =>
        obtain ⟨u, hu, -⟩ := ha tx (by rw [hl]; exact List.mem_cons_self)
        rw [hfin] at hu
        cases hu
    have hl : ∀ l, OnChain nonce (tryAll failed ts m).sent l → l = [] := by
      intro l hl
      have := hl.sublist
      rw [hnil] at this
      exact List.sublist_nil.1 this
    exact ⟨fun l h' => by rw [hl l h']; exact Nat.zero_le 1, fun _ _ _ => hl⟩
  | some u =>
    have hnonce : ∀ t ∈ (tryAll failed ts m).sent, nonce t.tx = nonce u.tx := by
      intro t ht
      rw [hsent, hfin] at ht
      rcases List.mem_append.1 ht with ht | ht
      · obtain ⟨tx, htx, rfl⟩ := List.mem_map.1 ht
        obtain ⟨u', hu', he⟩ := ha tx htx
        rw [hfin] at hu'
        cases hu'
        exact he.symm
      · have : t = u := by simpa using ht
        rw [this]
    have hmem : u ∈ (tryAll failed ts m).sent := by
      rw [hsent, hfin]
      exact List.mem_append_right _ (List.mem_singleton_self u)
    constructor
    · intro l hl
      match l, hl with
      | [], _ => exact Nat.zero_le 1
      | [t], _ => exact Nat.le_refl 1
      | t :: t' :: l, hl =>
        have h₁ := hnonce t (hl.sublist.subset List.mem_cons_self)
        have h₂ := hnonce t' (hl.sublist.subset (List.mem_cons_of_mem _ List.mem_cons_self))
        have hn := hl.nonces
        simp [h₁, h₂] at hn
    · intro e he hs l hl
      have hrev := reverted_of_safe h he hs hfin
      match l, hl with
      | [], _ => rfl
      | t :: l, hl =>
        have ht := hnonce t (hl.sublist.subset List.mem_cons_self)
        have := hl.live t List.mem_cons_self u hmem ht.symm
        rw [hrev] at this
        cases this

theorem answered_of_sound {ts : List (Turn τ ρ ε)} (hfailed : ∀ m, safe (failed m) = true)
    (h : ∀ t ∈ ts, t.Honest safe) {m : String} (hs : Sound nonce safe (tryAll failed ts m)) :
    Answered nonce ts := by
  intro tx htx
  have hsent := tryAll_sent failed ts m
  have hlost : (⟨tx, false⟩ : Transfer τ) ∈
      (lostTxs ts).map fun tx => (⟨tx, false⟩ : Transfer τ) := List.mem_map_of_mem htx
  -- the lost transfer alone may succeed, unless its nonce went to one that reverted
  have alone : (∀ u, finalTransfer ts = some u → nonce u.tx = nonce tx → u.reverted = false) →
      OnChain nonce (tryAll failed ts m).sent [⟨tx, false⟩] := by
    intro hu
    refine ⟨List.singleton_sublist.2 ?_, by simp, ?_⟩
    · rw [hsent]
      exact List.mem_append_left _ hlost
    · intro t ht v hv he
      cases List.mem_singleton.1 ht
      rw [hsent] at hv
      rcases List.mem_append.1 hv with hv | hv
      · obtain ⟨_, _, rfl⟩ := List.mem_map.1 hv
        rfl
      · exact hu v (by simpa [eq_comm] using hv) he
  by_contra hno
  have hne : ∀ u, finalTransfer ts = some u → nonce u.tx ≠ nonce tx :=
    fun u hu he => hno ⟨u, hu, he⟩
  have hon := alone fun u hu he => absurd he (hne u hu)
  by_cases hrev : ∀ u, finalTransfer ts = some u → u.reverted = true
  · obtain ⟨e, he, hsafe⟩ := safe_of_final hfailed h m hrev
    cases hs.safeError e he hsafe _ hon
  · push Not at hrev
    obtain ⟨u, hu, hur⟩ := hrev
    have htwo : OnChain nonce (tryAll failed ts m).sent [⟨tx, false⟩, u] := by
      refine ⟨?_, ?_, ?_⟩
      · rw [hsent, hu]
        exact (List.singleton_sublist.2 hlost).append (List.Sublist.refl [u])
      · simpa using (hne u hu).symm
      · intro t ht v hv he
        rw [hsent, hu] at hv
        rcases List.mem_append.1 hv with hv | hv
        · obtain ⟨_, _, rfl⟩ := List.mem_map.1 hv
          rfl
        · cases List.mem_singleton.1 hv
          simpa using hur
    have := hs.atMostOne _ htwo
    simp at this

theorem sound_iff {ts : List (Turn τ ρ ε)} (hfailed : ∀ m, safe (failed m) = true)
    (h : ∀ t ∈ ts, t.Honest safe) (m : String) :
    Sound nonce safe (tryAll failed ts m) ↔ Answered nonce ts :=
  ⟨answered_of_sound hfailed h, sound_of_answered h⟩

/-- A call that sends nothing and says so. -/
theorem sound_nothing {e : ε} : Sound nonce safe (⟨[], .error e⟩ : Call τ ρ ε) :=
  ⟨fun l h => by rw [List.sublist_nil.1 h.sublist]; exact Nat.zero_le 1,
    fun _ _ _ l h => List.sublist_nil.1 h.sublist⟩

end Failover
