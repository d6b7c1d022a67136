import SatsPay.Stakes

/-!
# Runs of the stakes

However creations, claims and cancellations interleave, the entries of each stake are those
of its status: the lock of an active one, the unlock as well of one that ended, and the
reward of one that was claimed. The unique index on the unlock is what lets one of two that
end a stake through, in the wallet that both lock.
-/

namespace SatsPay

open Interleave ReadCommitted RowProtocol

abbrev StakeHist := Hist (sig (satsPay stakeExt))
abbrev StakeEvent := Event (sig (satsPay stakeExt))
abbrev StakeView := RefView stakeTables

/-! ## The book of stakes -/

abbrev EntryLine := Uuid × ℤ × LedgerType

def LedgerEntry.line (e : LedgerEntry) : EntryLine := (e.walletId, e.amount, e.type)

/-- The entries of a stake, newest first, in the wallet `w` of its user and the wallet `h` of
the house. -/
def Stake.lines (w h : Uuid) (s : Stake) : List EntryLine :=
  match s.status with
  | .active => [(w, -s.principal, .stakeLock)]
  | .canceled => [(w, s.principal, .stakeUnlock), (w, -s.principal, .stakeLock)]
  | .completed =>
    (if s.reward = 0 then [] else [(w, s.reward, .stakeReward), (h, -s.reward, .stakeReward)]) ++
      [(w, s.principal, .stakeUnlock), (w, -s.principal, .stakeLock)]

def StakeKept (wallets : Table Wallet) (house : Option Uuid) : Uuid → Option Stake →
    List LedgerEntry → Prop
  | _, none, l => l = []
  | _, some s, l => 0 ≤ s.reward ∧ (s.status ≠ .completed → s.reward = 0) ∧ ∃ w h,
      walletIn wallets s.userId s.coin .personal = some w ∧
      (s.reward ≠ 0 → house.bind (walletIn wallets · s.coin .house) = some h) ∧
      l.map LedgerEntry.line = s.lines w h

def StakeBook (v : StakeView) : Prop :=
  Tallied StakeDb.stakeOf (StakeKept v.wallets v.part.house) v

abbrev stakeSee (db : Db stakeExt) : StakeView := refSee "Stake" db

def lockNet (lines : List EntryLine) : ℤ :=
  ((lines.filter fun x => x.2.2 == .stakeLock || x.2.2 == .stakeUnlock).map fun x => x.2.1).sum

theorem lockNet_lines (w h : Uuid) (s : Stake) :
    lockNet (s.lines w h) = if s.status = .active then -s.principal else 0 := by
  unfold Stake.lines
  cases s.status with
  | active | canceled => simp [lockNet]
  | completed => by_cases hr : s.reward = 0 <;> simp [lockNet, hr]

/-! ## The law -/

def stakeFails : stakeExt.Call → Prop
  | .inl (.answer (.error _)) => True
  | _ => False

def StakeProcess (c : Staking Empty Unit) : Prop := ∃ req, c = serveStake req

abbrev StakeRun (db : Db stakeExt) (w : World (machine (satsPay stakeExt))) : Prop :=
  Run StakeProcess (anyStep _) db w

abbrev StakeStep : World (machine (satsPay stakeExt)) → World (machine (satsPay stakeExt)) → Prop :=
  Step (machine (satsPay stakeExt)) StakeProcess (anyStep _)

abbrev StakeSteps : World (machine (satsPay stakeExt)) → World (machine (satsPay stakeExt)) → Prop :=
  Steps (machine (satsPay stakeExt)) StakeProcess (anyStep _)

structure StakeLaw (db : Db stakeExt) : Prop where
  /-- The entries of each stake are those of its status. -/
  book : ∀ w, StakeRun db w → StakeBook (stakeSee w.conf.s.db)
  /-- Locks and unlocks come to minus the principal while it is active, then to nothing. -/
  net : ∀ w id s, StakeRun db w → w.conf.s.db.ext.1.stakeOf id = some s →
    lockNet (((stakeSee w.conf.s.db).entriesOf id).map LedgerEntry.line) =
      if s.status = .active then -s.principal else 0
  /-- A stake that has ended stays as it is. -/
  terminal : ∀ w w' id s, StakeRun db w → StakeSteps w w' → w.conf.s.db.ext.1.stakeOf id = some s →
    s.status ≠ .active → w'.conf.s.db.ext.1.stakeOf id = some s
  /-- Who completes a stake with a lock has seen that it has matured. -/
  matured : ∀ w w' id s, StakeRun db w → StakeStep w w' → w'.conf.s.db.ext.1.stakeOf id = some s →
    s.status = .completed → s.lockDays ≠ 0 → w.conf.s.db.ext.1.stakeOf id = some s ∨
    ∃ p t, w'.conf.hist = .did p .commit (.ok ()) :: w.conf.hist ∧
      .did p (.call (.inl .utcNow)) t ∈ w.conf.hist ∧ s.maturesAt ≤ (t : ℤ)
  failed : FailedAside StakeProcess (anyStep _) stakeFails db

/-! ## The plan -/

/-- What a stake may become: nothing else while it is active, and then no more. -/
def Stake.Later (s s' : Stake) : Prop :=
  s' = s ∨ (s.status = .active ∧ s'.status ≠ .active ∧ s'.userId = s.userId ∧ s'.coin = s.coin)

theorem Stake.Later.trans {s₁ s₂ s₃ : Stake} (h : s₁.Later s₂) (h' : s₂.Later s₃) : s₁.Later s₃ := by
  rcases h with rfl | ⟨ha, hn, hu, hc⟩
  · exact h'
  · rcases h' with rfl | ⟨ha', -⟩
    · exact .inr ⟨ha, hn, hu, hc⟩
    · exact absurd ha' hn

/-- Between the two histories someone who has read a clock at `maturesAt` or later commits. -/
def Matured (h h' : StakeHist) (maturesAt : ℤ) : Prop :=
  ∃ newer p mid, ∃ t : ℤ, h' = newer ++ .did p .commit (.ok ()) :: (mid ++ h) ∧
    .did p (.call (.inl .utcNow)) t ∈ mid ++ h ∧ maturesAt ≤ t

structure StakeRel (v : StakeView) (h : StakeHist) (v' : StakeView) (h' : StakeHist) : Prop where
  suffix : ∃ l, h' = l ++ h
  kept : ∀ id s, v.part.stakeOf id = some s → ∃ s', v'.part.stakeOf id = some s' ∧ s.Later s'
  matured : ∀ id s, v'.part.stakeOf id = some s → s.status = .completed → s.lockDays ≠ 0 →
    v.part.stakeOf id = some s ∨ Matured h h' s.maturesAt

theorem stakeRel_of_eq {v v' : StakeView} {h : StakeHist} (hv : v'.part.stakeOf = v.part.stakeOf)
    (l : StakeHist) : StakeRel v h v' (l ++ h) where
  suffix := ⟨l, rfl⟩
  kept id s hs := ⟨s, by rw [hv]; exact hs, .inl rfl⟩
  matured id s hs _ _ := .inl (by rw [← hv]; exact hs)

theorem StakeRel.trans {v₁ v₂ v₃ : StakeView} {h₁ h₂ h₃ : StakeHist} (a : StakeRel v₁ h₁ v₂ h₂)
    (b : StakeRel v₂ h₂ v₃ h₃) : StakeRel v₁ h₁ v₃ h₃ where
  suffix := by
    obtain ⟨l, rfl⟩ := a.suffix
    obtain ⟨l', rfl⟩ := b.suffix
    exact ⟨l' ++ l, (List.append_assoc _ _ _).symm⟩
  kept id s hs := by
    obtain ⟨s₂, hs₂, h⟩ := a.kept id s hs
    obtain ⟨s₃, hs₃, h'⟩ := b.kept id s₂ hs₂
    exact ⟨s₃, hs₃, h.trans h'⟩
  matured id s hs hc hl := by
    rcases b.matured id s hs hc hl with h | ⟨newer, p, mid, t, heq, hm, hle⟩
    · rcases a.matured id s h hc hl with h | ⟨newer, p, mid, t, heq, hm, hle⟩
      · exact .inl h
      · obtain ⟨l, hl⟩ := b.suffix
        exact .inr ⟨l ++ newer, p, mid, t, by rw [hl, heq, List.append_assoc], hm, hle⟩
    · obtain ⟨l, hl⟩ := a.suffix
      refine .inr ⟨newer, p, mid ++ l, t, ?_, ?_, hle⟩
      · rw [heq, hl, List.append_assoc]
      · rwa [List.append_assoc, ← hl]

section
variable (wallets : Table Wallet) (house : Option Uuid)

structure StakeInv (v : StakeView) : Prop where
  wallets : v.wallets = wallets
  house : v.part.house = house
  book : StakeBook v

abbrev stakeFocus : Focus stakeExt := refFocus stakeTables noExt "Stake"

def stakePlan : Plan stakeFocus fun _ _ _ => True where
  inv v _ := StakeInv wallets house v
  rel _ := StakeRel
  done _ _ _ := True
  quiet _ := True
  rel_refl _ _ _ := stakeRel_of_eq rfl []
  rel_trans _ _ _ _ _ _ _ := StakeRel.trans
  quiet_begin _ _ := trivial
  quiet_rollback _ := trivial
  quiet_tx _ _ _ := trivial
  quiet_commit _ _ := trivial
  inv_quiet _ h := h
  rel_quiet _ _ _ := stakeRel_of_eq rfl [_]
  finish h _ _ := ⟨h, fun _ _ => stakeRel_of_eq rfl [_]⟩
  crash h _ := ⟨h, fun _ _ => stakeRel_of_eq rfl [_]⟩
  tick h _ := ⟨h, fun _ => stakeRel_of_eq rfl [_]⟩

end

section
variable {wallets : Table Wallet} {house : Option Uuid} {p : Nat}

/-! ## One stake -/

def putStake (id : Uuid) (s : Stake) (v : StakeView) : StakeView :=
  RefView.write (A := stakeTables) (.putStake id s) v

theorem stakeOf_put (id : Uuid) (s : Stake) (v : StakeView) (j : Uuid) :
    (putStake id s v).part.stakeOf j = if j = id then some s else v.part.stakeOf j := by
  have h₁ : (putStake id s v).part.stakeOf j = (v.part.stakes.insert id s).lookup j := rfl
  rw [h₁]
  split
  · rename_i e
    rw [e, AList.lookup_insert]
  · rename_i e
    exact AList.lookup_insert_ne e

/-- The entries of `added` go to the stake `id`, which becomes `s`. -/
theorem stakeInv_put {v v' : StakeView} (hv : StakeInv wallets house v) {id : Uuid} {s : Stake}
    {added : List LedgerEntry} (hwallets : v'.wallets = v.wallets)
    (hhouse : v'.part.house = v.part.house)
    (hrow : ∀ j, v'.part.stakeOf j = if j = id then some s else v.part.stakeOf j)
    (hentries : v'.entries = added ++ v.entries) (hadded : ∀ e ∈ added, e.referenceId = some id)
    (hok : StakeKept wallets house id (some s) (added ++ v.entriesOf id)) :
    StakeInv wallets house v' where
  wallets := hwallets.trans hv.wallets
  house := hhouse.trans hv.house
  book := by
    have hbook := hv.book
    unfold StakeBook at hbook ⊢
    rw [hwallets, hhouse]
    refine hbook.step (fun j hj => ?_) hentries hadded ?_
    · rw [hrow, if_neg hj]
    · rw [hrow, if_pos rfl, hv.wallets, hv.house]
      exact hok

theorem stakeRel_put {v v' : StakeView} {h : StakeHist} {id : Uuid} {s : Stake}
    (hrow : ∀ j, v'.part.stakeOf j = if j = id then some s else v.part.stakeOf j)
    (hlater : ∀ s₀, v.part.stakeOf id = some s₀ → s₀.Later s)
    (hmat : s.status = .completed → s.lockDays ≠ 0 →
      ∃ t : ℤ, .did p (.call (.inl .utcNow)) t ∈ h ∧ s.maturesAt ≤ t) :
    StakeRel v h v' (.did p .commit (.ok ()) :: h) where
  suffix := ⟨[_], rfl⟩
  kept j s₀ hs₀ := by
    by_cases e : j = id
    · subst e
      exact ⟨s, by rw [hrow, if_pos rfl], hlater s₀ hs₀⟩
    · exact ⟨s₀, by rw [hrow, if_neg e]; exact hs₀, .inl rfl⟩
  matured j s' hs' hc hl := by
    rw [hrow] at hs'
    split at hs'
    · cases hs'
      obtain ⟨t, ht, hle⟩ := hmat hc hl
      exact .inr ⟨[], p, [], t, rfl, ht, hle⟩
    · exact .inl hs'

def OpenedAs (id : Uuid) (s : Stake) (_ : List (Key stakeExt)) (db : Db stakeExt) (_ : StakeHist) :
    Prop := ∃ s', (stakeSee db).part.stakeOf id = some s' ∧ s.Later s'

theorem keeps_opened (id : Uuid) (s : Stake) : (stakePlan wallets house).Keeps p (OpenedAs id s) where
  framed :=
    { stable := fun _ _ _ _ _ _ ⟨s₁, hs₁, h₁⟩ _ hr _ _ => by
        obtain ⟨s₂, hs₂, h₂⟩ := hr.2.kept id s₁ hs₁
        exact ⟨s₂, hs₂, h₁.trans h₂⟩
      own := fun _ _ _ _ _ _ _ hg => hg }
  mono _ _ _ _ hg := hg

/-- Where the wallet holds no unlock of it, an active stake is still so. -/
theorem stakeOf_of_fresh {ks : List (Key stakeExt)} {db : Db stakeExt} {h : StakeHist} {id w : Uuid}
    {s : Stake} (hi : StakeInv wallets house (stakeSee db)) (hs : s.status = .active)
    (ho : OpenedAs id s ks db h) (hw : walletIn wallets s.userId s.coin .personal = some w) {q : ℚ}
    {memo : String} {n : ℤ}
    (hf : Plan.Fresh ((referenced w q .stakeUnlock id "Stake" memo).entry n) ks db h) :
    (stakeSee db).part.stakeOf id = some s := by
  obtain ⟨s', hs', rfl | ⟨-, hn, hu, hc⟩⟩ := ho
  · exact hs'
  have hb := hi.book id
  rw [hs', hi.wallets, hi.house] at hb
  obtain ⟨-, -, w', h', hw', -, hl⟩ := hb
  rw [hu, hc] at hw'
  obtain rfl := Option.some.inj (hw.symm.trans hw')
  have hmem : (w, s'.principal, LedgerType.stakeUnlock) ∈ s'.lines w h' := by
    unfold Stake.lines
    cases hst : s'.status with
    | active => exact absurd hst hn
    | canceled => exact List.mem_cons_self
    | completed => exact List.mem_append_right _ List.mem_cons_self
  rw [← hl] at hmem
  obtain ⟨e, he, hline⟩ := List.mem_map.1 hmem
  obtain ⟨he, hid⟩ := List.mem_filter.1 he
  obtain ⟨he, hkind⟩ := List.mem_filter.1 he
  simp only [LedgerEntry.line, Prod.mk.injEq] at hline
  -- such an entry stands in the way of the new one
  have hrow : e ∈ (Key.row (X := stakeExt) (.core w) db).2 :=
    List.mem_filter.2 ⟨he, by simp [hline.1]⟩
  have hclash := List.any_eq_false.1 hf.2 e hrow
  refine absurd ?_ hclash
  simp only [beq_iff_eq] at hid hkind
  simp [LedgerEntry.clash, referenced, LedgerCreditInput.entry, hline.1, hline.2.2, hkind, hid]

/-! ## The steps of the operations -/

theorem learns_stakeHouse {f : StakeView → StakeView} (hf : ∀ v, (f v).part.house = v.part.house) :
    (stakePlan wallets house).Learns p f stakeHouse fun a => a = house :=
  Plan.learns_left (P := stakePlan wallets house) StakeStmt.findHouse (fun _ _ => rfl) hf
    fun _ _ h => h.house

theorem learns_stakeWallet {f : StakeView → StakeView} (hf : ∀ v, (f v).wallets = v.wallets)
    (userId : Uuid) (coin : Coin) :
    (stakePlan wallets house).Learns p f (stakeWallet userId coin)
      fun w => walletIn wallets userId coin .personal = some w := by
  refine (Plan.learns_walletOf (P := stakePlan wallets house) (fun _ _ h => h.wallets) hf userId coin
    .personal).bind fun w hw => ?_
  cases w with
  | none => exact .throw _
  | some w => exact .ret hw.symm

theorem aloof_stakeReward (s : Stake) : (stakePlan wallets house).Aloof p (stakeReward s) := by
  unfold stakeReward
  split
  · exact (Plan.aloof_invoke _ fun _ => trivial).bind fun _ => .ret _
  · exact .ret _

def OpenedRow (i : Uuid) : Option Stake → Plan.KeyAssertion stakeExt
  | some s => OpenedAs i s
  | none => fun _ _ _ => True

theorem keeps_openedRow (i : Uuid) (row : Option Stake) :
    (stakePlan wallets house).Keeps p (OpenedRow i row) := by
  cases row with
  | none => exact Plan.keeps_fact True
  | some s => exact keeps_opened i s

/-- The stake as it is opened. -/
theorem triple_openStake (userId i : Uuid) :
    (stakePlan wallets house).Keeping p (InTx p (Plan.Eff stakeFocus id fun _ _ _ => True))
      (openStake userId i)
      (outcome (fun s => InTx p (Plan.Eff stakeFocus id fun ks db h =>
        OpenedAs i s ks db h ∧ s.status = .active)) fun _ => InTx p fun _ _ _ _ => True) := by
  have read := Plan.triple_leftReading (P := stakePlan wallets house) (p := p) (ε := StakeError)
    (f := id) (φ := OpenedRow i) (StakeStmt.stake i) (fun _ _ => rfl) (fun _ => rfl) (Plan.keeps_fact True)
    (keeps_openedRow i) fun ks ks' db h hi _ => by
      show OpenedRow i ((stakeSee db).part.stakeOf i) _ _ _
      cases hs : (stakeSee db).part.stakeOf i with
      | none => exact trivial
      | some s => exact ⟨s, hs, .inl rfl⟩
  refine Protocol.Triple.bind read (fun row => ?_) fun _ _ _ h => h
  have refused (e : StakeError) : (stakePlan wallets house).Keeping p
      (InTx p (Plan.Eff stakeFocus id fun ks db h => True ∧ OpenedRow i row ks db h))
      (.throw e : Staking StakeError Stake)
      (outcome (fun s => InTx p (Plan.Eff stakeFocus id fun ks db h =>
        OpenedAs i s ks db h ∧ s.status = .active)) fun _ => InTx p fun _ _ _ _ => True) :=
    .throw fun _ _ ⟨t, ht, _⟩ => ⟨t, ht, trivial⟩
  cases row with
  | none => exact refused _
  | some s =>
    dsimp only
    split
    · exact refused _
    · split
      · exact refused _
      · rename_i hs
        exact .ret fun _ _ h => Plan.inTx_imp (fun _ _ _ h => ⟨h.2, not_not.1 hs⟩) h

/-- The update of a stake that is still as it was opened. -/
theorem triple_updateStake {A : Plan.KeyAssertion stakeExt} (hA : (stakePlan wallets house).Keeps p A)
    {f : StakeView → StakeView} (hf : ∀ v, (f v).part = v.part) {i : Uuid} {s : Stake}
    (hstill : ∀ ks db h, StakeInv wallets house (stakeSee db) → A ks db h →
      (stakeSee db).part.stakeOf i = some s) (u : StakeUpdate) :
    (stakePlan wallets house).Keeping p (InTx p (Plan.Eff stakeFocus f A))
      (stakeQuery (.updateStake i u) : Staking StakeError Unit)
      (outcome (fun _ => InTx p (Plan.Eff stakeFocus (putStake i (u.set s) ∘ f) A))
        fun _ => InTx p fun _ => A) := by
  have run : (stakePlan wallets house).Keeping p (InTx p (Plan.Eff stakeFocus f A))
      (stakeQuery (.updateStake i u) : Staking StakeError Unit)
      (outcome (fun _ c => ∃ _ : Unit, InTx p (Plan.Eff stakeFocus (putStake i (u.set s) ∘ f) A) c)
        fun _ => InTx p fun _ => A) := by
    refine Plan.triple_effect (ε := StakeError)
      (Stmt.ext (Sum.inl (StakeStmt.updateStake i u)) : Stmt stakeExt) (by rintro input ⟨⟩) hA
      (fun _ _ => hA) ?_
    intro ws ks db h a ws' hi hg he
    obtain ⟨ws₁, h₁, rfl⟩ := ext_eval_ok he
    obtain ⟨ws₂, h₂, rfl⟩ := Ext.sumEval_inl h₁
    have hs : (viewOf ws db).ext.1.stakeOf i = some s := by
      have hv : (viewOf ws db).ext.1 = (stakeSee db).part :=
        (congrArg RefView.part hg.see).trans (hf _)
      rw [hv]
      exact hstill ks db h hi hg.left
    refine ⟨(), ?_, hA.mono _ _ _ _ hg.left⟩
    obtain ⟨s', hs', rfl⟩ | ⟨hn, -⟩ := updateStake_ok (c := (viewOf ws db).core) h₂
    · obtain rfl := Option.some.inj (hs.symm.trans hs')
      rfl
    · rw [hs] at hn
      cases hn
  refine .conseq run (fun _ _ h => h) fun r _ _ h => ?_
  cases r with
  | ok _ =>
    obtain ⟨-, h⟩ := h
    exact h
  | error _ => exact h

/-- The commit of a stake's move, with the entries that go with it. -/
theorem triple_commitStake {A : Plan.KeyAssertion stakeExt} {f : StakeView → StakeView} {i : Uuid}
    {s : Stake} {added : List LedgerEntry} (hwallets : ∀ v, (f v).wallets = v.wallets)
    (hhouse : ∀ v, (f v).part.house = v.part.house)
    (hrow : ∀ v j, (f v).part.stakeOf j = if j = i then some s else v.part.stakeOf j)
    (hentries : ∀ v, (f v).entries = added ++ v.entries)
    (hadded : ∀ e ∈ added, e.referenceId = some i)
    (hok : ∀ ks db h, StakeInv wallets house (stakeSee db) → A ks db h →
      StakeKept wallets house i (some s) (added ++ (stakeSee db).entriesOf i))
    (hlater : ∀ ks db h s₀, StakeInv wallets house (stakeSee db) → A ks db h →
      (stakeSee db).part.stakeOf i = some s₀ → s₀.Later s)
    (hmat : ∀ ks db h, A ks db h → s.status = .completed → s.lockDays ≠ 0 →
      ∃ t : ℤ, .did p (.call (.inl .utcNow)) t ∈ h ∧ s.maturesAt ≤ t) :
    (stakePlan wallets house).Keeping p (InTx p (Plan.Eff stakeFocus f A))
      (commit : Staking StakeError Unit) (outcome (fun _ => Idle p fun _ _ => True)
        fun _ => Over fun _ _ => True) := by
  refine Plan.triple_commit Plan.knows_true.stable Plan.knows_true ?_ fun _ _ _ _ => trivial
  intro ks db h hi ha _
  exact ⟨⟨stakeInv_put hi (hwallets _) (hhouse _) (hrow _) (hentries _) hadded (hok ks db h hi ha),
    fun q _ => stakeRel_put (hrow _) (fun s₀ hs₀ => hlater ks db h s₀ hi ha hs₀) (hmat ks db h ha)⟩,
    fun _ _ => trivial⟩

/-! ## Ends of a stake -/

section
variable {i w : Uuid} {s : Stake} {l : List LedgerEntry} {e : LedgerEntry}
  (hs : s.status = .active) (hw : walletIn wallets s.userId s.coin .personal = some w)
  (hk : StakeKept wallets house i (some s) l) (he : e.line = (w, s.principal, .stakeUnlock))

include hs hw hk

/-- An active stake has its lock and no reward. -/
theorem lines_of_active : s.reward = 0 ∧ l.map LedgerEntry.line = [(w, -s.principal, .stakeLock)] := by
  obtain ⟨-, hr, w', h', hw', -, hl⟩ := hk
  obtain rfl := Option.some.inj (hw.symm.trans hw')
  refine ⟨hr (by rw [hs]; simp), ?_⟩
  rw [hl]
  simp [Stake.lines, hs]

include he

theorem stakeKept_cancel (now : ℤ) :
    StakeKept wallets house i (some ((StakeUpdate.cancel now).set s)) ([e] ++ l) := by
  obtain ⟨hr, hl⟩ := lines_of_active hs hw hk
  refine ⟨hr.ge, fun _ => hr, w, w, hw, fun h => absurd hr h, ?_⟩
  rw [List.map_append, hl, List.map_singleton, he]
  rfl

theorem stakeKept_unrewarded (now : ℤ) :
    StakeKept wallets house i (some ((StakeUpdate.complete now 0).set s)) ([e] ++ l) := by
  obtain ⟨hr, hl⟩ := lines_of_active hs hw hk
  refine ⟨le_refl _, fun h => absurd rfl h, w, w, hw, fun h => absurd rfl h, ?_⟩
  rw [List.map_append, hl, List.map_singleton, he]
  rfl

theorem stakeKept_rewarded (now : ℤ) {reward : ℤ} (hr : 0 < reward) {h : Uuid}
    (hh : house.bind (walletIn wallets · s.coin .house) = some h) {e₁ e₂ : LedgerEntry}
    (h₁ : e₁.line = (h, -reward, .stakeReward)) (h₂ : e₂.line = (w, reward, .stakeReward)) :
    StakeKept wallets house i (some ((StakeUpdate.complete now reward).set s)) ([e₂, e₁, e] ++ l) := by
  obtain ⟨-, hl⟩ := lines_of_active hs hw hk
  refine ⟨hr.le, fun h => absurd rfl h, w, h, hw, fun _ => hh, ?_⟩
  rw [List.map_append, hl, List.map_cons, List.map_cons, List.map_singleton, he, h₁, h₂]
  simp [Stake.lines, StakeUpdate.set, hr.ne']

end

theorem later_of_set {s s₀ : Stake} {db : StakeView} {i : Uuid} (hs : s.status = .active)
    (h : db.part.stakeOf i = some s) (h₀ : db.part.stakeOf i = some s₀) (u : StakeUpdate) :
    s₀.Later (u.set s) := by
  obtain rfl := Option.some.inj (h.symm.trans h₀)
  refine .inr ⟨hs, ?_, ?_, ?_⟩ <;> cases u <;> simp [StakeUpdate.set]

theorem triple_cancelStake (userId i : Uuid) :
    (stakePlan wallets house).Calm p (fun _ => True) (cancelStake userId i) := by
  have hT := Plan.keeps_fact (P := stakePlan wallets house) (p := p) True
  refine Plan.Calm.transaction Plan.knows_true ?_
  refine Plan.bind_left (Plan.triple_call hT (.inl .transactionTimestamp) fun _ => trivial)
    (fun (now : ℤ) => ?_) fun _ _ _ _ => trivial
  refine Plan.bind_left (Plan.aloof_left (StakeStmt.lockStake i)
    (fun c db a ws h => by cases List.mem_singleton.1 h; rfl) _ _ hT) (fun _ => ?_)
    fun _ _ _ _ => trivial
  refine Plan.bind_left (triple_openStake userId i) (fun s => Plan.of_fact fun hs => ?_)
    fun _ _ _ _ => trivial
  have hO := @keeps_opened wallets house p i s
  refine (learns_stakeWallet (fun _ => rfl) s.userId s.coin).over hO (fun _ _ _ _ => trivial)
    fun w hw => ?_
  refine Plan.bind_left (Plan.triple_rowEntry_fresh hO w s.principal .stakeUnlock i
    "Stake canceled early (no reward)") (fun _ => Protocol.Triple.of_exists fun n =>
      .of_pure fun hn => ?_) fun _ _ _ _ => trivial
  obtain rfl := numeric39_of_int rfl hn
  have hA := hO.and (Plan.keeps_fresh (P := stakePlan wallets house) (p := p)
    ((referenced w s.principal .stakeUnlock i "Stake" "Stake canceled early (no reward)").entry
      s.principal))
  refine Plan.bind_left (triple_updateStake hA (by intro v; rfl)
    (fun ks db h hi ha => stakeOf_of_fresh hi hs ha.1 hw ha.2) (.cancel now)) (fun _ => ?_)
    fun _ _ _ _ => trivial
  refine .conseq (triple_commitStake (by intro v; rfl) (by intro v; rfl)
    (by intro v j; exact stakeOf_put i _ _ j) (by intro v; exact (rfl : _ = [_] ++ v.entries))
    (by simp [referenced, LedgerCreditInput.entry])
    (fun ks db h hi ha => ?_) (fun ks db h s₀ hi ha hs₀ =>
      later_of_set hs (stakeOf_of_fresh hi hs ha.1 hw ha.2) hs₀ _) fun _ _ _ _ hc => by cases hc)
    (fun _ _ h => h) fun r _ _ h => match r with
      | .ok _ => h.2
      | .error _ => h
  have hb := hi.book i
  rw [stakeOf_of_fresh hi hs ha.1 hw ha.2, hi.wallets, hi.house] at hb
  exact stakeKept_cancel hs hw hb rfl now

/-! ## Claims -/

/-- `p` has read a clock at the stake's maturity or later, if the stake has a lock. -/
def SeenMature (p : Nat) (s : Stake) (h : StakeHist) : Prop :=
  s.lockDays ≠ 0 → ∃ t : ℤ, .did p (.call (.inl .utcNow)) t ∈ h ∧ s.maturesAt ≤ t

theorem knows_seenMature (s : Stake) : (stakePlan wallets house).Knows p (SeenMature p s) where
  stable := by
    rintro db h db' _ hk - ⟨l, rfl, -⟩ - hl
    obtain ⟨t, ht, hle⟩ := hk hl
    exact ⟨t, List.mem_append_right _ ht, hle⟩
  own _ _ _ _ _ hk hl := by
    obtain ⟨t, ht, hle⟩ := hk hl
    exact ⟨t, List.mem_cons_of_mem _ ht, hle⟩

theorem triple_checkMatured {A : Plan.KeyAssertion stakeExt} (hA : (stakePlan wallets house).Keeps p A)
    (s : Stake) : (stakePlan wallets house).Keeping p (InTx p (Plan.Eff stakeFocus id A))
      (checkMatured s) (outcome (fun _ => InTx p (Plan.Eff stakeFocus id fun ks db h =>
        A ks db h ∧ SeenMature p s h)) fun _ => InTx p fun _ => A) := by
  unfold checkMatured
  split
  · rename_i hf
    exact .ret fun _ _ h => Plan.inTx_imp (fun _ _ _ h => ⟨h, fun hl => absurd (by simpa [isFlexiblePlan] using hf) hl⟩) h
  · refine Protocol.Triple.bind (Plan.triple_call_seen hA (.inl .utcNow) fun _ => trivial)
      (fun (now : ℤ) => ?_) fun _ _ _ h => h
    dsimp only
    split
    · exact .throw fun _ _ ⟨t, ht, h⟩ => ⟨t, ht, h.left.1⟩
    · rename_i hle
      exact .ret fun _ _ h => Plan.inTx_imp (fun _ _ _ h => ⟨h.1, fun _ => ⟨now, h.2, not_lt.1 hle⟩⟩) h

structure Enters (i : Uuid) (added : List LedgerEntry) (f : StakeView → StakeView) : Prop where
  wallets : ∀ v, (f v).wallets = v.wallets
  part : ∀ v, (f v).part = v.part
  entries : ∀ v, (f v).entries = added ++ v.entries
  refs : ∀ e ∈ added, e.referenceId = some i

theorem Enters.add {i w : Uuid} {added : List LedgerEntry} {f : StakeView → StakeView}
    (hf : Enters i added f) {q : ℚ} {type : LedgerType} {memo : String} {n : ℤ} :
    Enters i ((referenced w q type i "Stake" memo).entry n :: added)
      (RefView.addEntry ((referenced w q type i "Stake" memo).entry n) ∘ f) where
  wallets := hf.wallets
  part := hf.part
  entries v := congrArg (_ :: ·) (hf.entries v)
  refs := by
    refine List.forall_mem_cons.2 ⟨rfl, hf.refs⟩

theorem enters_nil (i : Uuid) : Enters i [] id := ⟨fun _ => rfl, fun _ => rfl, fun _ => rfl, by simp⟩

abbrev unlockEntry (w i : Uuid) (s : Stake) : LedgerEntry :=
  (referenced w s.principal .stakeUnlock i "Stake" "Stake principal returned").entry s.principal

/-- While `p` claims a stake: it is as it was opened, and its unlock the first in the wallet. -/
abbrev Claiming (p : Nat) (i w : Uuid) (s : Stake) (ks : List (Key stakeExt)) (db : Db stakeExt)
    (h : StakeHist) : Prop :=
  (OpenedAs i s ks db h ∧ SeenMature p s h) ∧ Plan.Fresh (unlockEntry w i s) ks db h

section
variable {i w : Uuid} {s : Stake} (hs : s.status = .active)
  (hw : walletIn wallets s.userId s.coin .personal = some w)

theorem keeps_claiming : (stakePlan wallets house).Keeps p (Claiming p i w s) :=
  ((keeps_opened i s).and (Plan.keeps_of_framed (knows_seenMature s))).and (Plan.keeps_fresh _)

include hs hw

/-- The entries that complete a stake, whatever it had. -/
def Completes (wallets : Table Wallet) (house : Option Uuid) (i : Uuid) (s : Stake) (now : ℤ)
    (reward : ℕ) (added : List LedgerEntry) : Prop :=
  ∀ l, StakeKept wallets house i (some s) l →
    StakeKept wallets house i (some ((StakeUpdate.complete now reward).set s)) (added ++ l)

theorem triple_payReward (now : ℤ) (reward : ℕ) {f : StakeView → StakeView}
    (hf : Enters i [unlockEntry w i s] f) :
    (stakePlan wallets house).Keeping p (InTx p (Plan.Eff stakeFocus f (Claiming p i w s)))
      (payReward i w s reward) (outcome (fun _ c => ∃ f added, (Enters i added f ∧
        Completes wallets house i s now reward added) ∧
        InTx p (Plan.Eff stakeFocus f (Claiming p i w s)) c) fun _ => InTx p fun _ => Claiming p i w s) := by
  have hA := @keeps_claiming wallets house p i w s
  unfold payReward
  split
  · rename_i hr
    have hne : (reward : ℚ) ≠ 0 := by exact_mod_cast hr.ne'
    have houseWallet := Plan.learns_getHouseWalletId (P := stakePlan wallets house) (p := p) (f := f)
      (fun _ _ h => h.wallets) hf.wallets
      (learns_stakeHouse fun v => congrArg StakeDb.house (hf.part v)) s.coin
    refine Protocol.Triple.bind (Plan.triple_debitHouse hA houseWallet hne .stakeReward i (rewardMemo s))
      (fun _ => Protocol.Triple.of_exists fun h => Protocol.Triple.of_exists fun n =>
        .of_pure fun hh => .of_pure fun hn => ?_) fun _ _ _ h => h
    refine .conseq (Plan.triple_rowEntry hA w reward .stakeReward i (rewardMemo s))
      (fun _ _ h => h) fun r c _ h => ?_
    cases r with
    | error _ => exact h
    | ok _ =>
      obtain ⟨m, hm, h⟩ := h
      have hn' : n = -(reward : ℤ) := numeric39_of_int (by push_cast; rfl) hn
      have hm' : m = (reward : ℤ) := numeric39_of_int (by push_cast; rfl) hm
      subst hn' hm'
      exact ⟨_, _, ⟨hf.add.add, fun l hk => stakeKept_rewarded hs hw hk rfl now
        (by exact_mod_cast hr) hh rfl rfl⟩, h⟩
  · rename_i hr
    obtain rfl : reward = 0 := by omega
    exact .ret fun c _ h => ⟨f, _, ⟨hf, fun l hk => stakeKept_unrewarded hs hw hk rfl now⟩, h⟩

/-- From the update of the row on. -/
theorem triple_complete (now : ℤ) (reward : ℕ) {f : StakeView → StakeView} {added : List LedgerEntry}
    (hf : Enters i added f) (hc : Completes wallets house i s now reward added) (row : StakeRow) :
    (stakePlan wallets house).Keeping p (InTx p (Plan.Eff stakeFocus f (Claiming p i w s)))
      (stakeQuery (.updateStake i (.complete now reward)) >>= fun _ => commit >>= fun _ => pure row :
        Staking StakeError StakeRow) fun _ => Over fun _ _ => True := by
  have hA := @keeps_claiming wallets house p i w s
  have still : ∀ ks db h, StakeInv wallets house (stakeSee db) → Claiming p i w s ks db h →
      (stakeSee db).part.stakeOf i = some s := fun ks db h hi ha =>
    stakeOf_of_fresh hi hs ha.1.1 hw ha.2
  refine Plan.bind_left (triple_updateStake hA hf.part still (.complete now reward)) (fun _ => ?_)
    fun _ _ _ _ => trivial
  refine Protocol.Triple.bind (triple_commitStake (s := (StakeUpdate.complete now reward).set s)
    hf.wallets (fun v => ?_) (fun v j => ?_) hf.entries hf.refs (fun ks db h hi ha => ?_)
    (fun ks db h s₀ hi ha hs₀ => later_of_set hs (still ks db h hi ha) hs₀ _)
    fun ks db h ha _ => ha.1.2) (fun _ => .ret fun _ _ _ => trivial) fun _ _ _ h => h
  · show (f v).part.house = _
    rw [hf.part]
  · refine (stakeOf_put i _ (f v) j).trans ?_
    rw [show (f v).part.stakeOf j = v.part.stakeOf j by rw [hf.part]]
  · have hb := hi.book i
    rw [still ks db h hi ha, hi.wallets, hi.house] at hb
    exact hc _ hb

end

theorem triple_settleStake {i : Uuid} {s : Stake} (hs : s.status = .active) (now : ℤ) :
    (stakePlan wallets house).Keeping p (InTx p (Plan.Eff stakeFocus id (OpenedAs i s)))
      (settleStake now i s) fun _ => Over fun _ _ => True := by
  have hO := @keeps_opened wallets house p i s
  refine Plan.bind_left (triple_checkMatured hO s) (fun _ => ?_) fun _ _ _ _ => trivial
  have hM := hO.and (Plan.keeps_of_framed (@knows_seenMature wallets house p s))
  refine (learns_stakeWallet (fun _ => rfl) s.userId s.coin).over hM (fun _ _ _ _ => trivial)
    fun w hw => ?_
  refine Plan.bind_left (aloof_stakeReward s _ _ hM) (fun reward => ?_) fun _ _ _ _ => trivial
  refine Plan.bind_left (Plan.triple_rowEntry_fresh hM w s.principal .stakeUnlock i
    "Stake principal returned") (fun _ => Protocol.Triple.of_exists fun n =>
      .of_pure fun hn => ?_) fun _ _ _ _ => trivial
  obtain rfl := numeric39_of_int rfl hn
  refine Plan.bind_left (triple_payReward hs hw now reward (enters_nil i).add) (fun _ =>
    Protocol.Triple.of_exists fun f => Protocol.Triple.of_exists fun added =>
      .of_pure fun hf => ?_) fun _ _ _ _ => trivial
  exact triple_complete hs hw now reward hf.1 hf.2 _

theorem triple_claimStake (userId i : Uuid) :
    (stakePlan wallets house).Calm p (fun _ => True) (claimStake userId i) := by
  have hT := Plan.keeps_fact (P := stakePlan wallets house) (p := p) True
  refine Plan.Calm.transaction Plan.knows_true ?_
  refine Plan.bind_left (Plan.triple_call hT (.inl .transactionTimestamp) fun _ => trivial)
    (fun (now : ℤ) => ?_) fun _ _ _ _ => trivial
  refine Plan.bind_left (Plan.aloof_left (StakeStmt.lockStake i)
    (fun c db a ws h => by cases List.mem_singleton.1 h; rfl) _ _ hT) (fun _ => ?_)
    fun _ _ _ _ => trivial
  exact Plan.bind_left (triple_openStake userId i) (fun s => Plan.of_fact fun hs =>
    triple_settleStake hs now) fun _ _ _ _ => trivial

/-! ## New stakes -/

abbrev stakeKey (id : Uuid) : Key stakeExt := .ext (Sum.inl id)

/-- While the id is locked there is no other stake of it. -/
def Unstaked (id : Uuid) (ks : List (Key stakeExt)) (db : Db stakeExt) (_ : StakeHist) : Prop :=
  stakeKey id ∈ ks ∧ (stakeSee db).part.stakeOf id = none

theorem keeps_unstaked (id : Uuid) : (stakePlan wallets house).Keeps p (Unstaked id) :=
  Plan.keeps_row (stakeKey id) fun row => row = none

theorem triple_insertStake (i : Uuid) (s : Stake) :
    (stakePlan wallets house).Keeping p (InTx p (Plan.Eff stakeFocus id fun _ _ _ => True))
      (stakeQuery (.insertStake i s) : Staking StakeError Unit)
      (outcome (fun _ => InTx p (Plan.Eff stakeFocus (putStake i s) (Unstaked i)))
        fun _ => InTx p fun _ _ _ _ => True) := by
  have run : (stakePlan wallets house).Keeping p
      (InTx p (Plan.Eff stakeFocus id fun _ _ _ => True))
      (stakeQuery (.insertStake i s) : Staking StakeError Unit)
      (outcome (fun _ c => ∃ _ : Unit, InTx p (Plan.Eff stakeFocus (putStake i s ∘ id) (Unstaked i)) c)
        fun _ => InTx p fun _ _ _ _ => True) := by
    refine Plan.triple_effect (ε := StakeError)
      (Stmt.ext (Sum.inl (StakeStmt.insertStake i s)) : Stmt stakeExt) (by rintro input ⟨⟩)
      (Plan.keeps_fact True) (fun _ _ => keeps_unstaked i) ?_
    intro ws ks db h a ws' hi hg he
    obtain ⟨ws₁, h₁, rfl⟩ := ext_eval_ok he
    obtain ⟨ws₂, h₂, rfl⟩ := Ext.sumEval_inl h₁
    obtain ⟨hn, rfl⟩ := insertStake_ok (c := (viewOf ws db).core) h₂
    have hv : (viewOf ws db).ext.1.stakeOf i = (stakeSee db).part.stakeOf i :=
      congrArg (fun v : StakeView => v.part.stakeOf i) hg.see
    exact ⟨(), rfl, List.mem_append_right _ (List.mem_singleton_self _), hv.symm.trans hn⟩
  refine .conseq run (fun _ _ h => h) fun r _ _ h => ?_
  cases r with
  | ok _ =>
    obtain ⟨-, h⟩ := h
    exact h
  | error _ => exact h

/-- A stake that has just been made has its lock. -/
theorem stakeKept_new {i w : Uuid} {s : Stake} {e : LedgerEntry} (hs : s.status = .active)
    (hr : s.reward = 0) (hw : walletIn wallets s.userId s.coin .personal = some w)
    (he : e.line = (w, -s.principal, .stakeLock)) : StakeKept wallets house i (some s) ([e] ++ []) := by
  refine ⟨hr.ge, fun _ => hr, w, w, hw, fun h => absurd hr h, ?_⟩
  simp [Stake.lines, hs, he]

theorem triple_lockStake {i w : Uuid} {s : Stake} (hs : s.status = .active) (hr : s.reward = 0)
    (hw : walletIn wallets s.userId s.coin .personal = some w) {amount : ℚ}
    (ha : amount = ((-s.principal : ℤ) : ℚ)) (memo : String) {g : Unit → Staking StakeError StakeRow}
    (hg : (stakePlan wallets house).Calm p (fun _ => True) (g ())) :
    (stakePlan wallets house).Keeping p (InTx p (Plan.Eff stakeFocus (putStake i s) (Unstaked i)))
      ((applyLedgerEntry (referenced w amount .stakeLock i "Stake" memo)).mapErr .ledger >>=
        fun _ => commit >>= g) fun _ => Over fun _ _ => True := by
  have hA := @keeps_unstaked wallets house p i
  refine Plan.bind_left (Plan.triple_rowEntry hA w amount .stakeLock i memo) (fun _ =>
    Protocol.Triple.of_exists fun n => .of_pure fun hn => ?_) fun _ _ _ _ => trivial
  obtain rfl := numeric39_of_int ha hn
  refine Protocol.Triple.bind (triple_commitStake (by intro v; rfl) (by intro v; rfl)
    (by intro v j; exact stakeOf_put i _ v j) (by intro v; exact (rfl : _ = [_] ++ v.entries))
    (by simp [referenced, LedgerCreditInput.entry]) (fun ks db h hi hn => ?_)
    (fun ks db h s₀ _ hn hs₀ => ?_) fun ks db h _ hc => ?_)
    (fun _ => .conseq hg (fun _ _ h => h) fun _ _ _ h => h.2) fun _ _ _ h => h
  · have hb := hi.book i
    rw [hn.2] at hb
    rw [show (stakeSee db).entriesOf i = [] from hb]
    exact stakeKept_new hs hr hw rfl
  · rw [hn.2] at hs₀
    cases hs₀
  · rw [hs] at hc
    cases hc

theorem triple_createStake (userId : Uuid) (coin : Coin) (amount lockDays : ℕ) :
    (stakePlan wallets house).Calm p (fun _ => True) (createStake userId coin amount lockDays) := by
  unfold createStake
  have hT := Plan.keeps_fact (P := stakePlan wallets house) (p := p) True
  split
  · exact .throw _
  · rename_i plan _
    refine Plan.Calm.transaction Plan.knows_true ?_
    refine Plan.bind_left (Plan.triple_call hT (.inl .transactionTimestamp) fun _ => trivial)
      (fun (startedAt : ℤ) => ?_) fun _ _ _ _ => trivial
    refine (learns_stakeWallet (fun _ => rfl) userId coin).over hT (fun _ _ _ _ => trivial)
      fun w hw => ?_
    refine Plan.bind_left (Plan.triple_call hT (.inl .utcNow) fun _ => trivial)
      (fun (now : ℤ) => ?_) fun _ _ _ _ => trivial
    refine Plan.bind_left (Plan.triple_call hT (.inl .newStakeId) fun _ => trivial)
      (fun (i : Uuid) => ?_) fun _ _ _ _ => trivial
    refine Plan.bind_left (triple_insertStake i _) (fun _ => ?_) fun _ _ _ _ => trivial
    exact triple_lockStake rfl rfl hw (by push_cast; rfl) _
      ((Plan.calm_invoke Plan.knows_true _ fun _ => trivial).bind fun _ => .ret _)

theorem triple_serveStake (req : StakeRequest) :
    (stakePlan wallets house).Calm p (fun _ => True) (serveStake req) := by
  have work : (stakePlan wallets house).Calm p (fun _ => True) req.work := by
    cases req with
    | create userId coin amount lockDays =>
      exact (triple_createStake userId coin amount lockDays).bind fun _ => .ret _
    | claim userId i => exact (triple_claimStake userId i).bind fun _ => .ret _
    | cancel userId i => exact (triple_cancelStake userId i).bind fun _ => .ret _
  exact work.attempt.bind fun _ =>
    (Plan.calm_invoke Plan.knows_true _ fun _ => trivial).bind fun _ => .ret _

end

/-! ## Requests that fail -/

section

abbrev StakeTentative {ε α : Type} (c : Staking ε α) : Prop :=
  Tentative (S := satsPay stakeExt) stakeFails (fun _ => False) c

abbrev StakeAtomic {α : Type} (c : Staking StakeError α) : Prop :=
  Atomic (S := satsPay stakeExt) stakeFails (fun _ => False) c

theorem tentative_stakeCall {ε : Type} {c : StakeCall} (hc : ¬ stakeFails (.inl c)) :
    StakeTentative (stakeCall c : Staking ε _) := .invoke hc

theorem tentative_entry (input : LedgerCreditInput) :
    StakeTentative ((applyLedgerEntry input).mapErr StakeError.ledger) :=
  (tentative_applyLedgerEntry _).mapErr _

theorem tentative_stakeWallet (userId : Uuid) (coin : Coin) :
    StakeTentative (stakeWallet userId coin) := by
  refine .bind (tentative_core _) fun w => ?_
  cases w with
  | none => exact .throw _
  | some w => exact .ret _

theorem tentative_openStake (userId i : Uuid) : StakeTentative (openStake userId i) := by
  refine .bind (.query _) fun row => ?_
  cases row with
  | none => exact .throw _
  | some s =>
    dsimp only
    split
    · exact .throw _
    · split
      · exact .throw _
      · exact .ret _

theorem tentative_checkMatured (s : Stake) : StakeTentative (checkMatured s) := by
  unfold checkMatured
  split
  · exact .ret _
  · refine .bind (tentative_stakeCall fun h => h) fun (now : ℤ) => ?_
    dsimp only
    split
    · exact .throw _
    · exact .ret _

theorem tentative_stakeReward (s : Stake) : StakeTentative (stakeReward s) := by
  unfold stakeReward
  split
  · exact .bind (tentative_stakeCall fun h => h) fun _ => .ret _
  · exact .ret _

theorem tentative_payReward (i w : Uuid) (s : Stake) (reward : ℕ) :
    StakeTentative (payReward i w s reward) := by
  unfold payReward
  split
  · exact .bind ((tentative_debitHouse (.query _) _ _ _ _ _ _).mapErr _) fun _ => tentative_entry _
  · exact .ret _

theorem atomic_createStake (userId : Uuid) (coin : Coin) (amount lockDays : ℕ) :
    StakeAtomic (createStake userId coin amount lockDays) := by
  unfold createStake
  split
  · exact .throw _
  · refine .transaction (.bind (tentative_stakeCall fun h => h) fun _ => ?_)
    refine .bind (tentative_stakeWallet _ _) fun _ => .bind (tentative_stakeCall fun h => h) fun _ => ?_
    refine .bind (tentative_stakeCall fun h => h) fun _ => .bind (.query _) fun _ => ?_
    exact .bind (tentative_entry _) fun _ => Atomic.map_call (fun h => h) _ .commit

theorem atomic_claimStake (userId i : Uuid) : StakeAtomic (claimStake userId i) := by
  refine .transaction (.bind (tentative_stakeCall fun h => h) fun _ => .bind (.query _) fun _ => ?_)
  refine .bind (tentative_openStake _ _) fun s => .bind (tentative_checkMatured s) fun _ => ?_
  refine .bind (tentative_stakeWallet _ _) fun w => .bind (tentative_stakeReward s) fun r => ?_
  refine .bind (tentative_entry _) fun _ => .bind (tentative_payReward i w s r) fun _ => ?_
  exact .bind (.query _) fun _ => .commit_then _

theorem atomic_cancelStake (userId i : Uuid) : StakeAtomic (cancelStake userId i) := by
  refine .transaction (.bind (tentative_stakeCall fun h => h) fun _ => .bind (.query _) fun _ => ?_)
  refine .bind (tentative_openStake _ _) fun s => .bind (tentative_stakeWallet _ _) fun w => ?_
  exact .bind (tentative_entry _) fun _ => .bind (.query _) fun _ => .commit

theorem atomic_stakeWork : ∀ req : StakeRequest, StakeAtomic req.work
  | .create .. => (atomic_createStake _ _ _ _).map _
  | .claim .. => (atomic_claimStake _ _).map _
  | .cancel .. => (atomic_cancelStake _ _).map _

end

/-! ## The runs -/

section
variable {db : Db stakeExt} {w w' : World (machine (satsPay stakeExt))}

theorem serves_stakes (wallets : Table Wallet) (house : Option Uuid) (c : Staking Empty Unit)
    (hc : StakeProcess c) (p : Nat) : (stakePlan wallets house).Keeping p (Idle p (Unborn p)) c
      fun _ => Over ((stakePlan wallets house).rows.done p) := by
  obtain ⟨req, rfl⟩ := hc
  exact .conseq (triple_serveStake req) (fun _ _ h => ⟨h.1, trivial⟩) fun _ _ _ _ => trivial

theorem stakeInv_of_run (hb : StakeBook (stakeSee db)) (hw : StakeRun db w) :
    StakeInv db.core.wallets db.ext.1.house (stakeSee w.conf.s.db) :=
  RowProtocol.inv_of_steps (R := (stakePlan db.core.wallets db.ext.1.house).rows)
    (serves_stakes _ _) ⟨rfl, rfl, hb⟩ hw

theorem stakeRel_of_steps (hb : StakeBook (stakeSee db)) (hw : StakeRun db w) (hs : StakeSteps w w') :
    StakeRel (stakeSee w.conf.s.db) w.conf.hist (stakeSee w'.conf.s.db) w'.conf.hist :=
  RowProtocol.rel_of_steps (R := (stakePlan db.core.wallets db.ext.1.house).rows)
    (serves_stakes _ _) ⟨rfl, rfl, hb⟩
    (T := fun db h db' h' => StakeRel (stakeSee db) h (stakeSee db') h')
    (fun _ _ _ _ _ h => h.2) (fun _ _ => stakeRel_of_eq rfl [])
    (fun _ _ _ _ _ _ => StakeRel.trans) hw hs

/-- In one step, it is the step that is the commit. -/
theorem matured_step {h : StakeHist} {e : StakeEvent} {t : ℤ} (hm : Matured h (e :: h) t) :
    ∃ p, ∃ now : ℤ, e = .did p .commit (.ok ()) ∧
      .did p (.call (.inl .utcNow)) now ∈ h ∧ t ≤ now := by
  obtain ⟨newer, p, mid, now, heq, hm, hle⟩ := hm
  have hlen := congrArg List.length heq
  simp only [List.length_append, List.length_cons] at hlen
  obtain rfl : newer = [] := List.length_eq_zero_iff.1 (by omega)
  obtain rfl : mid = [] := List.length_eq_zero_iff.1 (by omega)
  exact ⟨p, now, (List.cons.inj heq).1, hm, hle⟩

theorem not_matured_self {h : StakeHist} {t : ℤ} : ¬ Matured h h t := by
  rintro ⟨newer, p, mid, now, heq, -⟩
  have hlen := congrArg List.length heq
  simp only [List.length_append, List.length_cons] at hlen
  omega

theorem lockNet_of_book {v : StakeView} (hv : StakeBook v) {i : Uuid} {s : Stake}
    (hs : v.part.stakeOf i = some s) : lockNet ((v.entriesOf i).map LedgerEntry.line) =
      if s.status = .active then -s.principal else 0 := by
  have hb := hv i
  rw [hs] at hb
  obtain ⟨-, -, w, h, -, -, hl⟩ := hb
  rw [hl]
  exact lockNet_lines w h s

end

/-- The locks and unlocks of a stake sum to minus its principal while it is active, to
nothing afterwards, and its reward is paid by the house once and when it is mature. -/
theorem stakeLaw_of_book {db : Db stakeExt} (hb : StakeBook (stakeSee db)) : StakeLaw db where
  book w hw := (stakeInv_of_run hb hw).book
  net w i s hw hs := lockNet_of_book (stakeInv_of_run hb hw).book hs
  terminal w w' i s hw hs hi hn := by
    obtain ⟨s', hs', rfl | ⟨ha, -⟩⟩ := (stakeRel_of_steps hb hw hs).kept i s hi
    · exact hs'
    · exact absurd ha hn
  matured w w' i s hw hs hi hc hl := by
    rcases (stakeRel_of_steps hb hw (.single hs)).matured i s hi hc hl with h | hm
    · exact .inl h
    · rcases hist_of_step hs with he | ⟨e, he⟩
      · rw [he] at hm
        exact absurd hm not_matured_self
      · rw [he] at hm
        obtain ⟨p, now, rfl, hmem, hle⟩ := matured_step hm
        exact .inr ⟨p, now, he, hmem, hle⟩
  failed := by
    have hmain : ∀ c, StakeProcess c →
        c.Heeds (ReadCommitted.Orderly (S := satsPay stakeExt) stakeFails fun _ => False) [] := by
      rintro c ⟨req, rfl⟩
      exact heeds_request (atomic_stakeWork req) fun _ h => h
    exact failedAside hmain fun _ _ _ _ h => h.elim

def stakeStart : Db stakeExt where
  core := {
    now := 0
    wallets := ((∅ : Table Wallet).insert 1 ⟨1, .btc, .personal, none⟩).insert 2
      ⟨9, .btc, .house, none⟩
    ledger := [⟨1, 100, .adjustment, none, none, none, none⟩, ⟨2, 5, .adjustment, none, none, none, none⟩]
    jobs := ∅
    outbox := []
    auditLogs := [] }
  ext := (⟨∅, some 9⟩, ())

def stakeReplies (now : ℤ) : (c : stakeExt.Call) → stakeExt.Reply c
  | .inl .utcNow => now
  | .inl .transactionTimestamp => now
  | .inl .newStakeId => (7 : ℕ)
  | .inl (.answer _) => ()

def stakeRunner : Runner (satsPay stakeExt) where
  bound := 2
  progs := [serveStake (.create 1 .btc 50 0), serveStake (.claim 1 7)]
  tick := Db.wait
  allow _ _ := true

def stakeScript : List (Act (satsPay stakeExt)) :=
  let reply p now : Act (satsPay stakeExt) := .op p (.answer (stakeReplies now))
  [.start 0 0, .op 0 (.go 0), reply 0 0] ++ proceed 0 1 ++ [reply 0 0, reply 0 0] ++ proceed 0 6 ++
    [reply 0 0] ++ proceed 0 1 ++ [reply 0 0, .finish 0, .start 1 1, .op 1 (.go 0), reply 1 (days 365)] ++
    proceed 1 3 ++ [reply 1 (days 365)] ++ proceed 1 15 ++ [reply 1 (days 365), .finish 1]

theorem stakeLaw_flexible : StakeLaw stakeStart ∧ ∃ w, StakeRun stakeStart w ∧
    (w.conf.s.db.ext.1.stakeOf 7).map (fun s => (s.status, s.reward)) = some (.completed, 1) := by
  refine ⟨stakeLaw_of_book fun _ => rfl, ?_⟩
  have hrun : (stakeRunner.run stakeScript (.init _ (.start stakeStart))).map
      (fun w => (w.conf.s.db.ext.1.stakeOf 7).map fun s => (s.status, s.reward)) =
        some (some (.completed, 1)) := by
    decide +kernel
  obtain ⟨w, hw, hl⟩ := Option.map_eq_some_iff.1 hrun
  refine ⟨w, Runner.steps_of_run (R := stakeRunner) ?_ Db.tick_wait (fun _ _ _ => trivial)
    (fun _ _ => rfl) hw, hl⟩
  simp only [stakeRunner, List.forall_mem_cons]
  exact ⟨⟨_, rfl⟩, ⟨_, rfl⟩, by simp⟩

end SatsPay
