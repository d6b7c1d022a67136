import SatsPay.ReadCommitted

/-!
# One program alone

What a program can do when no other process runs: the rules build one of its runs
operation by operation, for inputs that need not be concrete.
-/

namespace ReadCommitted

open Interleave

variable {S : Schema}

/-- Process 0 can end with `r` in a state that meets `B`. -/
def May {ε α : Type} (A : State S → Prop) (x : Code S ε α) (r : Except ε α) (B : State S → Prop) :
    Prop :=
  ∀ s, A s → ∃ s', Prog.Runs (Exec 0) x s r s' ∧ B s'

def Alone (db : S.Db) (s : State S) : Prop := s = .start db

/-- In its transaction, with these writes to commit. -/
def AloneInTx (db : S.Db) (ws : List S.Write) (s : State S) : Prop :=
  ∃ ks, s = (State.start db).setTx 0 (some ⟨ws, ks, false⟩)

theorem setTx_setTx (s : State S) (p : Nat) (t u : Option (Tx S)) :
    (s.setTx p t).setTx p u = s.setTx p u := by
  simp [State.setTx]

theorem setTx_start (db : S.Db) (p : Nat) : (State.start db).setTx p none = .start db := by
  simp [State.setTx, State.start]

theorem free_start (db : S.Db) (own : Option Nat) (ks : List S.Key) :
    (State.start db).free own ks := by
  intro q t _ ht
  cases ht

theorem free_setTx (db : S.Db) (ks : List S.Key) (t : Option (Tx S)) :
    ((State.start db).setTx 0 t).free (some 0) ks := by
  intro q u hq hu
  have hne : q ≠ 0 := by
    rintro rfl
    exact hq rfl
  rw [State.setTx_ne _ hne] at hu
  cases hu

section
variable {ε ε' α β : Type} {A B C : State S → Prop} {db : S.Db} {ws : List S.Write}

theorem may_ret (a : α) : May A (.ret a : Code S ε α) (.ok a) A := fun s hs => ⟨s, .ret a s, hs⟩

theorem May.bind {x : Code S ε α} {f : α → Code S ε β} {a : α} {r : Except ε β}
    (hx : May A x (.ok a) B) (hf : May B (f a) r C) : May A (x >>= f) r C := by
  intro s hs
  obtain ⟨s₁, h₁, hB⟩ := hx s hs
  obtain ⟨s₂, h₂, hC⟩ := hf s₁ hB
  exact ⟨s₂, .bind_ok h₁ h₂, hC⟩

theorem May.attempt {x : Code S ε α} {r : Except ε α} (h : May A x r B) :
    May A (x.attempt : Code S ε' _) (.ok r) B := by
  intro s hs
  obtain ⟨s', hx, hB⟩ := h s hs
  exact ⟨s', hx.attempt, hB⟩

theorem May.mapErr {x : Code S ε α} {a : α} (f : ε → ε') (h : May A x (.ok a) B) :
    May A (x.mapErr f) (.ok a) B := by
  intro s hs
  obtain ⟨s', hx, hB⟩ := h s hs
  exact ⟨s', hx.mapErr f, hB⟩

theorem may_call (c : S.Call) (r : S.Reply c) : May A (invoke c : Code S ε _) (.ok r) A :=
  fun s hs => ⟨s, .op (.call s c r) (.ret _ _), hs⟩

variable [FromErr S.Err ε]

theorem may_query {st : S.Stmt} {a : S.Ans st} {ws' : List S.Write}
    (he : .ok (a, ws') ∈ S.eval st (applyAll ws db)) :
    May (AloneInTx db ws) (query st : Code S ε _) (.ok a) (AloneInTx db (ws ++ ws')) := by
  rintro _ ⟨ks, rfl⟩
  have hx := Exec.tx_ok (p := 0) ((State.start db).setTx 0 (some ⟨ws, ks, false⟩)) st _ a ws'
    (State.setTx_self _ _ _) rfl (free_setTx db _ _) he
  rw [setTx_setTx] at hx
  exact ⟨_, .op hx (.ret _ _), _, rfl⟩

theorem may_pool {st : S.Stmt} {a : S.Ans st} {ws' : List S.Write}
    (he : .ok (a, ws') ∈ S.eval st db) :
    May (Alone db) (poolQuery st : Code S ε _) (.ok a) (Alone (applyAll ws' db)) := by
  rintro _ rfl
  exact ⟨_, .op (.pool_ok _ st a ws' (free_start _ _ _) he) (.ret _ _), rfl⟩

theorem may_commit :
    May (AloneInTx db ws) (commit : Code S ε Unit) (.ok ()) (Alone (applyAll ws db)) := by
  rintro _ ⟨ks, rfl⟩
  refine ⟨_, .op (.commit_ok _ _ (State.setTx_self _ _ _)) (.ret _ _), ?_⟩
  rw [setTx_setTx, setTx_start]
  rfl

/-- A transaction whose body commits. -/
theorem may_transaction {db' : S.Db} {body : Code S ε α} {a : α}
    (h : May (AloneInTx db []) body (.ok a) (Alone db')) :
    May (Alone db) (transaction body) (.ok a) (Alone db') := by
  have hbegin : May (Alone db) (beginTx : Code S ε Unit) (.ok ()) (AloneInTx db []) := by
    rintro _ rfl
    exact ⟨_, .op (.begin_ok _ rfl) (.ret _ _), [], rfl⟩
  have hrollback : May (Alone db') (rollback : Code S ε Unit) (.ok ()) (Alone db') := by
    rintro _ rfl
    exact ⟨_, .op (.rollback _) (.ret _ _), setTx_start _ _⟩
  exact hbegin.bind (h.attempt.bind (hrollback.bind (may_ret a)))

end

/-! ## What a program alone has done -/

/-- In a transaction that sees `v`. -/
def Sees (v : S.Db) (s : State S) : Prop := ∃ db ws, AloneInTx db ws s ∧ applyAll ws db = v

section
variable {ε α : Type} {db : S.Db} {s s' : State S}
variable {exec : (o : Op S) → State S → Op.Resp S o → State S → Prop}
  (hexec : ∀ {o s a s'}, exec o s a s' → Exec 0 o s a s')

theorem runs_call {c : S.Call} {r : S.Reply c}
    (h : Prog.Runs exec (invoke c : Code S ε _) s (.ok r) s') : exec (.call c) s r s' := by
  cases h with
  | op h hk => cases hk; exact h

include hexec

theorem runs_invoke {c : S.Call} {r : S.Reply c}
    (h : Prog.Runs exec (invoke c : Code S ε _) s (.ok r) s') : s' = s := by
  have h' := hexec (runs_call h)
  cases h'
  rfl

variable [FromErr S.Err ε]

/-- A statement of the transaction, from what it sees to what it leaves to be seen. -/
theorem runs_query {st : S.Stmt} {a : S.Ans st} {v : S.Db} (hs : Sees v s)
    (h : Prog.Runs exec (query st : Code S ε _) s (.ok a) s') :
    ∃ ws, .ok (a, ws) ∈ S.eval st v ∧ Sees (applyAll ws v) s' := by
  obtain ⟨db, ws, ⟨ks, rfl⟩, rfl⟩ := hs
  cases h with
  | @op _ _ _ _ _ b _ h hk =>
    cases b with
    | error e => cases hk
    | ok b =>
      cases hk
      have h' := hexec h
      cases h' with
      | tx_ok _ _ t _ ws' ht _ _ he =>
        obtain rfl := Option.some.inj ((State.setTx_self _ _ _).symm.trans ht)
        exact ⟨ws', he, db, ws ++ ws', ⟨_, setTx_setTx _ _ _ _⟩, applyAll_append _ _ _⟩

theorem runs_commit {v : S.Db} (hs : Sees v s)
    (h : Prog.Runs exec (commit : Code S ε Unit) s (.ok ()) s') : s' = .start v := by
  obtain ⟨db, ws, ⟨ks, rfl⟩, rfl⟩ := hs
  cases h with
  | @op _ _ _ _ _ b _ h hk =>
    cases b with
    | error e => cases hk
    | ok b =>
      cases hk
      have h' := hexec h
      cases h' with
      | commit_ok _ t ht =>
        obtain rfl := Option.some.inj ((State.setTx_self _ _ _).symm.trans ht)
        rw [setTx_setTx, setTx_start]
        rfl

theorem runs_beginTx (h : Prog.Runs exec (beginTx : Code S ε Unit) (.start db) (.ok ()) s') :
    Sees db s' := by
  cases h with
  | @op _ _ _ _ _ b _ h hk =>
    cases b with
    | error e => cases hk
    | ok b =>
      cases hk
      have h' := hexec h
      cases h' with
      | begin_ok _ _ => exact ⟨db, [], ⟨[], rfl⟩, rfl⟩

/-- A transaction that ends with a result: its body has, and what the body leaves open
is dropped. -/
theorem runs_transaction {body : Code S ε α} {a : α}
    (h : Prog.Runs exec (transaction body) (.start db) (.ok a) s') :
    ∃ s₁ s₂, Sees db s₁ ∧ Prog.Runs exec body s₁ (.ok a) s₂ ∧ s' = s₂.setTx 0 none := by
  obtain ⟨_, s₁, hb, h⟩ := h.of_bind
  obtain ⟨r, s₂, hbody, h⟩ := h.of_bind
  obtain ⟨_, s₃, hr, h⟩ := h.of_bind
  obtain ⟨_, ⟨⟩, hbody⟩ := hbody.of_attempt
  have h₁ : Sees db s₁ := runs_beginTx hexec hb
  have h₃ : s₃ = s₂.setTx 0 none := by
    cases hr with
    | op hr hk =>
      cases hk
      have hr' := hexec hr
      cases hr'
      rfl
  cases r with
  | error e => cases h
  | ok b =>
    cases h
    exact ⟨s₁, s₂, h₁, hbody, h₃⟩

end

end ReadCommitted
