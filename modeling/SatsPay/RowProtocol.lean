import SatsPay.ReadCommitted

/-!
# Protocols for transactions that keep to row locks

Row locks are exclusive, and a transaction that writes only what it has locked
leaves the rows of the others alone: `RowProtocol` adds to these two facts an
invariant of the committed store and of the history, and `RowProtocol.toProtocol`
makes a protocol of it. The rules below are for the operations of a session.
-/

namespace ReadCommitted

open Interleave

section
variable (S : Schema)

/-- `h'` goes on from `h`, and no event of it is `p`'s. -/
def Ext (p : Nat) (h h' : Hist (sig S)) : Prop := ∃ l, h' = l ++ h ∧ ∀ e ∈ l, e.pid ≠ some p

structure RowProtocol (cond : S.Db → Hist (sig S) → Event (sig S) → Prop) where
  inv : S.Db → Hist (sig S) → Prop
  /-- What a process may rely on beside its locks. -/
  rel : Nat → S.Db → Hist (sig S) → S.Db → Hist (sig S) → Prop
  done : Nat → S.Db → Hist (sig S) → Prop
  /-- Events that change nothing of the invariant. -/
  quiet : Event (sig S) → Prop
  rel_refl (p : Nat) (db : S.Db) (h : Hist (sig S)) : rel p db h db h
  rel_trans (p : Nat) {db₁ db₂ db₃ : S.Db} {h₁ h₂ h₃ : Hist (sig S)} :
    rel p db₁ h₁ db₂ h₂ → rel p db₂ h₂ db₃ h₃ → rel p db₁ h₁ db₃ h₃
  quiet_begin (p : Nat) (r : Except S.Err Unit) : quiet (.did p .begin r)
  quiet_rollback (p : Nat) : quiet (.did p .rollback ())
  quiet_tx (p : Nat) (st : S.Stmt) (r : Except S.Err (S.Ans st)) : quiet (.did p (.tx st) r)
  quiet_commit (p : Nat) (e : S.Err) : quiet (.did p .commit (.error e))
  inv_quiet {db : S.Db} {h : Hist (sig S)} {e : Event (sig S)} : quiet e → inv db h →
    inv db (e :: h)
  rel_quiet {db : S.Db} {h : Hist (sig S)} {e : Event (sig S)} {q : Nat} : quiet e → inv db h →
    e.pid ≠ some q → rel q db h db (e :: h)
  finish {p : Nat} {db : S.Db} {h : Hist (sig S)} : inv db h → done p db h →
    cond db h (.ended p) → inv db (.ended p :: h) ∧ ∀ q, q ≠ p → rel q db h db (.ended p :: h)
  crash {p : Nat} {db : S.Db} {h : Hist (sig S)} : inv db h → cond db h (.crashed p) →
    inv db (.crashed p :: h) ∧ ∀ q, q ≠ p → rel q db h db (.crashed p :: h)
  env {db db' : S.Db} {h : Hist (sig S)} : inv db h → S.tick db db' → cond db h .ticked →
    inv db' (.ticked :: h) ∧ ∀ q, rel q db h db' (.ticked :: h)

end

variable {S : Schema} {cond : S.Db → Hist (sig S) → Event (sig S) → Prop}

theorem Ext.refl (p : Nat) (h : Hist (sig S)) : Ext S p h h := ⟨[], rfl, by simp⟩

theorem Ext.trans {p : Nat} {h₁ h₂ h₃ : Hist (sig S)} :
    Ext S p h₁ h₂ → Ext S p h₂ h₃ → Ext S p h₁ h₃ := by
  rintro ⟨l, rfl, hl⟩ ⟨l', rfl, hl'⟩
  refine ⟨l' ++ l, by simp, fun e he => ?_⟩
  rcases List.mem_append.1 he with he | he
  · exact hl' e he
  · exact hl e he

theorem Ext.cons {p : Nat} (h : Hist (sig S)) {e : Event (sig S)} (he : e.pid ≠ some p) :
    Ext S p h (e :: h) := ⟨[e], rfl, by simpa using he⟩

/-- Locks are exclusive, and a transaction has locked what it writes. -/
structure Locked (s : State S) : Prop where
  exclusive : ∀ p q t u, p ≠ q → s.tx p = some t → s.tx q = some u → ∀ k ∈ t.locks, k ∉ u.locks
  covered : ∀ p t, s.tx p = some t → ∀ w ∈ t.writes, ∀ k ∈ S.touches w, k ∈ t.locks

theorem locked_setTx {s : State S} (h : Locked s) (p : Nat) {t : Option (Tx S)}
    (hx : ∀ u, t = some u → (∀ q v, q ≠ p → s.tx q = some v → ∀ k ∈ u.locks, k ∉ v.locks) ∧
      ∀ w ∈ u.writes, ∀ k ∈ S.touches w, k ∈ u.locks) : Locked (s.setTx p t) where
  exclusive q r u v hne hu hv k hk hk' := by
    by_cases hq : q = p
    · subst hq
      rw [State.setTx_self] at hu
      rw [State.setTx_ne _ (Ne.symm hne)] at hv
      exact (hx u hu).1 r v (Ne.symm hne) hv k hk hk'
    · rw [State.setTx_ne _ hq] at hu
      by_cases hr : r = p
      · subst hr
        rw [State.setTx_self] at hv
        exact (hx v hv).1 q u hq hu k hk' hk
      · rw [State.setTx_ne _ hr] at hv
        exact h.exclusive q r u v hne hu hv k hk hk'
  covered q u hu := by
    by_cases hq : q = p
    · subst hq
      rw [State.setTx_self] at hu
      exact (hx u hu).2
    · rw [State.setTx_ne _ hq] at hu
      exact h.covered q u hu

theorem locked_start (db : S.Db) : Locked (State.start db) :=
  ⟨fun _ _ _ _ _ h => (nomatch h), fun _ _ h => (nomatch h)⟩

theorem locked_db {s : State S} (h : Locked s) (db : S.Db) : Locked { s with db := db } :=
  ⟨h.exclusive, h.covered⟩

namespace RowProtocol

variable (R : RowProtocol S cond)

/-- What `p` may rely on: its transaction, the rows it has locked, its own
history, and `rel`. -/
structure Rely (p : Nat) (c c' : Conf (machine S)) : Prop where
  tx : c'.s.tx p = c.s.tx p
  rows : ∀ t, c.s.tx p = some t → ∀ k ∈ t.locks, S.row k c'.s.db = S.row k c.s.db
  ext : Ext S p c.hist c'.hist
  rel : R.rel p c.s.db c.hist c'.s.db c'.hist

/-- A step of `p` that leaves the store alone. -/
theorem rely_same {p q : Nat} (hq : q ≠ p) {c : Conf (machine S)} {s : State S}
    {e : Event (sig S)} (he : e.pid = some p ∨ e.pid = none) (hdb : s.db = c.s.db)
    (htx : s.tx q = c.s.tx q) (hr : R.rel q c.s.db c.hist c.s.db (e :: c.hist)) :
    R.Rely q c (c.push s e) where
  tx := htx
  rows _ _ k _ := congrArg (S.row k) hdb
  ext := .cons _ (by rcases he with he | he <;> simp [he, Ne.symm hq])
  rel := by rw [← hdb] at hr ⊢; exact hr

def toProtocol : Protocol (machine S) fun c e => cond c.s.db c.hist e where
  Inv c := Locked c.s ∧ R.inv c.s.db c.hist
  Rely := R.Rely
  Fresh p c := c.s.tx p = none ∧ ∀ e ∈ c.hist, e.pid ≠ some p
  Done p c := R.done p c.s.db c.hist
  refl p c := ⟨rfl, fun _ _ _ _ => rfl, .refl _ _, R.rel_refl _ _ _⟩
  trans p a b c h₁ h₂ :=
    ⟨h₂.tx.trans h₁.tx, fun t ht k hk =>
      (h₂.rows t (h₁.tx.trans ht) k hk).trans (h₁.rows t ht k hk), h₁.ext.trans h₂.ext,
      R.rel_trans _ h₁.rel h₂.rel⟩
  fresh_rely := by
    rintro p c c' ⟨htx, hh⟩ hr -
    refine ⟨hr.tx.trans htx, fun e he => ?_⟩
    obtain ⟨l, hl, hp⟩ := hr.ext
    rw [hl] at he
    rcases List.mem_append.1 he with he | he
    · exact hp e he
    · exact hh e he
  finish := by
    rintro p c ⟨hl, hi⟩ hd hc
    obtain ⟨h₁, h₂⟩ := R.finish hi hd hc
    exact ⟨⟨locked_setTx hl p (by simp), h₁⟩, fun q hq =>
      R.rely_same hq (.inl rfl) rfl (State.setTx_ne _ hq _) (h₂ q hq)⟩
  crash := by
    rintro p c ⟨hl, hi⟩ hc
    obtain ⟨h₁, h₂⟩ := R.crash hi hc
    exact ⟨⟨locked_setTx hl p (by simp), h₁⟩, fun q hq =>
      R.rely_same hq (.inl rfl) rfl (State.setTx_ne _ hq _) (h₂ q hq)⟩
  env := by
    rintro c s ⟨hl, hi⟩ ⟨ht, htx⟩ hc
    obtain ⟨h₁, h₂⟩ := R.env hi ht hc
    refine ⟨⟨⟨?_, ?_⟩, h₁⟩, fun q => ⟨congrFun htx q, fun _ _ k _ => S.row_tick _ _ _ ht,
      .cons _ (by simp), h₂ q⟩⟩
    · simp only [Conf.push, htx]; exact hl.exclusive
    · simp only [Conf.push, htx]; exact hl.covered

variable {R}

/-! ## Assertions -/

def Stable (R : RowProtocol S cond) (p : Nat) (A : S.Db → Hist (sig S) → Prop) : Prop :=
  ∀ db h db' h', A db h → R.rel p db h db' h' → Ext S p h h' → R.inv db' h' → A db' h'

structure Framed (R : RowProtocol S cond) (p : Nat) (A : S.Db → Hist (sig S) → Prop) :
    Prop where
  stable : R.Stable p A
  own : ∀ db h e, R.quiet e → e.pid = some p → A db h → A db (e :: h)

/-- An assertion on the writes and the locks of `p`'s transaction, whose rows others leave
alone. -/
def StableTx (R : RowProtocol S cond) (p : Nat)
    (G : List S.Write → List S.Key → S.Db → Hist (sig S) → Prop) : Prop :=
  ∀ ws ks db h db' h', G ws ks db h → (∀ k ∈ ks, S.row k db' = S.row k db) →
    R.rel p db h db' h' → Ext S p h h' → R.inv db' h' → G ws ks db' h'

structure FramedTx (R : RowProtocol S cond) (p : Nat)
    (G : List S.Write → List S.Key → S.Db → Hist (sig S) → Prop) : Prop where
  stable : R.StableTx p G
  own : ∀ ws ks db h e, R.quiet e → e.pid = some p → G ws ks db h → G ws ks db (e :: h)

def Idle (p : Nat) (A : S.Db → Hist (sig S) → Prop) (c : Conf (machine S)) : Prop :=
  c.s.tx p = none ∧ A c.s.db c.hist

def InTx (p : Nat) (G : List S.Write → List S.Key → S.Db → Hist (sig S) → Prop)
    (c : Conf (machine S)) : Prop :=
  ∃ t, c.s.tx p = some t ∧ G t.writes t.locks c.s.db c.hist

/-- Whatever `p`'s transaction. -/
def Over (A : S.Db → Hist (sig S) → Prop) (c : Conf (machine S)) : Prop := A c.s.db c.hist

def outcome {ε α : Type} (B : α → Conf (machine S) → Prop) (E : ε → Conf (machine S) → Prop) :
    Except ε α → Conf (machine S) → Prop
  | .ok a => B a
  | .error e => E e

section
variable {p : Nat} {A B : S.Db → Hist (sig S) → Prop}
variable {G : List S.Write → List S.Key → S.Db → Hist (sig S) → Prop}

theorem stable_true : R.Stable p fun _ _ => True := fun _ _ _ _ _ _ _ _ => trivial
theorem framed_true : R.Framed p fun _ _ => True := ⟨stable_true, fun _ _ _ _ _ _ => trivial⟩

theorem Stable.and (hA : R.Stable p A) (hB : R.Stable p B) :
    R.Stable p fun db h => A db h ∧ B db h :=
  fun _ _ _ _ ⟨a, b⟩ hr he hi => ⟨hA _ _ _ _ a hr he hi, hB _ _ _ _ b hr he hi⟩

theorem Framed.and (hA : R.Framed p A) (hB : R.Framed p B) :
    R.Framed p fun db h => A db h ∧ B db h :=
  ⟨hA.stable.and hB.stable, fun _ _ _ hq he ⟨a, b⟩ => ⟨hA.own _ _ _ hq he a, hB.own _ _ _ hq he b⟩⟩

theorem Framed.inTx (hA : R.Framed p A) : R.FramedTx p fun _ _ => A :=
  ⟨fun _ _ _ _ _ _ h _ hr he hi => hA.stable _ _ _ _ h hr he hi, fun _ _ => hA.own⟩

theorem over_of_inTx {c : Conf (machine S)} (h : InTx p (fun _ _ => A) c) : Over A c := by
  obtain ⟨_, _, h⟩ := h; exact h

theorem stable_idle (hA : R.Stable p A) {c c' : Conf (machine S)} (hr : R.Rely p c c')
    (hi : R.toProtocol.Inv c') (htx : c.s.tx p = none) (h : A c.s.db c.hist) : Idle p A c' :=
  ⟨hr.tx.trans htx, hA _ _ _ _ h hr.rel hr.ext hi.2⟩

theorem stable_inTx (hG : R.StableTx p G) {c c' : Conf (machine S)} (hr : R.Rely p c c')
    (hi : R.toProtocol.Inv c') {t : Tx S} (ht : c.s.tx p = some t)
    (hg : G t.writes t.locks c.s.db c.hist) : InTx p G c' :=
  ⟨t, hr.tx.trans ht, hG _ _ _ _ _ _ hg (hr.rows t ht) hr.rel hr.ext hi.2⟩

theorem stable_over (hA : R.Stable p A) {c c' : Conf (machine S)} (hr : R.Rely p c c')
    (hi : R.toProtocol.Inv c') (h : A c.s.db c.hist) : Over A c' :=
  hA _ _ _ _ h hr.rel hr.ext hi.2

end

/-! ## What a step does -/

section
variable {p : Nat} {c : Conf (machine S)} {s : State S}

/-- A quiet step of `p` that leaves the store alone. -/
theorem step_quiet {t : Option (Tx S)} {e : Event (sig S)} (hi : R.toProtocol.Inv c)
    (hq : R.quiet e) (he : e.pid = some p) (hl : Locked (c.s.setTx p t)) :
    R.toProtocol.Inv (c.push (c.s.setTx p t) e) ∧
    ∀ q, q ≠ p → R.Rely q c (c.push (c.s.setTx p t) e) :=
  ⟨⟨hl, R.inv_quiet hq hi.2⟩, fun _ hne => R.rely_same hne (.inl he) rfl (State.setTx_ne _ hne _)
    (R.rel_quiet hq hi.2 (by simp [he, Ne.symm hne]))⟩

theorem locked_abort (hi : R.toProtocol.Inv c) {t : Tx S} (ht : c.s.tx p = some t) :
    Locked (c.s.setTx p (some t.abort)) := by
  refine locked_setTx hi.1 p ?_
  rintro _ ⟨⟩
  exact ⟨fun q v hne hv => hi.1.exclusive p q t v (Ne.symm hne) ht hv, by simp [Tx.abort]⟩

theorem step_begin {r : Except S.Err Unit} (hi : R.toProtocol.Inv c)
    (hx : Exec p .begin c.s r s) :
    (R.toProtocol.Inv (c.push s (.did p .begin r)) ∧
      ∀ q, q ≠ p → R.Rely q c (c.push s (.did p .begin r))) ∧
    s.db = c.s.db ∧ c.s.tx p = none ∧
    ((r = .ok () ∧ s.tx p = some ⟨[], [], false⟩) ∨ (r = .error S.io ∧ s.tx p = none)) := by
  cases hx with
  | begin_ok _ h =>
    exact ⟨step_quiet hi (R.quiet_begin p _) rfl (locked_setTx hi.1 p (by rintro _ ⟨⟩; simp)), rfl, h,
      .inl ⟨rfl, State.setTx_self _ _ _⟩⟩
  | begin_fail _ h =>
    have hq := R.quiet_begin p (.error S.io)
    exact ⟨⟨⟨hi.1, R.inv_quiet hq hi.2⟩, fun q hne => R.rely_same hne (.inl rfl) rfl rfl
      (R.rel_quiet hq hi.2 (by simp [Ne.symm hne]))⟩, rfl, h, .inr ⟨rfl, h⟩⟩

theorem step_rollback (hi : R.toProtocol.Inv c) (hx : Exec p .rollback c.s () s) :
    (R.toProtocol.Inv (c.push s (.did p .rollback ())) ∧
      ∀ q, q ≠ p → R.Rely q c (c.push s (.did p .rollback ()))) ∧
    s.db = c.s.db ∧ s.tx p = none := by
  cases hx
  exact ⟨step_quiet hi (R.quiet_rollback p) rfl (locked_setTx hi.1 p (by simp)), rfl,
    State.setTx_self _ _ _⟩

theorem step_query {st : S.Stmt} {r : Except S.Err (S.Ans st)} (hi : R.toProtocol.Inv c)
    (hx : Exec p (.tx st) c.s r s)
    (hcov : ∀ t a ws, c.s.tx p = some t → Except.ok (a, ws) ∈ S.eval st (applyAll t.writes c.s.db) →
      ∀ w ∈ ws, ∀ k ∈ S.touches w, k ∈ t.locks ++ S.locks st (applyAll t.writes c.s.db)) :
    (R.toProtocol.Inv (c.push s (.did p (.tx st) r)) ∧
      ∀ q, q ≠ p → R.Rely q c (c.push s (.did p (.tx st) r))) ∧
    s.db = c.s.db ∧ ∃ t, c.s.tx p = some t ∧
      ((∃ a ws, r = .ok a ∧ Except.ok (a, ws) ∈ S.eval st (applyAll t.writes c.s.db) ∧
        s.tx p = some ⟨t.writes ++ ws, t.locks ++ S.locks st (applyAll t.writes c.s.db), false⟩) ∨
      ∃ e, r = .error e ∧ (Except.error e ∈ S.eval st (applyAll t.writes c.s.db) ∨ e = S.io) ∧
        s.tx p = some t.abort) := by
  cases hx with
  | tx_ok _ _ t a ws ht ha hf he =>
    refine ⟨step_quiet hi (R.quiet_tx p st _) rfl (locked_setTx hi.1 p ?_), rfl, t, ht,
      .inl ⟨a, ws, rfl, he, State.setTx_self _ _ _⟩⟩
    rintro _ ⟨⟩
    refine ⟨fun q v hne hv k hk => ?_, fun w hw k hk => ?_⟩
    · rcases List.mem_append.1 hk with hk | hk
      · exact hi.1.exclusive p q t v (Ne.symm hne) ht hv k hk
      · exact hf q v (by simpa using hne) hv k hk
    · rcases List.mem_append.1 hw with hw | hw
      · exact List.mem_append_left _ (hi.1.covered p t ht w hw k hk)
      · exact hcov t a ws ht he w hw k hk
  | tx_error _ _ t e ht ha hf he =>
    exact ⟨step_quiet hi (R.quiet_tx p st _) rfl (locked_abort hi ht), rfl, t, ht,
      .inr ⟨e, rfl, .inl he, State.setTx_self _ _ _⟩⟩
  | tx_fail _ _ t ht =>
    exact ⟨step_quiet hi (R.quiet_tx p st _) rfl (locked_abort hi ht), rfl, t, ht,
      .inr ⟨_, rfl, .inr rfl, State.setTx_self _ _ _⟩⟩

theorem step_commit {r : Except S.Err Unit} (hi : R.toProtocol.Inv c)
    (hx : Exec p .commit c.s r s)
    (hok : ∀ t, c.s.tx p = some t → r = .ok () →
      R.inv (applyAll t.writes c.s.db) (.did p .commit (.ok ()) :: c.hist) ∧
      ∀ q, q ≠ p → R.rel q c.s.db c.hist (applyAll t.writes c.s.db)
        (.did p .commit (.ok ()) :: c.hist)) :
    (R.toProtocol.Inv (c.push s (.did p .commit r)) ∧
      ∀ q, q ≠ p → R.Rely q c (c.push s (.did p .commit r))) ∧
    s.tx p = none ∧ ∃ t, c.s.tx p = some t ∧
      ((r = .ok () ∧ s.db = applyAll t.writes c.s.db) ∨ (r = .error S.io ∧ s.db = c.s.db)) := by
  cases hx with
  | commit_ok _ t ht =>
    obtain ⟨h₁, h₂⟩ := hok t ht rfl
    refine ⟨⟨⟨locked_db (locked_setTx hi.1 p (t := none) (by simp)) _, h₁⟩, fun q hne => ?_⟩,
      State.setTx_self _ _ _, t, ht, .inl ⟨rfl, rfl⟩⟩
    -- a row that another holds is none of those this transaction wrote
    exact ⟨State.setTx_ne _ hne _, fun v hv k hk => row_applyAll fun w hw hk' =>
      hi.1.exclusive q p v t hne hv ht k hk (hi.1.covered p t ht w hw k hk'),
      .cons _ (by simp [Ne.symm hne]), h₂ q hne⟩
  | commit_fail _ t ht =>
    exact ⟨step_quiet hi (R.quiet_commit p S.io) rfl (locked_setTx hi.1 p (t := none) (by simp)),
      State.setTx_self _ _ _, t, ht, .inr ⟨rfl, rfl⟩⟩

theorem step_pool {st : S.Stmt} {r : Except S.Err (S.Ans st)} (hi : R.toProtocol.Inv c)
    (hx : Exec p (.pool st) c.s r s)
    (hok : ∀ a ws, r = .ok a → Except.ok (a, ws) ∈ S.eval st c.s.db →
      (∀ w ∈ ws, ∀ k ∈ S.touches w, k ∈ S.locks st c.s.db) ∧
      R.inv (applyAll ws c.s.db) (.did p (.pool st) (.ok a) :: c.hist) ∧
      ∀ q, q ≠ p → R.rel q c.s.db c.hist (applyAll ws c.s.db) (.did p (.pool st) (.ok a) :: c.hist))
    (herr : ∀ e, r = .error e → Except.error e ∈ S.eval st c.s.db ∨ e = S.io →
      R.inv c.s.db (.did p (.pool st) (.error e) :: c.hist) ∧
      ∀ q, q ≠ p → R.rel q c.s.db c.hist c.s.db (.did p (.pool st) (.error e) :: c.hist)) :
    (R.toProtocol.Inv (c.push s (.did p (.pool st) r)) ∧
      ∀ q, q ≠ p → R.Rely q c (c.push s (.did p (.pool st) r))) ∧
    s.tx = c.s.tx ∧
    (∀ q t, c.s.tx q = some t → ∀ k ∈ t.locks, S.row k s.db = S.row k c.s.db) ∧
      ((∃ a ws, r = .ok a ∧ Except.ok (a, ws) ∈ S.eval st c.s.db ∧ s.db = applyAll ws c.s.db) ∨
      ∃ e, r = .error e ∧ (Except.error e ∈ S.eval st c.s.db ∨ e = S.io) ∧ s.db = c.s.db) := by
  cases hx with
  | pool_ok _ _ a ws hf he =>
    obtain ⟨hcov, h₁, h₂⟩ := hok a ws rfl he
    have hrow : ∀ q t, c.s.tx q = some t → ∀ k ∈ t.locks,
        S.row k (applyAll ws c.s.db) = S.row k c.s.db :=
      fun q t ht k hk => row_applyAll fun w hw hk' => hf q t (by simp) ht k (hcov w hw k hk') hk
    exact ⟨⟨⟨locked_db hi.1 _, h₁⟩, fun q hne => ⟨rfl, hrow q, .cons _ (by simp [Ne.symm hne]),
      h₂ q hne⟩⟩, rfl, hrow, .inl ⟨a, ws, rfl, he, rfl⟩⟩
  | pool_error _ _ e hf he =>
    obtain ⟨h₁, h₂⟩ := herr e rfl (.inl he)
    exact ⟨⟨⟨hi.1, h₁⟩, fun q hne => R.rely_same hne (.inl rfl) rfl rfl (h₂ q hne)⟩, rfl,
      fun _ _ _ _ _ => rfl, .inr ⟨e, rfl, .inl he, rfl⟩⟩
  | pool_fail _ _ =>
    obtain ⟨h₁, h₂⟩ := herr _ rfl (.inr rfl)
    exact ⟨⟨⟨hi.1, h₁⟩, fun q hne => R.rely_same hne (.inl rfl) rfl rfl (h₂ q hne)⟩, rfl,
      fun _ _ _ _ _ => rfl, .inr ⟨_, rfl, .inr rfl, rfl⟩⟩

theorem step_call {cl : S.Call} {r : S.Reply cl} (hi : R.toProtocol.Inv c)
    (hx : Exec p (.call cl) c.s r s)
    (hok : R.inv c.s.db (.did p (.call cl) r :: c.hist) ∧
      ∀ q, q ≠ p → R.rel q c.s.db c.hist c.s.db (.did p (.call cl) r :: c.hist)) :
    (R.toProtocol.Inv (c.push s (.did p (.call cl) r)) ∧
      ∀ q, q ≠ p → R.Rely q c (c.push s (.did p (.call cl) r))) ∧ s = c.s := by
  cases hx
  exact ⟨⟨⟨hi.1, hok.1⟩, fun q hne => R.rely_same hne (.inl rfl) rfl rfl (hok.2 q hne)⟩, rfl⟩

end

/-! ## Rules -/

section
variable {p : Nat} {ε α : Type}

theorem triple_rollback {A : S.Db → Hist (sig S) → Prop} (hA : R.Framed p A) :
    R.toProtocol.Triple p (Over A) (rollback : Code S ε Unit)
      (outcome (fun _ => Idle p A) fun _ _ => False) := by
  rintro c hi ha ⟨⟩ s hx -
  obtain ⟨⟨h₁, h₂⟩, hdb, htx⟩ := step_rollback hi hx
  refine ⟨h₁, h₂, fun c' hr hi' => stable_idle hA.stable hr hi' htx ?_⟩
  show A s.db _
  rw [hdb]; exact hA.own _ _ _ (R.quiet_rollback p) rfl ha

/-- A call made while a transaction is open. -/
theorem triple_invokeTx (cl : S.Call)
    {G : List S.Write → List S.Key → S.Db → Hist (sig S) → Prop}
    {H : S.Reply cl → List S.Write → List S.Key → S.Db → Hist (sig S) → Prop}
    (hG : ∀ r, R.StableTx p (H r))
    (hok : ∀ ws ks db h r, R.inv db h → G ws ks db h → cond db h (.did p (.call cl) r) →
      (R.inv db (.did p (.call cl) r :: h) ∧
        ∀ q, q ≠ p → R.rel q db h db (.did p (.call cl) r :: h)) ∧
      H r ws ks db (.did p (.call cl) r :: h)) :
    R.toProtocol.Triple p (InTx p G) (invoke cl : Code S ε _)
      (outcome (fun r => InTx p (H r)) fun _ _ => False) := by
  rintro c hi ⟨t, ht, hg⟩ r s hx hc
  obtain ⟨h₁, h₂⟩ := hok _ _ _ _ r hi.2 hg hc
  obtain ⟨⟨h₃, h₄⟩, rfl⟩ := step_call hi hx h₁
  exact ⟨h₃, h₄, fun c' hr hi' => stable_inTx (hG _) hr hi' ht h₂⟩

theorem triple_invoke (cl : S.Call) {A : S.Db → Hist (sig S) → Prop}
    {B : S.Reply cl → S.Db → Hist (sig S) → Prop} (hB : ∀ r, R.Stable p (B r))
    (hok : ∀ db h r, R.inv db h → A db h → cond db h (.did p (.call cl) r) →
      (R.inv db (.did p (.call cl) r :: h) ∧
        ∀ q, q ≠ p → R.rel q db h db (.did p (.call cl) r :: h)) ∧
      B r db (.did p (.call cl) r :: h)) :
    R.toProtocol.Triple p (Idle p A) (invoke cl : Code S ε _)
      (outcome (fun r => Idle p (B r)) fun _ _ => False) := by
  rintro c hi ⟨htx, ha⟩ r s hx hc
  obtain ⟨h₁, h₂⟩ := hok _ _ r hi.2 ha hc
  obtain ⟨⟨h₃, h₄⟩, rfl⟩ := step_call hi hx h₁
  exact ⟨h₃, h₄, fun c' hr hi' => stable_idle (hB _) hr hi' htx h₂⟩

variable [FromErr S.Err ε]

theorem triple_begin {A E : S.Db → Hist (sig S) → Prop}
    {G : List S.Write → List S.Key → S.Db → Hist (sig S) → Prop} (hA : R.Framed p A)
    (hG : R.StableTx p G) (hE : R.Stable p E) (hAG : ∀ db h, A db h → G [] [] db h)
    (hAE : ∀ db h, A db h → E db h) :
    R.toProtocol.Triple p (Idle p A) (beginTx : Code S ε Unit)
      (outcome (fun _ => InTx p G) fun _ => Idle p E) := by
  rintro c hi ⟨htx, ha⟩ r s hx -
  have ha' := hA.own _ _ _ (R.quiet_begin p r) rfl ha
  obtain ⟨⟨h₁, h₂⟩, hdb, -, ⟨rfl, ht⟩ | ⟨rfl, ht⟩⟩ := step_begin hi hx <;>
    refine ⟨h₁, h₂, fun c' hr hi' => ?_⟩
  · refine stable_inTx hG hr hi' ht ?_
    show G [] [] s.db _
    rw [hdb]; exact hAG _ _ ha'
  · refine stable_idle hE hr hi' ht ?_
    show E s.db _
    rw [hdb]; exact hAE _ _ ha'

/-- A statement of the transaction, where what follows may speak of the event itself. -/
theorem triple_query' (st : S.Stmt)
    {G : List S.Write → List S.Key → S.Db → Hist (sig S) → Prop}
    {H : S.Ans st → List S.Write → List S.Key → S.Db → Hist (sig S) → Prop}
    {E : ε → List S.Write → List S.Key → S.Db → Hist (sig S) → Prop} (hG : ∀ a, R.StableTx p (H a))
    (hE : ∀ e, R.StableTx p (E e))
    (hok : ∀ ws ks db h a ws', R.inv db h → G ws ks db h →
      Except.ok (a, ws') ∈ S.eval st (applyAll ws db) →
      (∀ w ∈ ws', ∀ k ∈ S.touches w, k ∈ ks ++ S.locks st (applyAll ws db)) ∧
      H a (ws ++ ws') (ks ++ S.locks st (applyAll ws db)) db (.did p (.tx st) (.ok a) :: h))
    (herr : ∀ ws ks db h e, R.inv db h → G ws ks db h →
      Except.error e ∈ S.eval st (applyAll ws db) ∨ e = S.io →
      E (FromErr.conv e) [] ks db (.did p (.tx st) (.error e) :: h)) :
    R.toProtocol.Triple p (InTx p G) (query st : Code S ε _)
      (outcome (fun a => InTx p (H a)) fun e => InTx p (E e)) := by
  rintro c hi ⟨t, ht, hg⟩ r s hx -
  have hcov : ∀ u a ws, c.s.tx p = some u → Except.ok (a, ws) ∈ S.eval st (applyAll u.writes c.s.db) →
      ∀ w ∈ ws, ∀ k ∈ S.touches w, k ∈ u.locks ++ S.locks st (applyAll u.writes c.s.db) := by
    intro u a ws hu he
    obtain rfl : u = t := Option.some.inj (hu.symm.trans ht)
    exact (hok _ _ _ _ _ _ hi.2 hg he).1
  obtain ⟨⟨h₁, h₂⟩, hdb, u, hu, ⟨a, ws, rfl, he, hs⟩ | ⟨e, rfl, he, hs⟩⟩ := step_query hi hx hcov <;>
    obtain rfl : u = t := Option.some.inj (hu.symm.trans ht) <;>
    refine ⟨h₁, h₂, fun c' hr hi' => ?_⟩
  · refine stable_inTx (hG a) hr hi' hs ?_
    show H a (u.writes ++ ws) (u.locks ++ _) s.db _
    rw [hdb]; exact (hok _ _ _ _ _ _ hi.2 hg he).2
  · refine stable_inTx (hE _) hr hi' hs ?_
    show E _ [] u.locks s.db _
    rw [hdb]; exact herr _ _ _ _ e hi.2 hg he

theorem triple_query (st : S.Stmt)
    {G : List S.Write → List S.Key → S.Db → Hist (sig S) → Prop}
    {H : S.Ans st → List S.Write → List S.Key → S.Db → Hist (sig S) → Prop}
    {E : ε → List S.Write → List S.Key → S.Db → Hist (sig S) → Prop} (hG : ∀ a, R.FramedTx p (H a))
    (hE : ∀ e, R.FramedTx p (E e))
    (hok : ∀ ws ks db h a ws', R.inv db h → G ws ks db h →
      Except.ok (a, ws') ∈ S.eval st (applyAll ws db) →
      (∀ w ∈ ws', ∀ k ∈ S.touches w, k ∈ ks ++ S.locks st (applyAll ws db)) ∧
      H a (ws ++ ws') (ks ++ S.locks st (applyAll ws db)) db h)
    (herr : ∀ ws ks db h e, R.inv db h → G ws ks db h →
      Except.error e ∈ S.eval st (applyAll ws db) ∨ e = S.io → E (FromErr.conv e) [] ks db h) :
    R.toProtocol.Triple p (InTx p G) (query st : Code S ε _) (outcome (fun a => InTx p (H a)) fun e => InTx p (E e)) :=
  triple_query' st (fun a => (hG a).stable) (fun e => (hE e).stable)
    (fun ws ks db h a ws' hi hg he => by
      obtain ⟨h₁, h₂⟩ := hok ws ks db h a ws' hi hg he
      exact ⟨h₁, (hG a).own _ _ _ _ _ (R.quiet_tx p st _) rfl h₂⟩)
    fun ws ks db h e hi hg he => (hE _).own _ _ _ _ _ (R.quiet_tx p st _) rfl (herr ws ks db h e hi hg he)

/-- What a statement makes true of the history, beside what is known of it. -/
theorem triple_query_hist {st : S.Stmt} {A : Conf (machine S) → Prop}
    {Q : Except ε (S.Ans st) → Conf (machine S) → Prop} {T : S.Ans st → Hist (sig S) → Prop}
    (h : R.toProtocol.Triple p A (query st) Q)
    (hT : ∀ c a, A c → T a (.did p (.tx st) (.ok a) :: c.hist))
    (hs : ∀ a l l', T a l → Ext S p l l' → T a l') :
    R.toProtocol.Triple p A (query st)
      (fun r c => Q r c ∧ ∀ a, r = .ok a → T a c.hist) := by
  intro c hi ha r s hx hc
  obtain ⟨h₁, h₂, h₃⟩ := h c hi ha r s hx hc
  refine ⟨h₁, h₂, fun c' hr hi' => ?_⟩
  have hq := h₃ c' hr hi'
  cases r with
  | error e =>
    refine ⟨hq, ?_⟩
    rintro a ⟨⟩
  | ok a =>
    refine ⟨hq, ?_⟩
    rintro _ ⟨⟩
    exact hs a _ _ (hT c a ha) hr.ext

/-- A statement that only reads. -/
theorem triple_read (st : S.Stmt)
    {G : List S.Write → List S.Key → S.Db → Hist (sig S) → Prop}
    {H : S.Ans st → List S.Write → List S.Key → S.Db → Hist (sig S) → Prop}
    {E : ε → List S.Write → List S.Key → S.Db → Hist (sig S) → Prop} (hG : ∀ a, R.FramedTx p (H a))
    (hE : ∀ e, R.FramedTx p (E e)) (hl : ∀ db, S.locks st db = [])
    (hw : ∀ db a ws, Except.ok (a, ws) ∈ S.eval st db → ws = [])
    (hok : ∀ ws ks db h a, R.inv db h → G ws ks db h →
      Except.ok (a, []) ∈ S.eval st (applyAll ws db) → H a ws ks db h)
    (herr : ∀ ws ks db h e, R.inv db h → G ws ks db h →
      Except.error e ∈ S.eval st (applyAll ws db) ∨ e = S.io → E (FromErr.conv e) [] ks db h) :
    R.toProtocol.Triple p (InTx p G) (query st : Code S ε _)
      (outcome (fun a => InTx p (H a)) fun e => InTx p (E e)) :=
  triple_query st hG hE (fun ws ks db h a ws' hi hg he => by
    obtain rfl := hw _ _ _ he
    rw [hl, List.append_nil, List.append_nil]
    exact ⟨by simp, hok ws ks db h a hi hg he⟩) herr

theorem triple_commit {G : List S.Write → List S.Key → S.Db → Hist (sig S) → Prop}
    {B : S.Db → Hist (sig S) → Prop} {E : ε → S.Db → Hist (sig S) → Prop}
    (hB : R.Stable p B) (hE : ∀ e, R.Framed p (E e))
    (hok : ∀ ws ks db h, R.inv db h → G ws ks db h → cond db h (.did p .commit (.ok ())) →
      (R.inv (applyAll ws db) (.did p .commit (.ok ()) :: h) ∧
        ∀ q, q ≠ p → R.rel q db h (applyAll ws db) (.did p .commit (.ok ()) :: h)) ∧
      B (applyAll ws db) (.did p .commit (.ok ()) :: h))
    (herr : ∀ ws ks db h, R.inv db h → G ws ks db h → E (FromErr.conv S.io) db h) :
    R.toProtocol.Triple p (InTx p G) (commit : Code S ε Unit)
      (outcome (fun _ => Idle p B) fun e => Over (E e)) := by
  rintro c hi ⟨t, ht, hg⟩ r s hx hc
  have hgo : r = .ok () → _ := fun hr => hok _ _ _ _ hi.2 hg (hr ▸ hc)
  obtain ⟨⟨h₁, h₂⟩, htx, u, hu, ⟨rfl, hdb⟩ | ⟨rfl, hdb⟩⟩ := step_commit hi hx fun u hu hr => by
      obtain rfl : u = t := Option.some.inj (hu.symm.trans ht)
      exact (hgo hr).1
  all_goals
    obtain rfl : u = t := Option.some.inj (hu.symm.trans ht)
    refine ⟨h₁, h₂, fun c' hr hi' => ?_⟩
  · refine stable_idle hB hr hi' htx ?_
    show B s.db _
    rw [hdb]; exact (hgo rfl).2
  · refine stable_over (hE _).stable hr hi' ?_
    show E _ s.db _
    rw [hdb]; exact (hE _).own _ _ _ (R.quiet_commit p S.io) rfl (herr _ _ _ _ hi.2 hg)

theorem triple_poolQuery (st : S.Stmt) {A : S.Db → Hist (sig S) → Prop}
    {B : S.Ans st → S.Db → Hist (sig S) → Prop} {E : ε → S.Db → Hist (sig S) → Prop}
    (hB : ∀ a, R.Stable p (B a)) (hE : ∀ e, R.Stable p (E e))
    (hok : ∀ db h a ws, R.inv db h → A db h → Except.ok (a, ws) ∈ S.eval st db →
      cond db h (.did p (.pool st) (.ok a)) →
      ((∀ w ∈ ws, ∀ k ∈ S.touches w, k ∈ S.locks st db) ∧
        R.inv (applyAll ws db) (.did p (.pool st) (.ok a) :: h) ∧
        ∀ q, q ≠ p → R.rel q db h (applyAll ws db) (.did p (.pool st) (.ok a) :: h)) ∧
      B a (applyAll ws db) (.did p (.pool st) (.ok a) :: h))
    (herr : ∀ db h e, R.inv db h → A db h → Except.error e ∈ S.eval st db ∨ e = S.io →
      cond db h (.did p (.pool st) (.error e)) →
      (R.inv db (.did p (.pool st) (.error e) :: h) ∧
        ∀ q, q ≠ p → R.rel q db h db (.did p (.pool st) (.error e) :: h)) ∧
      E (FromErr.conv e) db (.did p (.pool st) (.error e) :: h)) :
    R.toProtocol.Triple p (Idle p A) (poolQuery st : Code S ε _)
      (outcome (fun a => Idle p (B a)) fun e => Idle p (E e)) := by
  rintro c hi ⟨htx, ha⟩ r s hx hc
  obtain ⟨⟨h₁, h₂⟩, ht, -, ⟨a, ws, rfl, he, hdb⟩ | ⟨e, rfl, he, hdb⟩⟩ := step_pool hi hx
    (fun a ws hr he => (hok _ _ _ _ hi.2 ha he (hr ▸ hc)).1)
    (fun e hr he => (herr _ _ _ hi.2 ha he (hr ▸ hc)).1) <;>
    refine ⟨h₁, h₂, fun c' hr hi' => ?_⟩
  · refine stable_idle (hB _) hr hi' ((congrFun ht p).trans htx) ?_
    show B a s.db _
    rw [hdb]; exact (hok _ _ _ _ hi.2 ha he hc).2
  · refine stable_idle (hE _) hr hi' ((congrFun ht p).trans htx) ?_
    show E _ s.db _
    rw [hdb]; exact (herr _ _ _ hi.2 ha he hc).2

/-- A statement on its own, on another connection, while a transaction is open. -/
theorem triple_poolQueryTx (st : S.Stmt)
    {G : List S.Write → List S.Key → S.Db → Hist (sig S) → Prop}
    {H : S.Ans st → List S.Write → List S.Key → S.Db → Hist (sig S) → Prop}
    {E : ε → List S.Write → List S.Key → S.Db → Hist (sig S) → Prop}
    (hH : ∀ a, R.StableTx p (H a)) (hE : ∀ e, R.StableTx p (E e))
    (hok : ∀ ws ks db h a ws', R.inv db h → G ws ks db h → Except.ok (a, ws') ∈ S.eval st db →
      cond db h (.did p (.pool st) (.ok a)) →
      ((∀ w ∈ ws', ∀ k ∈ S.touches w, k ∈ S.locks st db) ∧
        R.inv (applyAll ws' db) (.did p (.pool st) (.ok a) :: h) ∧
        ∀ q, q ≠ p → R.rel q db h (applyAll ws' db) (.did p (.pool st) (.ok a) :: h)) ∧
      H a ws ks (applyAll ws' db) (.did p (.pool st) (.ok a) :: h))
    (herr : ∀ ws ks db h e, R.inv db h → G ws ks db h → Except.error e ∈ S.eval st db ∨ e = S.io →
      cond db h (.did p (.pool st) (.error e)) →
      (R.inv db (.did p (.pool st) (.error e) :: h) ∧
        ∀ q, q ≠ p → R.rel q db h db (.did p (.pool st) (.error e) :: h)) ∧
      E (FromErr.conv e) ws ks db (.did p (.pool st) (.error e) :: h)) :
    R.toProtocol.Triple p (InTx p G) (poolQuery st : Code S ε _)
      (outcome (fun a => InTx p (H a)) fun e => InTx p (E e)) := by
  rintro c hi ⟨t, htx, hg⟩ r s hx hc
  obtain ⟨⟨h₁, h₂⟩, ht, -, ⟨a, ws, rfl, he, hdb⟩ | ⟨e, rfl, he, hdb⟩⟩ := step_pool hi hx
    (fun a ws hr he => (hok _ _ _ _ _ _ hi.2 hg he (hr ▸ hc)).1)
    (fun e hr he => (herr _ _ _ _ _ hi.2 hg he (hr ▸ hc)).1) <;>
    refine ⟨h₁, h₂, fun c' hr hi' => ?_⟩
  · refine stable_inTx (hH _) hr hi' ((congrFun ht p).trans htx) ?_
    show H a t.writes t.locks s.db _
    rw [hdb]; exact (hok _ _ _ _ _ _ hi.2 hg he hc).2
  · refine stable_inTx (hE _) hr hi' ((congrFun ht p).trans htx) ?_
    show E _ t.writes t.locks s.db _
    rw [hdb]; exact (herr _ _ _ _ _ hi.2 hg he hc).2

omit [FromErr S.Err ε] in
theorem triple_mapErr {ε' : Type} {x : Code S ε α} {g : ε → ε'}
    {A : Conf (machine S) → Prop} {B : α → Conf (machine S) → Prop}
    {E : ε → Conf (machine S) → Prop} {E' : ε' → Conf (machine S) → Prop}
    (h : R.toProtocol.Triple p A x (outcome B E)) (hE : ∀ e c, E e c → E' (g e) c) :
    R.toProtocol.Triple p A (x.mapErr g) (outcome B E') :=
  .mapErr (.conseq h (fun _ _ h => h) fun r c _ hq => match r with
    | .ok _ => hq
    | .error e => hE e c hq)

/-- The scope of a transaction: what holds when its body is left, by a result
or by an error, holds after it. -/
theorem triple_transaction {body : Code S ε α} {A : S.Db → Hist (sig S) → Prop}
    {Q : Except ε α → S.Db → Hist (sig S) → Prop} (hA : R.Framed p A)
    (hQ : ∀ r, R.Framed p (Q r)) (hAQ : ∀ e db h, A db h → Q (.error e) db h)
    (hb : R.toProtocol.Triple p (InTx p fun ws _ db h => ws = [] ∧ A db h) body
      (fun r => Over (Q r))) :
    R.toProtocol.Triple p (Idle p A) (transaction body) (fun r => Idle p (Q r)) := by
  refine .bind (triple_begin (G := fun ws _ db h => ws = [] ∧ A db h) (E := A) hA
    (fun ws ks db h db' h' ⟨hw, ha⟩ _ hr he hi => ⟨hw, hA.stable _ _ _ _ ha hr he hi⟩) hA.stable
    (fun _ _ ha => ⟨rfl, ha⟩) fun _ _ ha => ha) (fun _ => ?_)
    fun e c _ h => ⟨h.1, hAQ e _ _ h.2⟩
  refine .bind (Q := outcome (fun r => Over (Q r)) fun _ _ => False) (.attempt hb) (fun r => ?_)
    fun _ _ _ h => h.elim
  refine .bind (triple_rollback (hQ r)) (fun _ => ?_) fun _ _ _ h => h.elim
  cases r with
  | ok a => exact .ret fun _ _ h => h
  | error e => exact .throw fun _ _ h => h

end

/-! ## One process alone -/

/-- Process 0 runs alone, and nothing is asked of it. -/
def solo (S : Schema) : RowProtocol S fun _ _ e => e ≠ .ticked where
  inv _ _ := True
  rel p db _ db' _ := p = 0 → db' = db
  done _ _ _ := True
  quiet _ := True
  rel_refl _ _ _ _ := rfl
  rel_trans _ _ _ _ _ _ _ h₁ h₂ hp := (h₂ hp).trans (h₁ hp)
  quiet_begin _ _ := trivial
  quiet_rollback _ := trivial
  quiet_tx _ _ _ := trivial
  quiet_commit _ _ := trivial
  inv_quiet _ _ := trivial
  rel_quiet _ _ _ _ := rfl
  finish _ _ _ := ⟨trivial, fun _ _ _ => rfl⟩
  crash _ _ := ⟨trivial, fun _ _ _ => rfl⟩
  env _ _ h := absurd rfl h

theorem framed_solo (A : S.Db → Prop) : (solo S).Framed 0 fun db _ => A db :=
  ⟨fun _ _ _ _ h hr _ _ => hr rfl ▸ h, fun _ _ _ _ _ h => h⟩

theorem framedTx_solo (G : List S.Write → List S.Key → S.Db → Prop) :
    (solo S).FramedTx 0 fun ws ks db _ => G ws ks db :=
  ⟨fun _ _ _ _ _ _ h _ hr _ _ => hr rfl ▸ h, fun _ _ _ _ _ _ _ h => h⟩

/-- What a triple says of a run of one program alone. -/
theorem of_runs_solo {ε α : Type} {x : Code S ε α} {A : S.Db → Prop}
    {Q : Except ε α → S.Db → Prop}
    (h : (solo S).toProtocol.Triple 0 (Idle 0 fun db _ => A db) x
      fun r => Idle 0 fun db _ => Q r db)
    {db : S.Db} {r : Except ε α} {s : State S} (ha : A db)
    (hr : Prog.Runs (Exec 0) x (.start db) r s) : Q r s.db := by
  have hi : (solo S).toProtocol.Inv ⟨.start db, []⟩ := ⟨locked_start db, trivial⟩
  obtain ⟨_, hq⟩ := Protocol.of_runs (P := (solo S).toProtocol) (fun _ _ _ => by simp) hr hi
    (h ⟨.start db, []⟩ hi ⟨rfl, ha⟩)
  exact hq.2

/-! ## Whole runs -/

section
variable {main : Prog (sig S) Empty Unit → Prop} {db : S.Db} {w : World (machine S)}

/-- A process that has not started knows of no event of its own. -/
def Unborn (p : Nat) : S.Db → Hist (sig S) → Prop := fun _ h => ∀ e ∈ h, e.pid ≠ some p

/-- Programs that keep to the protocol, each on its own, keep the invariant
together. -/
theorem inv_of_steps
    (hmain : ∀ c, main c → ∀ p, R.toProtocol.Triple p (Idle p (Unborn p)) c
      fun _ => Over (R.done p))
    (hi : R.inv db [])
    (hs : Run main (fun c e => cond c.s.db c.hist e) db w) :
    R.inv w.conf.s.db w.conf.hist :=
  (Protocol.inv_of_reachable (P := R.toProtocol) (s := .start db) hmain
    ⟨locked_start db, hi⟩ (fun _ => ⟨rfl, by simp⟩) hs).2

/-- What holds of each step of the others, whoever one is, holds from any state of
a run to any later one. -/
theorem rel_of_steps
    (hmain : ∀ c, main c → ∀ p, R.toProtocol.Triple p (Idle p (Unborn p)) c
      fun _ => Over (R.done p))
    (hi : R.inv db []) {T : S.Db → Hist (sig S) → S.Db → Hist (sig S) → Prop}
    (hT : ∀ p db h db' h', R.rel p db h db' h' → T db h db' h') (hrefl : ∀ db h, T db h db h)
    (htrans : ∀ d₁ h₁ d₂ h₂ d₃ h₃, T d₁ h₁ d₂ h₂ → T d₂ h₂ d₃ h₃ → T d₁ h₁ d₃ h₃)
    {w' : World (machine S)}
    (hs : Run main (fun c e => cond c.s.db c.hist e) db w)
    (hs' : Steps (machine S) main (fun c e => cond c.s.db c.hist e) w w') :
    T w.conf.s.db w.conf.hist w'.conf.s.db w'.conf.hist :=
  Protocol.rely_of_steps (P := R.toProtocol) hmain
    (R := fun c c' => T c.s.db c.hist c'.s.db c'.hist) (fun p _ _ h => hT p _ _ _ _ h.rel)
    (fun _ => hrefl _ _) (fun _ _ _ => htrans _ _ _ _ _ _)
    (Protocol.worldInv_of_steps (P := R.toProtocol) hmain
      (w := .init (machine S) (.start db)) ⟨⟨locked_start db, hi⟩, fun _ => ⟨rfl, by simp [World.init]⟩⟩ hs) hs'

end

end RowProtocol

end ReadCommitted
