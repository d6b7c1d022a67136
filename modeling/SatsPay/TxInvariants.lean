import SatsPay.Requests

/-!
# Invariants of open transactions

What is known of an open transaction follows from what its process has done, and
stays while others commit what they have locked. `TxInvariant` is an invariant of the
store with one of each open transaction; `TxInvariant.run` takes it through a run.
-/

namespace ReadCommitted

open Interleave

variable {S : Schema}

/-- No row is locked by two transactions. -/
def Exclusive (s : State S) : Prop :=
  ∀ p q t u, p ≠ q → s.tx p = some t → s.tx q = some u → ∀ k ∈ t.locks, k ∉ u.locks

theorem exclusive_setTx {s : State S} (h : Exclusive s) (p : Nat) {t : Option (Tx S)}
    (hx : ∀ u, t = some u → ∀ q v, q ≠ p → s.tx q = some v → ∀ k ∈ u.locks, k ∉ v.locks) :
    Exclusive (s.setTx p t) := by
  intro q r u v hne hu hv k hk hk'
  by_cases hq : q = p
  · subst hq
    rw [State.setTx_self] at hu
    rw [State.setTx_ne _ (Ne.symm hne)] at hv
    exact hx u hu r v (Ne.symm hne) hv k hk hk'
  · rw [State.setTx_ne _ hq] at hu
    by_cases hr : r = p
    · subst hr
      rw [State.setTx_self] at hv
      exact hx v hv q u hq hu k hk' hk
    · rw [State.setTx_ne _ hr] at hv
      exact h q r u v hne hu hv k hk hk'

/-- `Inv` is known of the store and `Open` of an open transaction, by what its process has
done. -/
structure TxInvariant (S : Schema) (φ : List (Did (sig S)) → Op S → Prop)
    (cond : S.Db → Hist (sig S) → Event (sig S) → Prop) where
  Inv : S.Db → Hist (sig S) → Prop
  Open : List (Did (sig S)) → Tx S → S.Db → Prop
  begin_ok : ∀ {p db h}, Inv db h → φ (doneBy p h) .begin → Inv db (.did p .begin (.ok ()) :: h) ∧
    Open (⟨.begin, .ok ()⟩ :: doneBy p h) ⟨[], [], false⟩ db
  tx_ok : ∀ {p db h st a ws} {t : Tx S}, Inv db h → φ (doneBy p h) (.tx st) →
    Open (doneBy p h) t db → t.aborted = false → cond db h (.did p (.tx st) (.ok a)) →
    .ok (a, ws) ∈ S.eval st (t.view db) → Inv db (.did p (.tx st) (.ok a) :: h) ∧
      Open (⟨.tx st, .ok a⟩ :: doneBy p h) ⟨t.writes ++ ws, t.locks ++ S.locks st (t.view db), false⟩ db
  tx_error : ∀ {p db h st e} {t : Tx S}, Inv db h → φ (doneBy p h) (.tx st) →
    Open (doneBy p h) t db → (.error e ∈ S.eval st (t.view db) ∨ e = S.io) →
    Inv db (.did p (.tx st) (.error e) :: h) ∧
      Open (⟨.tx st, .error e⟩ :: doneBy p h) t.abort db
  commit_ok : ∀ {p db h} {t : Tx S}, Inv db h → φ (doneBy p h) .commit → Open (doneBy p h) t db →
    cond db h (.did p .commit (.ok ())) → Inv (t.view db) (.did p .commit (.ok ()) :: h)
  commit_other : ∀ {p q db h} {t u : Tx S}, Inv db h → p ≠ q → φ (doneBy p h) .commit →
    Open (doneBy p h) t db → Open (doneBy q h) u db → cond db h (.did p .commit (.ok ())) →
    (∀ k ∈ t.locks, k ∉ u.locks) → Open (doneBy q h) u (t.view db)
  pool_ok : ∀ {p db h st a ws}, Inv db h → φ (doneBy p h) (.pool st) →
    cond db h (.did p (.pool st) (.ok a)) → .ok (a, ws) ∈ S.eval st db →
    Inv (applyAll ws db) (.did p (.pool st) (.ok a) :: h) ∧
    (∀ u, Open (doneBy p h) u db → Open (⟨.pool st, .ok a⟩ :: doneBy p h) u (applyAll ws db)) ∧
    ∀ q u, q ≠ p → Open (doneBy q h) u db → (∀ k ∈ S.locks st db, k ∉ u.locks) →
      Open (doneBy q h) u (applyAll ws db)
  pool_error : ∀ {p db h st e}, Inv db h → φ (doneBy p h) (.pool st) →
    Inv db (.did p (.pool st) (.error e) :: h) ∧
    ∀ u, Open (doneBy p h) u db → Open (⟨.pool st, .error e⟩ :: doneBy p h) u db
  call : ∀ {p db h c r}, Inv db h → φ (doneBy p h) (.call c) → cond db h (.did p (.call c) r) →
    Inv db (.did p (.call c) r :: h) ∧
    ∀ u, Open (doneBy p h) u db → Open (⟨.call c, r⟩ :: doneBy p h) u db
  /-- What begins or ends no transaction with success. -/
  idle : ∀ {p db h e}, Inv db h → e = .did p .begin (.error S.io) ∨
    e = .did p .commit (.error S.io) ∨ e = .did p .rollback () ∨ e = .ended p ∨ e = .crashed p →
    cond db h e → Inv db (e :: h)
  tick : ∀ {db db' h}, Inv db h → S.tick db db' → Inv db' (.ticked :: h) ∧
    ∀ q u, Open (doneBy q h) u db → Open (doneBy q h) u db'

/-! ## What an operation leads to -/

section
variable {ε α : Type} {φ : List (Did (sig S)) → Op S → Prop} {t : List (Did (sig S))}
variable [FromErr S.Err ε]

theorem leads_query {q : S.Stmt} (h : φ t (.tx q)) : (query q : Code S ε _).Leads φ (fun t' r =>
    (∃ a, r = .ok a ∧ t' = ⟨.tx q, .ok a⟩ :: t) ∨
      ∃ e, r = .error (FromErr.conv e) ∧ t' = ⟨.tx q, .error e⟩ :: t) t := by
  refine ⟨h, fun r => ?_⟩
  cases r with
  | ok a => exact .inl ⟨a, rfl, rfl⟩
  | error e => exact .inr ⟨e, rfl, rfl⟩

theorem leads_poolQuery {q : S.Stmt} (h : φ t (.pool q)) :
    (poolQuery q : Code S ε _).Leads φ (fun t' r =>
      (∃ a, r = .ok a ∧ t' = ⟨.pool q, .ok a⟩ :: t) ∨
        ∃ e, r = .error (FromErr.conv e) ∧ t' = ⟨.pool q, .error e⟩ :: t) t := by
  refine ⟨h, fun r => ?_⟩
  cases r with
  | ok a => exact .inl ⟨a, rfl, rfl⟩
  | error e => exact .inr ⟨e, rfl, rfl⟩

theorem leads_commit (h : φ t .commit) {Q : List (Did (sig S)) → Except ε Unit → Prop}
    (hok : Q (⟨.commit, .ok ()⟩ :: t) (.ok ()))
    (he : ∀ e, Q (⟨.commit, .error e⟩ :: t) (.error (FromErr.conv e))) :
    (commit : Code S ε Unit).Leads φ Q t := by
  refine ⟨h, fun r => ?_⟩
  cases r with
  | ok a => exact hok
  | error e => exact he e

/-- A transaction leads where its body does, and then rolls back what is left. -/
theorem leads_transaction {body : Code S ε α} {Q Q' : List (Did (sig S)) → Except ε α → Prop}
    (hbegin : φ t .begin) (hrollback : ∀ t, φ t .rollback)
    (hbody : body.Leads φ Q (⟨.begin, .ok ()⟩ :: t)) (hQ : ∀ t r, Q t r → Q' (⟨.rollback, ()⟩ :: t) r)
    (he : ∀ e, Q' (⟨.begin, .error e⟩ :: t) (.error (FromErr.conv e))) :
    (transaction body).Leads φ Q' t := by
  refine ⟨hbegin, fun r => ?_⟩
  cases r with
  | error e => exact he e
  | ok a =>
    have after (r : Except ε α) (t : List (Did (sig S))) (ht : Q t r) :
        (rollback >>= fun _ => .ofExcept r : Code S ε α).Leads φ Q' t := by
      refine ⟨hrollback t, fun _ => ?_⟩
      cases r with
      | ok a => exact hQ _ _ ht
      | error e => exact hQ _ _ ht
    show ((body.attempt : Code S ε (Except ε α)) >>= fun r => rollback >>= fun _ =>
      .ofExcept r : Code S ε α).Leads φ Q' _
    exact Prog.Leads.bind (Q := fun t r => match r with
      | .ok r => Q t r
      | .error _ => False) after (fun _ _ h => h.elim) (Prog.Leads.attempt hbody)

end

namespace TxInvariant

variable {φ : List (Did (sig S)) → Op S → Prop}
  {cond : S.Db → Hist (sig S) → Event (sig S) → Prop} (I : TxInvariant S φ cond)

structure Holds (c : Conf (machine S)) : Prop where
  exclusive : Exclusive c.s
  inv : I.Inv c.s.db c.hist
  opens : ∀ p t, c.s.tx p = some t → I.Open (doneBy p c.hist) t c.s.db

theorem exclusive_aborted {s : State S} (h : Exclusive s) {p : Nat} {t : Tx S}
    (ht : s.tx p = some t) : Exclusive (s.setTx p (some t.abort)) := by
  refine exclusive_setTx h p ?_
  rintro _ ⟨⟩ q v hne hv
  exact h p q t v (Ne.symm hne) ht hv

variable {I}

theorem holds_setTx {c : Conf (machine S)} {p : Nat} {t : Option (Tx S)} {e : Event (sig S)}
    (hc : I.Holds c) (hl : Exclusive (c.s.setTx p t)) (hi : I.Inv c.s.db (e :: c.hist))
    (he : e.pid = some p) (ho : ∀ u, t = some u → I.Open (doneBy p (e :: c.hist)) u c.s.db) :
    I.Holds (c.push (c.s.setTx p t) e) where
  exclusive := hl
  inv := hi
  opens q u hu := by
    by_cases hq : q = p
    · subst hq
      exact ho u ((State.setTx_self ..).symm.trans hu)
    · have hu' : c.s.tx q = some u := (State.setTx_ne _ hq _).symm.trans hu
      show I.Open (doneBy q (e :: c.hist)) u c.s.db
      rw [doneBy_of_ne (by simp [he, Ne.symm hq])]
      exact hc.opens q u hu'

/-- After an operation of `p` that leaves the transactions and the store alone. -/
theorem opens_own {c : Conf (machine S)} {p : Nat} {o : Op S} {r : Op.Resp S o} (hc : I.Holds c)
    (ho : ∀ u, I.Open (doneBy p c.hist) u c.s.db → I.Open (⟨o, r⟩ :: doneBy p c.hist) u c.s.db) :
    ∀ q u, c.s.tx q = some u → I.Open (doneBy q (.did p o r :: c.hist)) u c.s.db := by
  intro q u hu
  by_cases hq : q = p
  · subst hq
    rw [doneBy_self]
    exact ho u (hc.opens q u hu)
  · rw [doneBy_of_ne (by simp [Ne.symm hq])]
    exact hc.opens q u hu

theorem holds_exec {c : Conf (machine S)} {p : Nat} {o : Op S} {r : Op.Resp S o} {s : State S}
    (hc : I.Holds c) (hφ : φ (doneBy p c.hist) o) (hx : Exec p o c.s r s)
    (hcond : cond c.s.db c.hist (.did p o r)) : I.Holds (c.push s (.did p o r)) := by
  have none : ∀ u : Tx S, none = some u → I.Open (doneBy p (.did p o r :: c.hist)) u c.s.db :=
    fun _ h => nomatch h
  have open_ : ∀ u : Tx S, I.Open (⟨o, r⟩ :: doneBy p c.hist) u c.s.db →
      ∀ v, some u = some v → I.Open (doneBy p (.did p o r :: c.hist)) v c.s.db := by
    rintro u hu _ ⟨⟩
    rw [doneBy_self]
    exact hu
  cases hx with
  | begin_ok _ h =>
    obtain ⟨hi, ho⟩ := I.begin_ok hc.inv hφ
    exact holds_setTx hc (exclusive_setTx hc.exclusive p (by rintro _ ⟨⟩; simp)) hi rfl (open_ _ ho)
  | begin_fail _ h =>
    refine ⟨hc.exclusive, I.idle hc.inv (.inl rfl) hcond, fun q u hu => ?_⟩
    have hq : q ≠ p := by
      rintro rfl
      exact nomatch h.symm.trans hu
    show I.Open (doneBy q (.did p .begin (.error S.io) :: c.hist)) u c.s.db
    rw [doneBy_of_ne (by simp [Ne.symm hq])]
    exact hc.opens q u hu
  | tx_ok _ st t a ws ht ha hf he =>
    obtain ⟨hi, ho⟩ := I.tx_ok hc.inv hφ (hc.opens p t ht) ha hcond he
    refine holds_setTx hc (exclusive_setTx hc.exclusive p ?_) hi rfl (open_ _ ho)
    rintro _ ⟨⟩ q v hne hv k hk
    rcases List.mem_append.1 hk with hk | hk
    · exact hc.exclusive p q t v (Ne.symm hne) ht hv k hk
    · exact hf q v (by simpa using hne) hv k hk
  | tx_error _ st t e ht ha hf he =>
    obtain ⟨hi, ho⟩ := I.tx_error hc.inv hφ (hc.opens p t ht) (.inl he)
    exact holds_setTx hc (exclusive_aborted hc.exclusive ht) hi rfl (open_ _ ho)
  | tx_fail _ st t ht =>
    obtain ⟨hi, ho⟩ := I.tx_error hc.inv hφ (hc.opens p t ht) (.inr rfl)
    exact holds_setTx hc (exclusive_aborted hc.exclusive ht) hi rfl (open_ _ ho)
  | commit_ok _ t ht =>
    refine ⟨exclusive_setTx hc.exclusive p (t := Option.none) (by simp),
      I.commit_ok hc.inv hφ (hc.opens p t ht) hcond, fun q u hu => ?_⟩
    have hq : q ≠ p := by
      rintro rfl
      exact nomatch (State.setTx_self ..).symm.trans hu
    have hu' : c.s.tx q = some u := (State.setTx_ne _ hq _).symm.trans hu
    show I.Open (doneBy q (.did p .commit (.ok ()) :: c.hist)) u (t.view c.s.db)
    rw [doneBy_of_ne (by simp [Ne.symm hq])]
    exact I.commit_other hc.inv (Ne.symm hq) hφ (hc.opens p t ht) (hc.opens q u hu') hcond
      (hc.exclusive p q t u (Ne.symm hq) ht hu')
  | commit_fail _ t ht =>
    exact holds_setTx hc (exclusive_setTx hc.exclusive p (by simp))
      (I.idle hc.inv (.inr (.inl rfl)) hcond) rfl none
  | rollback =>
    exact holds_setTx hc (exclusive_setTx hc.exclusive p (by simp))
      (I.idle hc.inv (.inr (.inr (.inl rfl))) hcond) rfl none
  | pool_ok _ st a ws hf he =>
    obtain ⟨hi, hown, hother⟩ := I.pool_ok hc.inv hφ hcond he
    refine ⟨hc.exclusive, hi, fun q u hu => ?_⟩
    show I.Open (doneBy q (.did p (.pool st) (.ok a) :: c.hist)) u (applyAll ws c.s.db)
    by_cases hq : q = p
    · subst hq
      rw [doneBy_self]
      exact hown u (hc.opens q u hu)
    · rw [doneBy_of_ne (by simp [Ne.symm hq])]
      exact hother q u hq (hc.opens q u hu) (hf q u (by simp) hu)
  | pool_error _ st e hf he =>
    obtain ⟨hi, ho⟩ := I.pool_error (e := e) hc.inv hφ
    exact ⟨hc.exclusive, hi, opens_own hc ho⟩
  | pool_fail _ st =>
    obtain ⟨hi, ho⟩ := I.pool_error (e := S.io) hc.inv hφ
    exact ⟨hc.exclusive, hi, opens_own hc ho⟩
  | call _ cl =>
    obtain ⟨hi, ho⟩ := I.call hc.inv hφ hcond
    exact ⟨hc.exclusive, hi, opens_own hc ho⟩

/-- The end of a process, or its death. -/
theorem holds_close {c : Conf (machine S)} {p : Nat} {e : Event (sig S)} (hc : I.Holds c)
    (he : e = .ended p ∨ e = .crashed p) (hcond : cond c.s.db c.hist e) :
    I.Holds (c.push (c.s.setTx p none) e) := by
  refine holds_setTx hc (exclusive_setTx hc.exclusive p (by simp)) (I.idle (p := p) hc.inv ?_ hcond)
    (by rcases he with rfl | rfl <;> rfl) fun _ h => nomatch h
  rcases he with rfl | rfl
  · exact .inr (.inr (.inr (.inl rfl)))
  · exact .inr (.inr (.inr (.inr rfl)))

variable {main : Prog (sig S) Empty Unit → Prop}

theorem holds_step {w w' : World (machine S)} (hh : Heeding φ w) (hw : I.Holds w.conf)
    (hs : Step (machine S) main (fun c e => cond c.s.db c.hist e) w w') : I.Holds w'.conf := by
  cases hs with
  | start p c hp hc => exact hw
  | act p o k r s hp hx hc => exact holds_exec hw (hh.2 p _ hp).1 hx hc
  | finish p hp hc => exact holds_close hw (.inl rfl) hc
  | crash p c hp hc => exact holds_close hw (.inr rfl) hc
  | env s hx hc =>
    obtain ⟨htick, htx⟩ := hx
    obtain ⟨hi, ho⟩ := I.tick hw.inv htick
    refine ⟨?_, hi, fun q u hu => ?_⟩
    · simp only [Conf.push, Exclusive, htx]
      exact hw.exclusive
    · exact ho q u (hw.opens q u ((congrFun htx q).symm.trans hu))

/-- Programs that do only what `φ` allows keep the invariant, however they interleave. -/
theorem run (hmain : ∀ c, main c → c.Heeds φ []) {db : S.Db} (hi : I.Inv db [])
    {w : World (machine S)} (hs : Run main (fun c e => cond c.s.db c.hist e) db w) :
    I.Holds w.conf := by
  induction hs with
  | refl => exact ⟨(fun _ _ _ _ _ h => nomatch h), hi, fun _ _ h => nomatch h⟩
  | tail hs hstep ih => exact holds_step (heeding_of_start hmain hs) ih hstep

end TxInvariant

end ReadCommitted
