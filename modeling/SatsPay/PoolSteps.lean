import SatsPay.ReadCommitted
import SatsPay.Traces

/-!
# Tables that no transaction writes

Part of a store may change only by statements that commit by themselves. What is seen
of it then changes with a process's own steps, one statement at a time, and a run is a
sequence of these.
-/

namespace ReadCommitted

open Interleave

variable {S : Schema} {V : Type}

/-- `see` is what is seen of the store, `quiet` the statements that leave it alone and
`spares` their writes. -/
structure PoolOnly (see : S.Db → V) (quiet : S.Stmt → Prop) (spares : S.Write → Prop) : Prop where
  see_apply : ∀ w db, spares w → see (S.apply w db) = see db
  see_tick : ∀ db db', S.tick db db' → see db' = see db
  spares_eval : ∀ st, quiet st → ∀ db a ws, .ok (a, ws) ∈ S.eval st db → ∀ w ∈ ws, spares w

inductive PoolStep (see : S.Db → V) (db db' : S.Db) : Did (sig S) → Prop
  | pool {st : S.Stmt} {a : S.Ans st} {ws : List S.Write} (he : .ok (a, ws) ∈ S.eval st db)
      (hdb : see db' = see (applyAll ws db)) : PoolStep see db db' ⟨.pool st, .ok a⟩
  | other {d : Did (sig S)} (hd : ∀ st a, d ≠ ⟨.pool st, .ok a⟩) (hdb : see db' = see db) :
      PoolStep see db db' d

def Sparing (spares : S.Write → Prop) (s : State S) : Prop :=
  ∀ q u, s.tx q = some u → ∀ w ∈ u.writes, spares w

section
variable {see : S.Db → V} {quiet : S.Stmt → Prop} {spares : S.Write → Prop}

theorem PoolOnly.see_applyAll (P : PoolOnly see quiet spares) : ∀ {ws : List S.Write} {db : S.Db},
    (∀ w ∈ ws, spares w) → see (applyAll ws db) = see db
  | [], _, _ => rfl
  | w :: ws, db, h => by
    rw [applyAll_cons, P.see_applyAll fun w' hw' => h w' (List.mem_cons_of_mem _ hw'),
      P.see_apply w db (h w List.mem_cons_self)]

theorem Sparing.setTx {s : State S} (hs : Sparing spares s) (p : Nat) {u : Option (Tx S)}
    (hu : ∀ v, u = some v → ∀ w ∈ v.writes, spares w) : Sparing spares (s.setTx p u) := by
  intro q v hv
  by_cases h : q = p
  · subst h
    rw [State.setTx_self] at hv
    exact hu v hv
  · rw [State.setTx_ne _ h] at hv
    exact hs q v hv

theorem PoolOnly.exec (P : PoolOnly see quiet spares) {p : Nat} {o : Op S} {s s' : State S}
    {r : Op.Resp S o} (ho : ∀ st, o = .tx st → quiet st) (hs : Sparing spares s)
    (hx : Exec p o s r s') : Sparing spares s' ∧ PoolStep see s.db s'.db ⟨o, r⟩ := by
  have none : ∀ v : Tx S, none = some v → ∀ w ∈ v.writes, spares w := fun _ h => nomatch h
  have empty : ∀ (ks : List S.Key) (b : Bool) (v : Tx S), some ⟨[], ks, b⟩ = some v →
      ∀ w ∈ v.writes, spares w := by
    rintro ks b _ ⟨⟩ w hw
    cases hw
  cases hx with
  | begin_ok _ h => exact ⟨hs.setTx p (empty _ _), .other (by simp) rfl⟩
  | begin_fail _ h => exact ⟨hs, .other (by simp) rfl⟩
  | tx_ok _ st t a ws ht ha hf he =>
    refine ⟨hs.setTx p ?_, .other (by simp) rfl⟩
    rintro _ ⟨⟩ w hw
    rcases List.mem_append.1 hw with hw | hw
    · exact hs p t ht w hw
    · exact P.spares_eval st (ho st rfl) _ a ws he w hw
  | tx_error _ st t e ht ha hf he => exact ⟨hs.setTx p (empty _ _), .other (by simp) rfl⟩
  | tx_fail _ st t ht => exact ⟨hs.setTx p (empty _ _), .other (by simp) rfl⟩
  | commit_ok _ t ht =>
    exact ⟨fun q u hq => (hs.setTx p none) q u hq,
      .other (by simp) (P.see_applyAll fun w hw => hs p t ht w hw)⟩
  | commit_fail _ t ht => exact ⟨hs.setTx p none, .other (by simp) rfl⟩
  | rollback => exact ⟨hs.setTx p none, .other (by simp) rfl⟩
  | pool_ok _ st a ws hf he => exact ⟨hs, .pool he rfl⟩
  | pool_error _ st e hf he => exact ⟨hs, .other (by rintro _ _ ⟨⟩) rfl⟩
  | pool_fail _ st => exact ⟨hs, .other (by rintro _ _ ⟨⟩) rfl⟩
  | call _ c => exact ⟨hs, .other (by simp) rfl⟩

end

/-! ## Steps of a world -/

section
variable {see : S.Db → V} {quiet : S.Stmt → Prop} {spares : S.Write → Prop}
  {φ : List (Did (sig S)) → Op S → Prop} {main : Code S Empty Unit → Prop}
  {cond : Conf (machine S) → Event (sig S) → Prop} {w w' : World (machine S)}

inductive PoolMove (see : S.Db → V) (φ : List (Did (sig S)) → Op S → Prop)
    (cond : Conf (machine S) → Event (sig S) → Prop) (w w' : World (machine S)) : Prop
  | start (hconf : w'.conf = w.conf)
      (hp : ∀ p c, w.proc p = .running c → ∃ c', w'.proc p = .running c')
  | act (p : Nat) (d : Did (sig S)) (hφ : φ (doneBy p w.conf.hist) d.1)
      (hs : PoolStep see w.conf.s.db w'.conf.s.db d) (hcond : cond w.conf (.did p d.1 d.2))
      (hh : w'.conf.hist = .did p d.1 d.2 :: w.conf.hist)
      (hlive : .crashed p ∉ w.conf.hist ∧ .ended p ∉ w.conf.hist) (hc : ∃ c, w'.proc p = .running c)
      (hp : ∀ q c, w.proc q = .running c → ∃ c', w'.proc q = .running c')
  | stop (p : Nat) (e : Event (sig S)) (he : e = .crashed p ∨ e = .ended p)
      (hcond : cond w.conf e) (hdb : see w'.conf.s.db = see w.conf.s.db)
      (hh : w'.conf.hist = e :: w.conf.hist)
      (hp : ∀ q c, q ≠ p → w.proc q = .running c → w'.proc q = .running c)
  | tick (hdb : see w'.conf.s.db = see w.conf.s.db) (hcond : cond w.conf .ticked)
      (hh : w'.conf.hist = .ticked :: w.conf.hist) (hp : w'.proc = w.proc)

/-- What is known of the processes: they heed `φ`, write nothing that is seen in a
transaction, and one that has stopped does nothing more. -/
structure PoolWorld (φ : List (Did (sig S)) → Op S → Prop) (spares : S.Write → Prop)
    (w : World (machine S)) : Prop where
  heeding : Heeding φ w
  sparing : Sparing spares w.conf.s
  stopped : ∀ p, .crashed p ∈ w.conf.hist ∨ .ended p ∈ w.conf.hist → w.proc p = .done

theorem poolWorld_init (db : S.Db) : PoolWorld φ spares (.init (machine S) (.start db)) where
  heeding := ⟨by simp [Heeded, World.init], by simp [World.init]⟩
  sparing _ _ h := nomatch h
  stopped p h := by simp [World.init] at h

theorem PoolOnly.step (P : PoolOnly see quiet spares) (hφ : ∀ t st, φ t (.tx st) → quiet st)
    (hmain : ∀ c, main c → c.Free φ) (hw : PoolWorld φ spares w)
    (hs : Step (machine S) main cond w w') :
    PoolWorld φ spares w' ∧ PoolMove see φ cond w w' := by
  have heeding := heeding_step hmain hw.heeding hs
  have live : ∀ {p : Nat} {x : Code S Empty Unit} {q : Nat} {c}, w.proc q = .running c →
      ∃ c', Function.update w.proc p (.running x) q = .running c' := by
    intro p x q c hq
    by_cases h : q = p
    · subst h
      exact ⟨x, Function.update_self ..⟩
    · exact ⟨c, (Function.update_of_ne h ..).trans hq⟩
  -- a process that is not done has not stopped before
  have going : ∀ {p : Nat}, w.proc p ≠ .done → .crashed p ∉ w.conf.hist ∧ .ended p ∉ w.conf.hist :=
    fun hp => ⟨fun h => hp (hw.stopped _ (.inl h)), fun h => hp (hw.stopped _ (.inr h))⟩
  have stopping : ∀ {p : Nat} {e : Event (sig S)}, e = .crashed p ∨ e = .ended p → ∀ q,
      .crashed q ∈ e :: w.conf.hist ∨ .ended q ∈ e :: w.conf.hist →
      Function.update w.proc p .done q = .done := by
    intro p e he q hq
    by_cases h : q = p
    · subst h
      exact Function.update_self ..
    · rw [Function.update_of_ne h]
      refine hw.stopped q (hq.imp (fun hm => ?_) fun hm => ?_) <;>
        refine (List.mem_cons.1 hm).resolve_left fun heq => ?_ <;>
        rcases he with rfl | rfl <;> cases heq <;> exact h rfl
  cases hs with
  | start p c hp hc =>
    refine ⟨⟨heeding, hw.sparing, fun q hq => ?_⟩, .start rfl fun q c hq => live hq⟩
    have hd := hw.stopped q hq
    have hne : q ≠ p := by
      rintro rfl
      rw [hp] at hd
      cases hd
    exact (Function.update_of_ne hne ..).trans hd
  | act p o k r s hp hx hc =>
    have hφo := (hw.heeding.2 p _ hp).1
    obtain ⟨hsp, hps⟩ := P.exec (fun st hst => hφ _ st (hst ▸ hφo)) hw.sparing hx
    have hgo := going (p := p) (by rw [hp]; simp)
    refine ⟨⟨heeding, hsp, fun q hq => ?_⟩,
      .act p ⟨o, r⟩ hφo hps hc rfl hgo ⟨_, Function.update_self ..⟩ fun q c hq => live hq⟩
    have hd : w.proc q = .done := hw.stopped q (by simpa [Conf.push] using hq)
    have hne : q ≠ p := by
      rintro rfl
      rw [hp] at hd
      cases hd
    exact (Function.update_of_ne hne ..).trans hd
  | finish p hp hc =>
    exact ⟨⟨heeding, hw.sparing.setTx p (fun _ h => nomatch h), stopping (.inr rfl)⟩,
      .stop p _ (.inr rfl) hc rfl rfl fun q c hq h => (Function.update_of_ne hq ..).trans h⟩
  | crash p c hp hc =>
    exact ⟨⟨heeding, hw.sparing.setTx p (fun _ h => nomatch h), stopping (.inl rfl)⟩,
      .stop p _ (.inl rfl) hc rfl rfl fun q c hq h => (Function.update_of_ne hq ..).trans h⟩
  | env s hx hc =>
    refine ⟨⟨heeding, ?_, fun q hq => hw.stopped q (by simpa [Conf.push] using hq)⟩,
      .tick (P.see_tick _ _ hx.1) hc rfl rfl⟩
    intro q u hu
    rw [show (w.conf.push s .ticked).s.tx = w.conf.s.tx from hx.2] at hu
    exact hw.sparing q u hu

/-- What holds at the outset and is kept by every step holds in every run. -/
theorem PoolOnly.run (P : PoolOnly see quiet spares) (hφ : ∀ t st, φ t (.tx st) → quiet st)
    (hmain : ∀ c, main c → c.Free φ) {I : World (machine S) → Prop} {db : S.Db}
    (hinit : I (.init (machine S) (.start db)))
    (hstep : ∀ w w', PoolWorld φ spares w → I w → PoolMove see φ cond w w' → I w')
    (hs : Run main cond db w) : PoolWorld φ spares w ∧ I w := by
  induction hs with
  | refl => exact ⟨poolWorld_init db, hinit⟩
  | tail _ hs ih =>
    obtain ⟨hw, hm⟩ := P.step hφ hmain ih.1 hs
    exact ⟨hw, hstep _ _ ih.1 ih.2 hm⟩

end

end ReadCommitted
