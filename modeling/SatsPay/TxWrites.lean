import SatsPay.TxInvariants

/-!
# What an open transaction has written

Whatever the programs are, an open transaction has written what its statements wrote since it
began, and no two of them hold the same lock. A program keeps to what it leads to from where it
is started, whatever the others do.
-/

namespace Interleave

variable {M : Machine} {main : Prog M.Sg Empty Unit → Prop} {cond : Conf M → Event M.Sg → Prop}

def World.start (w : World M) (p : Nat) (c : Prog M.Sg Empty Unit) : World M :=
  { w with proc := Function.update w.proc p (.running c) }

/-- A process leads where its program does, whatever comes out. -/
theorem Prog.Leads.spawn {Sg : Sig} {ε α : Type} {φ : List (Did Sg) → Sg.Op → Prop}
    {Q : List (Did Sg) → Except ε α → Prop} {c : Prog Sg ε α} {t : List (Did Sg)}
    (h : c.Leads φ Q t) : c.spawn.Leads φ (fun t _ => ∃ r, Q t r) t :=
  Prog.Leads.bind (f := fun _ => .ret ()) (Q := fun t r => ∃ r', r = .ok r' ∧ Q t r')
    (R := fun t _ => ∃ r, Q t r) (fun _ _ ⟨r, _, h⟩ => ⟨r, h⟩) (fun e => e.elim)
    (.attempt (h.mono fun _ r h => ⟨r, rfl, h⟩))

/-- A program leads to where it comes. -/
theorem Prog.After.leads {Sg : Sig} {ε α : Type} {c : Prog Sg ε α} :
    ∀ {d : Prog Sg ε α} {t : List (Did Sg)}, c.After t d →
      d.Leads (fun _ _ => True) (fun t r => c.After t (.ofExcept r)) t
  | .ret _, _, h => h
  | .throw _, _, h => h
  | .op _ _, _, h => ⟨trivial, fun r => (h.step r).leads⟩

/-- Where a program that was started leads, it still leads after any steps. -/
theorem leads_of_started {φ : List (Did M.Sg) → M.Sg.Op → Prop}
    {Q : List (Did M.Sg) → Except Empty Unit → Prop} {c : Prog M.Sg Empty Unit} {w₀ w : World M}
    {p : Nat} (hc : c.Leads φ Q []) (hp : ∀ e ∈ w₀.conf.hist, e.pid ≠ some p)
    (hs : Steps M main cond (w₀.start p c) w) : w.proc p = .done ∨
      ∃ c', w.proc p = .running c' ∧ c'.Leads φ Q (doneBy p w.conf.hist) := by
  induction hs with
  | refl =>
    refine .inr ⟨c, by simp [World.start], ?_⟩
    rw [show (w₀.start p c).conf = w₀.conf from rfl, doneBy_eq_nil hp]
    exact hc
  | tail hs hstep ih =>
    have other {q : Nat} {s : M.S} {e : Event M.Sg} {slot : Slot M.Sg} {w : World M}
        (hq : p ≠ q) (he : e.pid = some q) (ih : w.proc p = .done ∨
          ∃ c', w.proc p = .running c' ∧ c'.Leads φ Q (doneBy p w.conf.hist)) :
        (Function.update w.proc q slot) p = .done ∨ ∃ c',
          (Function.update w.proc q slot) p = .running c' ∧
            c'.Leads φ Q (doneBy p (w.conf.push s e).hist) := by
      rw [Function.update_of_ne hq, show (w.conf.push s e).hist = e :: w.conf.hist from rfl,
        doneBy_of_ne (by simp [he, Ne.symm hq])]
      exact ih
    cases hstep with
    | start q d hq hd =>
      by_cases e : p = q
      · subst e
        rcases ih with h | ⟨c', h, -⟩ <;> rw [h] at hq <;> cases hq
      · simp only [Function.update_of_ne e]
        exact ih
    | act q o k r s hq hx hc' =>
      by_cases e : p = q
      · subst e
        obtain ⟨c', h, hl⟩ := ih.resolve_left (by simp [hq])
        obtain rfl : c' = .op o k := by simpa [hq] using h.symm
        refine .inr ⟨k r, by simp, ?_⟩
        show (k r).Leads φ Q (doneBy p (.did p o r :: _))
        rw [doneBy_self]
        exact hl.2 r
      · exact other e rfl ih
    | finish q hq hc' =>
      by_cases e : p = q
      · subst e
        exact .inl (by simp)
      · exact other e rfl ih
    | crash q d hq hc' =>
      by_cases e : p = q
      · subst e
        exact .inl (by simp)
      · exact other e rfl ih
    | env s hx hc' =>
      rcases ih with h | ⟨c', h, hl⟩
      · exact .inl h
      · exact .inr ⟨c', h, by rwa [show (_ : Conf M).hist = .ticked :: _ from rfl,
          doneBy_of_ne (by simp)]⟩

/-- A process that has come to its end has had an outcome. -/
theorem after_of_started {ε α : Type} {c : Prog M.Sg ε α} {w₀ w : World M} {p : Nat}
    (hp : ∀ e ∈ w₀.conf.hist, e.pid ≠ some p) (hs : Steps M main cond (w₀.start p c.spawn) w)
    (he : w.proc p = .running (.ret ())) : ∃ r, c.After (doneBy p w.conf.hist) (.ofExcept r) := by
  rcases leads_of_started (Prog.Leads.spawn (Prog.After.leads .start)) hp hs with hd | ⟨c', hr, hl⟩
  · rw [hd] at he
    cases he
  · obtain rfl : c' = .ret () := by simpa [hr] using he
    exact hl

/-- A step that adds an operation of `p` is a step of `p`. -/
theorem act_of_hist {w w' : World M} {p : Nat} {o : M.Sg.Op} {r : M.Sg.Resp o}
    (hs : Step M main cond w w') (he : w'.conf.hist = .did p o r :: w.conf.hist) :
    ∃ k, w.proc p = .running (.op o k) ∧ M.exec p o w.conf.s r w'.conf.s := by
  cases hs with
  | start q d hq hd => exact absurd (congrArg List.length he) (by simp)
  | act q o' k r' s hq hx hc =>
    cases he
    exact ⟨k, hq, hx⟩
  | finish | crash | env => cases he

end Interleave

namespace ReadCommitted

open Interleave

variable {S : Schema}

inductive Wrote : List (Did (sig S)) → List S.Write → Prop
  | begin (t : List (Did (sig S))) : Wrote (⟨.begin, .ok ()⟩ :: t) []
  | tx {t : List (Did (sig S))} {ws ws' : List S.Write} {st : S.Stmt} {a : S.Ans st} {db : S.Db}
      (h : Wrote t ws) (he : .ok (a, ws') ∈ S.eval st db) :
      Wrote (⟨.tx st, .ok a⟩ :: t) (ws ++ ws')
  | pool {t : List (Did (sig S))} {ws : List S.Write} {st : S.Stmt}
      {r : Except S.Err (S.Ans st)} (h : Wrote t ws) : Wrote (⟨.pool st, r⟩ :: t) ws
  | call {t : List (Did (sig S))} {ws : List S.Write} {c : S.Call} {r : S.Reply c}
      (h : Wrote t ws) : Wrote (⟨.call c, r⟩ :: t) ws

inductive Fine : List (Did (sig S)) → Prop
  | begin (t : List (Did (sig S))) : Fine (⟨.begin, .ok ()⟩ :: t)
  | tx {t : List (Did (sig S))} {st : S.Stmt} {a : S.Ans st} (h : Fine t) :
      Fine (⟨.tx st, .ok a⟩ :: t)
  | pool {t : List (Did (sig S))} {st : S.Stmt} {r : Except S.Err (S.Ans st)} (h : Fine t) :
      Fine (⟨.pool st, r⟩ :: t)
  | call {t : List (Did (sig S))} {c : S.Call} {r : S.Reply c} (h : Fine t) :
      Fine (⟨.call c, r⟩ :: t)

/-- What any program's operations keep, every run keeps. -/
theorem inv_of_steps {main : Prog (sig S) Empty Unit → Prop}
    {cond : Conf (machine S) → Event (sig S) → Prop} {Inv : Conf (machine S) → Prop}
    (act : ∀ {c p o r s}, Inv c → Exec p o c.s r s → Inv (c.push s (.did p o r)))
    (close : ∀ {c p e}, Inv c → e = .ended p ∨ e = .crashed p →
      Inv (c.push (c.s.setTx p none) e))
    (tick : ∀ {c s}, Inv c → S.tick c.s.db s.db → s.tx = c.s.tx → Inv (c.push s .ticked))
    {w w' : World (machine S)} (hw : Inv w.conf) (hs : Steps (machine S) main cond w w') :
    Inv w'.conf := by
  induction hs with
  | refl => exact hw
  | tail _ hstep ih =>
    cases hstep with
    | start => exact ih
    | act p o k r s hp hx hc => exact act ih hx
    | finish p hp hc => exact close ih (.inl rfl)
    | crash p c hp hc => exact close ih (.inr rfl)
    | env s hx hc => exact tick ih hx.1 hx.2

structure Opened (c : Conf (machine S)) : Prop where
  exclusive : Exclusive c.s
  wrote : ∀ p t, c.s.tx p = some t → t.aborted = false → Wrote (doneBy p c.hist) t.writes
  failed : ∀ p t, c.s.tx p = some t → t.aborted = true → ¬Fine (doneBy p c.hist)

theorem opened_setTx {c : Conf (machine S)} {p : Nat} {t : Option (Tx S)} {e : Event (sig S)}
    (hc : Opened c) (hl : Exclusive (c.s.setTx p t)) (he : e.pid = some p)
    (hw : ∀ u, t = some u → u.aborted = false → Wrote (doneBy p (e :: c.hist)) u.writes)
    (hf : ∀ u, t = some u → u.aborted = true → ¬Fine (doneBy p (e :: c.hist))) (db : S.Db) :
    Opened (c.push { c.s.setTx p t with db := db } e) := by
  have cases_ {q : Nat} {u : Tx S} (hu : (c.s.setTx p t).tx q = some u) :
      (q = p ∧ t = some u) ∨ c.s.tx q = some u ∧ doneBy q (e :: c.hist) = doneBy q c.hist := by
    by_cases hq : q = p
    · subst hq
      exact .inl ⟨rfl, (State.setTx_self ..).symm.trans hu⟩
    · exact .inr ⟨(State.setTx_ne _ hq _).symm.trans hu, doneBy_of_ne (by simp [he, Ne.symm hq]) _⟩
  refine ⟨hl, fun q u hu ha => ?_, fun q u hu ha => ?_⟩
  · rcases cases_ hu with ⟨rfl, ht⟩ | ⟨ht, hd⟩
    · exact hw u ht ha
    · show Wrote (doneBy q (e :: c.hist)) u.writes
      rw [hd]
      exact hc.wrote q u ht ha
  · rcases cases_ hu with ⟨rfl, ht⟩ | ⟨ht, hd⟩
    · exact hf u ht ha
    · show ¬Fine (doneBy q (e :: c.hist))
      rw [hd]
      exact hc.failed q u ht ha

theorem opened_same {c : Conf (machine S)} {p : Nat} {o : Op S} {r : Op.Resp S o} {db : S.Db}
    (hc : Opened c)
    (hw : ∀ ws, (c.s.tx p).isSome → Wrote (doneBy p c.hist) ws →
      Wrote (⟨o, r⟩ :: doneBy p c.hist) ws)
    (hf : (c.s.tx p).isSome → Fine (⟨o, r⟩ :: doneBy p c.hist) → Fine (doneBy p c.hist)) :
    Opened (c.push { c.s with db := db } (.did p o r)) := by
  have cases_ {q : Nat} : q = p ∨ doneBy q (.did p o r :: c.hist) = doneBy q c.hist := by
    by_cases hq : q = p
    · exact .inl hq
    · exact .inr (doneBy_of_ne (by simp [Ne.symm hq]) _)
  refine ⟨hc.exclusive, fun q u hu ha => ?_, fun q u hu ha => ?_⟩
  · show Wrote (doneBy q (.did p o r :: c.hist)) u.writes
    rcases cases_ (q := q) with rfl | hd
    · rw [doneBy_self]
      exact hw _ (Option.isSome_of_eq_some hu) (hc.wrote q u hu ha)
    · rw [hd]
      exact hc.wrote q u hu ha
  · show ¬Fine (doneBy q (.did p o r :: c.hist))
    rcases cases_ (q := q) with rfl | hd
    · rw [doneBy_self]
      exact fun h => hc.failed q u hu ha (hf (Option.isSome_of_eq_some hu) h)
    · rw [hd]
      exact hc.failed q u hu ha

theorem opened_act {c : Conf (machine S)} {p : Nat} {o : Op S} {r : Op.Resp S o} {s : State S}
    (hc : Opened c) (hx : Exec p o c.s r s) : Opened (c.push s (.did p o r)) := by
  have none_ {u : Tx S} {q : Prop} (h : none = some u) : q := nomatch h
  cases hx with
  | begin_ok _ h =>
    refine opened_setTx hc (exclusive_setTx hc.exclusive p (by rintro _ ⟨⟩; simp)) rfl ?_ ?_ _
    · rintro _ ⟨⟩ -
      rw [doneBy_self]
      exact .begin _
    · rintro _ ⟨⟩ ⟨⟩
  | begin_fail _ h =>
    refine opened_same hc (fun ws hs => ?_) fun hs => ?_
    all_goals simp [h] at hs
  | tx_ok _ st t a ws ht ha hf he =>
    refine opened_setTx hc (exclusive_setTx hc.exclusive p ?_) rfl ?_ ?_ _
    · rintro _ ⟨⟩ q v hne hv k hk
      rcases List.mem_append.1 hk with hk | hk
      · exact hc.exclusive p q t v (Ne.symm hne) ht hv k hk
      · exact hf q v (by simpa using hne) hv k hk
    · rintro _ ⟨⟩ -
      rw [doneBy_self]
      exact .tx (hc.wrote p t ht ha) he
    · rintro _ ⟨⟩ ⟨⟩
  | tx_error _ st t e ht ha hf he =>
    refine opened_setTx hc (TxInvariant.exclusive_aborted hc.exclusive ht) rfl ?_ ?_ _
    · rintro _ ⟨⟩ ⟨⟩
    · rintro _ ⟨⟩ -
      rw [doneBy_self]
      exact fun h => nomatch h
  | tx_fail _ st t ht =>
    refine opened_setTx hc (TxInvariant.exclusive_aborted hc.exclusive ht) rfl ?_ ?_ _
    · rintro _ ⟨⟩ ⟨⟩
    · rintro _ ⟨⟩ -
      rw [doneBy_self]
      exact fun h => nomatch h
  | commit_ok _ t ht =>
    exact opened_setTx hc (exclusive_setTx hc.exclusive p (by simp)) rfl (fun _ h => none_ h)
      (fun _ h => none_ h) _
  | commit_fail _ t ht =>
    exact opened_setTx hc (exclusive_setTx hc.exclusive p (by simp)) rfl (fun _ h => none_ h)
      (fun _ h => none_ h) _
  | rollback =>
    exact opened_setTx hc (exclusive_setTx hc.exclusive p (by simp)) rfl (fun _ h => none_ h)
      (fun _ h => none_ h) _
  | pool_ok | pool_error | pool_fail =>
    exact opened_same hc (fun ws _ h => .pool h) fun _ h => by cases h; assumption
  | call => exact opened_same hc (fun ws _ h => .call h) fun _ h => by cases h; assumption

theorem opened_of_steps {main : Prog (sig S) Empty Unit → Prop}
    {cond : Conf (machine S) → Event (sig S) → Prop} {w w' : World (machine S)}
    (hw : Opened w.conf) (hs : Steps (machine S) main cond w w') : Opened w'.conf := by
  refine inv_of_steps (fun hc hx => opened_act hc hx) (fun {c p e} hc he => ?_)
    (fun {c s} hc hx htx => ?_) hw hs
  · exact opened_setTx hc (exclusive_setTx hc.exclusive p (t := none) (by simp))
      (by rcases he with rfl | rfl <;> rfl) (fun _ h => nomatch h) (fun _ h => nomatch h) _
  · refine ⟨?_, fun q u hu ha => ?_, fun q u hu ha => ?_⟩
    · simp only [Conf.push, Exclusive, htx]
      exact hc.exclusive
    · exact hc.wrote q u ((congrFun htx q).symm.trans hu) ha
    · exact hc.failed q u ((congrFun htx q).symm.trans hu) ha

theorem opened_init (db : S.Db) : Opened (S := S) ⟨.start db, []⟩ :=
  ⟨(fun _ _ _ _ _ h => nomatch h), (fun _ _ h => nomatch h), (fun _ _ h => nomatch h)⟩

end ReadCommitted
