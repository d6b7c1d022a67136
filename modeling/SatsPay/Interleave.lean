import SatsPay.Prog
import Mathlib.Logic.Relation

/-!
# Interleaved processes and rely/guarantee protocols

A `Machine` gives the meaning of single operations on a shared state. A `World`
runs any number of processes on it, one operation at a time in any order, each
of which may die between two operations; the history of what happened is kept,
newest event first. A `Protocol` is an invariant of the shared state with, for
each process, what it may rely on from the others; `Protocol.wp` is what one
process owes, and `Protocol.inv_of_reachable` puts the processes together.
-/

namespace Interleave

structure Machine where
  Sg : Sig
  S : Type
  exec : Nat → (o : Sg.Op) → S → Sg.Resp o → S → Prop
  /-- The session of a process that ended or died is dropped. -/
  close : Nat → S → S
  env : S → S → Prop

inductive Event (Sg : Sig) where
  | did (p : Nat) (o : Sg.Op) (r : Sg.Resp o)
  | crashed (p : Nat)
  | ended (p : Nat)
  | ticked

def Event.pid {Sg : Sig} : Event Sg → Option Nat
  | .did p _ _ => some p
  | .crashed p => some p
  | .ended p => some p
  | .ticked => none

section
variable {Sg : Sig}

@[simp] theorem Event.pid_did (p : Nat) (o : Sg.Op) (r : Sg.Resp o) :
    (Event.did p o r).pid = some p := rfl
@[simp] theorem Event.pid_crashed (p : Nat) : (Event.crashed p : Event Sg).pid = some p := rfl
@[simp] theorem Event.pid_ended (p : Nat) : (Event.ended p : Event Sg).pid = some p := rfl
@[simp] theorem Event.pid_ticked : (Event.ticked : Event Sg).pid = none := rfl

end

abbrev Hist (Sg : Sig) := List (Event Sg)

structure Conf (M : Machine) where
  s : M.S
  hist : Hist M.Sg

def Conf.push {M : Machine} (c : Conf M) (s : M.S) (e : Event M.Sg) : Conf M := ⟨s, e :: c.hist⟩

inductive Slot (Sg : Sig) where
  | fresh
  | running (c : Prog Sg Empty Unit)
  | done

structure World (M : Machine) where
  conf : Conf M
  proc : Nat → Slot M.Sg

def World.init (M : Machine) (s : M.S) : World M := ⟨⟨s, []⟩, fun _ => .fresh⟩

section
variable (M : Machine)

/-- `main` are the programs a process may be started with, and `cond` restricts
the steps: a run of steps that all meet it. -/
inductive Step (main : Prog M.Sg Empty Unit → Prop) (cond : Conf M → Event M.Sg → Prop) :
    World M → World M → Prop
  | start (w : World M) (p : Nat) (c : Prog M.Sg Empty Unit) (hp : w.proc p = .fresh)
      (hc : main c) : Step main cond w { w with proc := Function.update w.proc p (.running c) }
  | act (w : World M) (p : Nat) (o : M.Sg.Op) (k : M.Sg.Resp o → Prog M.Sg Empty Unit)
      (r : M.Sg.Resp o) (s : M.S) (hp : w.proc p = .running (.op o k))
      (hx : M.exec p o w.conf.s r s) (hc : cond w.conf (.did p o r)) :
      Step main cond w ⟨w.conf.push s (.did p o r), Function.update w.proc p (.running (k r))⟩
  | finish (w : World M) (p : Nat) (hp : w.proc p = .running (.ret ()))
      (hc : cond w.conf (.ended p)) :
      Step main cond w ⟨w.conf.push (M.close p w.conf.s) (.ended p), Function.update w.proc p .done⟩
  | crash (w : World M) (p : Nat) (c : Prog M.Sg Empty Unit) (hp : w.proc p = .running c)
      (hc : cond w.conf (.crashed p)) :
      Step main cond w
        ⟨w.conf.push (M.close p w.conf.s) (.crashed p), Function.update w.proc p .done⟩
  | env (w : World M) (s : M.S) (hx : M.env w.conf.s s) (hc : cond w.conf .ticked) :
      Step main cond w { w with conf := w.conf.push s .ticked }

def anyStep : Conf M → Event M.Sg → Prop := fun _ _ => True

def Steps (main : Prog M.Sg Empty Unit → Prop) (cond : Conf M → Event M.Sg → Prop) :
    World M → World M → Prop := Relation.ReflTransGen (Step M main cond)

end

section
variable {M : Machine} {main : Prog M.Sg Empty Unit → Prop} {cond : Conf M → Event M.Sg → Prop}

/-- A run whose steps meet a condition meets a weaker one. -/
theorem Steps.imp {cond' : Conf M → Event M.Sg → Prop} (hc : ∀ c e, cond c e → cond' c e)
    {w w' : World M} (h : Steps M main cond w w') : Steps M main cond' w w' := by
  refine Relation.ReflTransGen.mono (fun a b hs => ?_) _ _ h
  cases hs with
  | start p c hp hm => exact .start _ p c hp hm
  | act p o k r s hp hx h => exact .act _ p o k r s hp hx (hc _ _ h)
  | finish p hp h => exact .finish _ p hp (hc _ _ h)
  | crash p c hp h => exact .crash _ p c hp (hc _ _ h)
  | env s hx h => exact .env _ s hx (hc _ _ h)

/-- What the history says of a process: nothing of one that has not started, and
its end, last, of one that is done. -/
def Slot.Fits (slot : Slot M.Sg) (p : Nat) (h : Hist M.Sg) : Prop :=
  match slot with
  | .fresh => ∀ e ∈ h, e.pid ≠ some p
  | .running _ => True
  | .done => ∃ newer e older, h = newer ++ e :: older ∧ (e = .crashed p ∨ e = .ended p) ∧
      ∀ e ∈ newer, e.pid ≠ some p

theorem Slot.Fits.cons {slot : Slot M.Sg} {p : Nat} {h : Hist M.Sg} {e : Event M.Sg}
    (hs : slot.Fits p h) (he : e.pid ≠ some p) : slot.Fits p (e :: h) := by
  cases slot with
  | fresh => exact List.forall_mem_cons.2 ⟨he, hs⟩
  | running c => trivial
  | done =>
    obtain ⟨newer, e', older, rfl, he', hn⟩ := hs
    exact ⟨e :: newer, e', older, rfl, he', List.forall_mem_cons.2 ⟨he, hn⟩⟩

theorem fits_of_steps {s : M.S} {w : World M} (h : Steps M main cond (.init M s) w) (p : Nat) :
    (w.proc p).Fits p w.conf.hist := by
  induction h with
  | refl => exact fun e he => absurd he List.not_mem_nil
  | tail _ hs ih =>
    cases hs with
    | start q c hq hc =>
      by_cases e : p = q
      · subst e; simp [Slot.Fits]
      · simpa only [Function.update_of_ne e] using ih
    | act q o k r s hq hx hc =>
      by_cases e : p = q
      · subst e; simp [Slot.Fits]
      · simpa only [Function.update_of_ne e, Conf.push] using ih.cons (by simpa using Ne.symm e)
    | finish q hq hc =>
      by_cases e : p = q
      · subst e
        simp only [Function.update_self]
        exact ⟨[], _, _, rfl, .inr rfl, by simp⟩
      · simpa only [Function.update_of_ne e, Conf.push] using ih.cons (by simpa using Ne.symm e)
    | crash q c hq hc =>
      by_cases e : p = q
      · subst e
        simp only [Function.update_self]
        exact ⟨[], _, _, rfl, .inl rfl, by simp⟩
      · simpa only [Function.update_of_ne e, Conf.push] using ih.cons (by simpa using Ne.symm e)
    | env s hx hc => exact ih.cons (by simp)

end

/-! ## Protocols -/

structure Protocol (M : Machine) (cond : Conf M → Event M.Sg → Prop) where
  Inv : Conf M → Prop
  /-- What `p` may rely on from a step of another process. -/
  Rely : Nat → Conf M → Conf M → Prop
  /-- What holds of a process that has not started. -/
  Fresh : Nat → Conf M → Prop
  /-- What a process owes when it ends. -/
  Done : Nat → Conf M → Prop
  refl (p : Nat) (c : Conf M) : Rely p c c
  trans (p : Nat) {a b c : Conf M} : Rely p a b → Rely p b c → Rely p a c
  fresh_rely {p : Nat} {c c' : Conf M} : Fresh p c → Rely p c c' → Inv c' → Fresh p c'
  finish {p : Nat} {c : Conf M} : Inv c → Done p c → cond c (.ended p) →
    Inv (c.push (M.close p c.s) (.ended p)) ∧
    ∀ q, q ≠ p → Rely q c (c.push (M.close p c.s) (.ended p))
  crash {p : Nat} {c : Conf M} : Inv c → cond c (.crashed p) →
    Inv (c.push (M.close p c.s) (.crashed p)) ∧
    ∀ q, q ≠ p → Rely q c (c.push (M.close p c.s) (.crashed p))
  env {c : Conf M} {s : M.S} : Inv c → M.env c.s s → cond c .ticked →
    Inv (c.push s .ticked) ∧ ∀ q, Rely q c (c.push s .ticked)

namespace Protocol

variable {M : Machine} {cond : Conf M → Event M.Sg → Prop} (P : Protocol M cond)
variable {ε ε' α β : Type}

/-- From here `c`, run by `p` among processes that keep to the protocol, keeps
to it too, and ends in `Q`. -/
def wp (p : Nat) : Prog M.Sg ε α → (Except ε α → Conf M → Prop) → Conf M → Prop
  | .ret a, Q, c => Q (.ok a) c
  | .throw e, Q, c => Q (.error e) c
  | .op o k, Q, c => ∀ r s, M.exec p o c.s r s → cond c (.did p o r) →
      P.Inv (c.push s (.did p o r)) ∧ (∀ q, q ≠ p → P.Rely q c (c.push s (.did p o r))) ∧
      ∀ c', P.Rely p (c.push s (.did p o r)) c' → P.Inv c' → wp p (k r) Q c'

variable {P}

theorem wp_mono {p : Nat} {x : Prog M.Sg ε α} {Q Q' : Except ε α → Conf M → Prop}
    (hQ : ∀ r c, P.Inv c → Q r c → Q' r c) :
    ∀ {c : Conf M}, P.Inv c → P.wp p x Q c → P.wp p x Q' c := by
  induction x with
  | ret a => intro c hi h; exact hQ _ _ hi h
  | throw e => intro c hi h; exact hQ _ _ hi h
  | op o k ih =>
    intro c _ h r s hx hc
    obtain ⟨h₁, h₂, h₃⟩ := h r s hx hc
    exact ⟨h₁, h₂, fun c' hr hi => ih r hi (h₃ c' hr hi)⟩

theorem wp_bind {p : Nat} {x : Prog M.Sg ε α} {f : α → Prog M.Sg ε β}
    {Q : Except ε β → Conf M → Prop} :
    ∀ {c : Conf M}, P.wp p x (fun r c => match r with
      | .ok a => P.wp p (f a) Q c
      | .error e => Q (.error e) c) c → P.wp p (x.bind f) Q c := by
  induction x with
  | ret a => intro c h; exact h
  | throw e => intro c h; exact h
  | op o k ih =>
    intro c h r s hx hc
    obtain ⟨h₁, h₂, h₃⟩ := h r s hx hc
    exact ⟨h₁, h₂, fun c' hr hi => ih r (h₃ c' hr hi)⟩

theorem wp_attempt {p : Nat} {x : Prog M.Sg ε α} {Q : Except ε' (Except ε α) → Conf M → Prop} :
    ∀ {c : Conf M}, P.wp p x (fun r c => Q (.ok r) c) c →
      P.wp p (x.attempt : Prog M.Sg ε' _) Q c := by
  induction x with
  | ret a => intro c h; exact h
  | throw e => intro c h; exact h
  | op o k ih =>
    intro c h r s hx hc
    obtain ⟨h₁, h₂, h₃⟩ := h r s hx hc
    exact ⟨h₁, h₂, fun c' hr hi => ih r (h₃ c' hr hi)⟩

theorem wp_mapErr {p : Nat} {x : Prog M.Sg ε α} {g : ε → ε'}
    {Q : Except ε' α → Conf M → Prop} :
    ∀ {c : Conf M}, P.wp p x (fun r c => Q (r.mapError g) c) c →
      P.wp p (x.mapErr g) Q c := by
  induction x with
  | ret a => intro c h; exact h
  | throw e => intro c h; exact h
  | op o k ih =>
    intro c h r s hx hc
    obtain ⟨h₁, h₂, h₃⟩ := h r s hx hc
    exact ⟨h₁, h₂, fun c' hr hi => ih r (h₃ c' hr hi)⟩

/-- What nobody ends by what the others rely on, `p` does not end either. -/
theorem wp_frame {p : Nat} {K : Conf M → Prop}
    (hK : ∀ q c c', P.Rely q c c' → P.Inv c' → K c → K c') {x : Prog M.Sg ε α}
    {Q : Except ε α → Conf M → Prop} :
    ∀ {c : Conf M}, P.wp p x Q c → K c → P.wp p x (fun r c => Q r c ∧ K c) c := by
  induction x with
  | ret a => exact fun h hk => ⟨h, hk⟩
  | throw e => exact fun h hk => ⟨h, hk⟩
  | op o k ih =>
    intro c h hk r s hx hc
    obtain ⟨h₁, h₂, h₃⟩ := h r s hx hc
    have hk' := hK (p + 1) _ _ (h₂ (p + 1) p.succ_ne_self) h₁ hk
    exact ⟨h₁, h₂, fun c' hr hi => ih r (h₃ c' hr hi) (hK p _ _ hr hi hk')⟩

/-! ## Triples -/

/-- Started in a state that meets `A`, `x` keeps to the protocol and ends in `Q`. -/
def Triple (P : Protocol M cond) (p : Nat) (A : Conf M → Prop) (x : Prog M.Sg ε α)
    (Q : Except ε α → Conf M → Prop) : Prop :=
  ∀ c, P.Inv c → A c → P.wp p x Q c

variable {p : Nat} {A A' : Conf M → Prop} {Q Q' : Except ε α → Conf M → Prop}

theorem Triple.ret {a : α} (h : ∀ c, P.Inv c → A c → Q (.ok a) c) :
    P.Triple p A (.ret a : Prog M.Sg ε α) Q := h

theorem Triple.throw {e : ε} (h : ∀ c, P.Inv c → A c → Q (.error e) c) :
    P.Triple p A (.throw e : Prog M.Sg ε α) Q := h

theorem Triple.bind {x : Prog M.Sg ε α} {f : α → Prog M.Sg ε β} {R : Except ε β → Conf M → Prop}
    (hx : P.Triple p A x Q) (hf : ∀ a, P.Triple p (Q (.ok a)) (f a) R)
    (he : ∀ e c, P.Inv c → Q (.error e) c → R (.error e) c) : P.Triple p A (x.bind f) R := by
  intro c hi hA
  refine wp_bind (wp_mono (fun r c' hi' hq => ?_) hi (hx c hi hA))
  cases r with
  | ok a => exact hf a c' hi' hq
  | error e => exact he e c' hi' hq

theorem Triple.conseq {x : Prog M.Sg ε α} (h : P.Triple p A x Q)
    (hA : ∀ c, P.Inv c → A' c → A c) (hQ : ∀ r c, P.Inv c → Q r c → Q' r c) :
    P.Triple p A' x Q' :=
  fun c hi ha => wp_mono hQ hi (h c hi (hA c hi ha))

theorem Triple.attempt {x : Prog M.Sg ε α} {R : Except ε' (Except ε α) → Conf M → Prop}
    (h : P.Triple p A x (fun r c => R (.ok r) c)) :
    P.Triple p A (x.attempt : Prog M.Sg ε' _) R :=
  fun c hi ha => wp_attempt (h c hi ha)

theorem Triple.mapErr {x : Prog M.Sg ε α} {g : ε → ε'} {R : Except ε' α → Conf M → Prop}
    (h : P.Triple p A x (fun r c => R (r.mapError g) c)) : P.Triple p A (x.mapErr g) R :=
  fun c hi ha => wp_mapErr (h c hi ha)

theorem Triple.of_exists {ι : Type} {B : ι → Conf M → Prop} {x : Prog M.Sg ε α}
    (h : ∀ i, P.Triple p (B i) x Q) : P.Triple p (fun c => ∃ i, B i c) x Q :=
  fun c hi ⟨i, hb⟩ => h i c hi hb

/-- A precondition that says nothing of the state may be taken out. -/
theorem Triple.of_pure {φ : Prop} {x : Prog M.Sg ε α} (h : φ → P.Triple p A x Q) :
    P.Triple p (fun c => φ ∧ A c) x Q :=
  fun c hi ⟨hφ, ha⟩ => h hφ c hi ha

theorem Triple.frame {K : Conf M → Prop} (hK : ∀ q c c', P.Rely q c c' → P.Inv c' → K c → K c')
    {x : Prog M.Sg ε α} (h : P.Triple p A x Q) :
    P.Triple p (fun c => A c ∧ K c) x fun r c => Q r c ∧ K c :=
  fun c hi ha => wp_frame hK (h c hi ha.1) ha.2

theorem Triple.spawn {x : Prog M.Sg ε α} {D : Conf M → Prop}
    (h : P.Triple p A x (fun _ => D)) : P.Triple p A x.spawn (fun _ => D) :=
  .bind (Q := fun _ => D) (.attempt h) (fun _ => .ret fun _ _ h => h) fun _ _ _ h => h

/-- A program that keeps to a protocol ends in its postcondition also when it
runs alone. -/
theorem of_runs {x : Prog M.Sg ε α} {Q : Except ε α → Conf M → Prop}
    (hcond : ∀ c o r, cond c (.did p o r)) {s s' : M.S} {r : Except ε α}
    (hr : Prog.Runs (M.exec p) x s r s') :
    ∀ {h : Hist M.Sg}, P.Inv ⟨s, h⟩ → P.wp p x Q ⟨s, h⟩ → ∃ h', Q r ⟨s', h'⟩ := by
  induction hr with
  | ret a s => intro h _ hw; exact ⟨h, hw⟩
  | throw e s => intro h _ hw; exact ⟨h, hw⟩
  | op hx _ ih =>
    intro h _ hw
    obtain ⟨h₁, -, h₃⟩ := hw _ _ hx (hcond _ _ _)
    exact ih h₁ (h₃ _ (P.refl _ _) h₁)

/-! ## Soundness -/

/-- What is known of a whole world: each process is ready for whatever the
others may do next. -/
def WorldInv (P : Protocol M cond) (w : World M) : Prop :=
  P.Inv w.conf ∧ ∀ p, match w.proc p with
    | .fresh => P.Fresh p w.conf
    | .running x => ∀ c, P.Rely p w.conf c → P.Inv c → P.wp p x (fun _ => P.Done p) c
    | .done => True

variable {main : Prog M.Sg Empty Unit → Prop}

/-- The processes that did not move stay ready. -/
theorem worldInv_other {w : World M} {c : Conf M} {slot : Slot M.Sg} {p : Nat}
    (h : P.WorldInv w) (hi : P.Inv c) (hr : ∀ q, q ≠ p → P.Rely q w.conf c)
    (hp : match slot with
      | .fresh => P.Fresh p c
      | .running x => ∀ c', P.Rely p c c' → P.Inv c' → P.wp p x (fun _ => P.Done p) c'
      | .done => True) : P.WorldInv ⟨c, Function.update w.proc p slot⟩ := by
  refine ⟨hi, fun q => ?_⟩
  by_cases e : q = p
  · subst e; simpa using hp
  · have hq := h.2 q
    simp only [Function.update_of_ne e]
    cases hs : w.proc q with
    | fresh => rw [hs] at hq; exact P.fresh_rely hq (hr q e) hi
    | running x => rw [hs] at hq; exact fun c' hc' => hq c' (P.trans q (hr q e) hc')
    | done => trivial

/-- One step keeps the world invariant, and is a step of some process as the
others may rely on it. -/
theorem worldInv_step (hmain : ∀ c, main c → ∀ p, P.Triple p (P.Fresh p) c fun _ => P.Done p)
    {w w' : World M} (h : P.WorldInv w) (hs : Step M main cond w w') :
    P.WorldInv w' ∧ ∃ p, ∀ q, q ≠ p → P.Rely q w.conf w'.conf := by
  cases hs with
  | start p c hp hc =>
    have hf := h.2 p
    rw [hp] at hf
    exact ⟨worldInv_other h h.1 (fun q _ => P.refl q _) fun c' hr hi =>
      hmain c hc p c' hi (P.fresh_rely hf hr hi), p, fun q _ => P.refl q _⟩
  | act p o k r s hp hx hc =>
    have hw := h.2 p
    rw [hp] at hw
    obtain ⟨h₁, h₂, h₃⟩ := hw w.conf (P.refl p _) h.1 r s hx hc
    exact ⟨worldInv_other h h₁ h₂ h₃, p, h₂⟩
  | finish p hp hc =>
    have hw := h.2 p
    rw [hp] at hw
    obtain ⟨h₁, h₂⟩ := P.finish h.1 (hw w.conf (P.refl p _) h.1) hc
    exact ⟨worldInv_other h h₁ h₂ trivial, p, h₂⟩
  | crash p c hp hc =>
    obtain ⟨h₁, h₂⟩ := P.crash h.1 hc
    exact ⟨worldInv_other h h₁ h₂ trivial, p, h₂⟩
  | env s hx hc =>
    obtain ⟨h₁, h₂⟩ := P.env h.1 hx hc
    refine ⟨⟨h₁, fun q => ?_⟩, 0, fun q _ => h₂ q⟩
    have hq := h.2 q
    show match w.proc q with
      | .fresh => _
      | .running x => _
      | .done => _
    cases hs : w.proc q with
    | fresh => rw [hs] at hq; exact P.fresh_rely hq (h₂ q) h₁
    | running x => rw [hs] at hq; exact fun c' hc' => hq c' (P.trans q (h₂ q) hc')
    | done => trivial

theorem worldInv_of_steps (hmain : ∀ c, main c → ∀ p, P.Triple p (P.Fresh p) c fun _ => P.Done p)
    {w w' : World M} (h : P.WorldInv w) (hs : Steps M main cond w w') : P.WorldInv w' := by
  induction hs with
  | refl => exact h
  | tail _ hs ih => exact (worldInv_step hmain ih hs).1

/-- The invariant holds in every state of every run. -/
theorem inv_of_reachable
    (hmain : ∀ c, main c → ∀ p, P.Triple p (P.Fresh p) c fun _ => P.Done p) {s : M.S}
    (hi : P.Inv ⟨s, []⟩) (hf : ∀ p, P.Fresh p ⟨s, []⟩) {w : World M}
    (hs : Steps M main cond (.init M s) w) : P.Inv w.conf :=
  (worldInv_of_steps hmain (w := .init M s) ⟨hi, fun p => hf p⟩ hs).1

/-- What every process may rely on, at each step, holds along every run. -/
theorem rely_of_steps (hmain : ∀ c, main c → ∀ p, P.Triple p (P.Fresh p) c fun _ => P.Done p)
    {R : Conf M → Conf M → Prop} (hR : ∀ p c c', P.Rely p c c' → R c c') (hrefl : ∀ c, R c c)
    (htrans : ∀ a b c, R a b → R b c → R a c) {w w' : World M} (h : P.WorldInv w)
    (hs : Steps M main cond w w') : R w.conf w'.conf := by
  induction hs with
  | refl => exact hrefl _
  | tail h' hs ih =>
    obtain ⟨p, hp⟩ := (worldInv_step hmain (worldInv_of_steps hmain h h') hs).2
    exact htrans _ _ _ ih (hR (p + 1) _ _ (hp (p + 1) (by omega)))

end Protocol

end Interleave
