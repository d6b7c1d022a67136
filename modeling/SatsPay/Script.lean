import SatsPay.ReadCommitted

/-!
# Concrete runs

A script names the steps of one run; `Runner.run` computes where it leads and
`Runner.steps_of_run` says that the run exists.
-/

namespace ReadCommitted

open Interleave

inductive Choice (S : Schema) where
  /-- It does what it says, with this outcome of those left open. -/
  | go (n : Nat)
  | io
  | answer (f : (c : S.Call) → S.Reply c)

inductive Act (S : Schema) where
  | start (p i : Nat)
  | op (p : Nat) (ch : Choice S)
  | finish (p : Nat)
  | crash (p : Nat)
  | tick (n : Nat)

/-- Process `p` does `n` operations, none of them a call. -/
def proceed {S : Schema} (p n : Nat) : List (Act S) := List.replicate n (.op p (.go 0))

/-- The programs that may be started, how time passes, the steps allowed, and a
bound on the processes. -/
structure Runner (S : Schema) where
  bound : Nat
  progs : List (Prog (sig S) Empty Unit)
  tick : Nat → S.Db → S.Db
  allow : Conf (machine S) → Event (sig S) → Bool

variable {S : Schema}

def Bounded (n : Nat) (s : State S) : Prop := ∀ q, n ≤ q → s.tx q = none

theorem bounded_setTx {n p : Nat} {s : State S} (hb : Bounded n s) (hp : p < n)
    (t : Option (Tx S)) : Bounded n (s.setTx p t) := fun q hq => by
  rw [State.setTx_ne _ (by omega)]; exact hb q hq

theorem bounded_close {n : Nat} {s : State S} (hb : Bounded n s) (p : Nat) :
    Bounded n (s.setTx p none) := fun q hq => by
  by_cases e : q = p
  · subst e; exact State.setTx_self _ _ _
  · rw [State.setTx_ne _ e]; exact hb q hq

theorem bounded_exec {n p : Nat} {o : Op S} {s s' : State S} {r : Op.Resp S o}
    (hb : Bounded n s) (hp : p < n) (h : Exec p o s r s') : Bounded n s' := by
  cases h with
  | begin_fail | pool_ok | pool_error | pool_fail | call => exact hb
  | _ => exact bounded_setTx hb hp _

variable [DecidableEq S.Key]

def freeBelow (n : Nat) (s : State S) (own : Option Nat) (ks : List S.Key) : Bool :=
  (List.range n).all fun q => decide (some q = own) || match s.tx q with
    | none => true
    | some t => ks.all fun k => decide (k ∉ t.locks)

def exec? (n p : Nat) : (o : Op S) → Choice S → State S → Option (Op.Resp S o × State S)
  | .begin, .go _, s =>
    match s.tx p with
    | none => some (.ok (), s.setTx p (some ⟨[], [], false⟩))
    | some _ => none
  | .begin, .io, s =>
    match s.tx p with
    | none => some (.error S.io, s)
    | some _ => none
  | .commit, .go _, s => (s.tx p).map fun t => (.ok (), { s.setTx p none with db := t.view s.db })
  | .commit, .io, s => (s.tx p).map fun _ => (.error S.io, s.setTx p none)
  | .rollback, .go _, s => some ((), s.setTx p none)
  | .tx st, .go i, s =>
    match s.tx p with
    | none => none
    | some t =>
      if t.aborted = false ∧ freeBelow n s (some p) (S.locks st (t.view s.db)) then
        match (S.eval st (t.view s.db))[i]? with
        | none => none
        | some (.ok (a, ws)) => some (.ok a,
            s.setTx p (some ⟨t.writes ++ ws, t.locks ++ S.locks st (t.view s.db), false⟩))
        | some (.error e) => some (.error e, s.setTx p (some t.abort))
      else none
  | .tx _, .io, s => (s.tx p).map fun t => (.error S.io, s.setTx p (some t.abort))
  | .pool st, .go i, s =>
    if freeBelow n s none (S.locks st s.db) then
      match (S.eval st s.db)[i]? with
      | none => none
      | some (.ok (a, ws)) => some (.ok a, { s with db := applyAll ws s.db })
      | some (.error e) => some (.error e, s)
    else none
  | .pool _, .io, s => some (.error S.io, s)
  | .call c, .answer f, s => some (f c, s)
  | _, _, _ => none

namespace Runner

variable (R : Runner S)

def step (w : World (machine S)) : Act S → Option (World (machine S))
  | .start p i =>
    match w.proc p, R.progs[i]? with
    | .fresh, some c => if p < R.bound then
        some { w with proc := Function.update w.proc p (.running c) } else none
    | _, _ => none
  | .op p ch =>
    match w.proc p with
    | .running (.op o k) =>
      match exec? R.bound p o ch w.conf.s with
      | some (r, s) => if p < R.bound ∧ R.allow w.conf (.did p o r) then
          some ⟨w.conf.push s (.did p o r), Function.update w.proc p (.running (k r))⟩ else none
      | none => none
    | _ => none
  | .finish p =>
    match w.proc p with
    | .running (.ret _) => if R.allow w.conf (.ended p) then
        some ⟨w.conf.push (w.conf.s.setTx p none) (.ended p), Function.update w.proc p .done⟩
        else none
    | _ => none
  | .crash p =>
    match w.proc p with
    | .running _ => if R.allow w.conf (.crashed p) then
        some ⟨w.conf.push (w.conf.s.setTx p none) (.crashed p), Function.update w.proc p .done⟩
        else none
    | _ => none
  | .tick n => if R.allow w.conf .ticked then
      some { w with conf := w.conf.push { w.conf.s with db := R.tick n w.conf.s.db } .ticked }
      else none

def run : List (Act S) → World (machine S) → Option (World (machine S))
  | [], w => some w
  | a :: l, w => (R.step w a).bind (run l)

variable {R}

theorem free_of_freeBelow {n : Nat} {s : State S} {own : Option Nat} {ks : List S.Key}
    (hb : Bounded n s) (h : freeBelow n s own ks = true) : s.free own ks := by
  intro q t hq ht k hk
  have hlt : q < n := by
    by_contra hn
    rw [hb q (by omega)] at ht
    cases ht
  have := List.all_eq_true.1 h q (List.mem_range.2 hlt)
  simp only [hq, decide_false, Bool.false_or, ht, List.all_eq_true, decide_eq_true_eq] at this
  exact this k hk

theorem exec_of_exec? {n p : Nat} {o : Op S} {ch : Choice S} {s s' : State S}
    {r : Op.Resp S o} (hb : Bounded n s) (h : exec? n p o ch s = some (r, s')) :
    Exec p o s r s' := by
  unfold exec? at h
  split at h
  · split at h
    · cases h; exact .begin_ok s ‹_›
    · cases h
  · split at h
    · cases h; exact .begin_fail s ‹_›
    · cases h
  · obtain ⟨t, ht, h⟩ := Option.map_eq_some_iff.1 h
    cases h; exact .commit_ok s t ht
  · obtain ⟨t, ht, h⟩ := Option.map_eq_some_iff.1 h
    cases h; exact .commit_fail s t ht
  · cases h; exact .rollback s
  · split at h
    · cases h
    · rename_i t ht
      split at h
      · rename_i hf
        split at h
        · cases h
        · rename_i a ws he
          cases h
          exact .tx_ok s _ t a ws ht hf.1 (free_of_freeBelow hb hf.2) (List.mem_of_getElem? he)
        · rename_i e he
          cases h
          exact .tx_error s _ t e ht hf.1 (free_of_freeBelow hb hf.2) (List.mem_of_getElem? he)
      · cases h
  · obtain ⟨t, ht, h⟩ := Option.map_eq_some_iff.1 h
    cases h; exact .tx_fail s _ t ht
  · split at h
    · rename_i hf
      split at h
      · cases h
      · rename_i a ws he
        cases h
        exact .pool_ok s _ a ws (free_of_freeBelow hb hf) (List.mem_of_getElem? he)
      · rename_i e he
        cases h
        exact .pool_error s _ e (free_of_freeBelow hb hf) (List.mem_of_getElem? he)
    · cases h
  · cases h; exact .pool_fail s _
  · cases h; exact .call s _ _
  · cases h

/-- No statement fails, and `f` answers the calls. -/
def smooth (f : (c : S.Call) → S.Reply c) : Op S → Choice S
  | .call _ => .answer f
  | _ => .go 0

def alone? (f : (c : S.Call) → S.Reply c) (o : Op S) (s : State S) :
    Option (Op.Resp S o × State S) := exec? 1 0 o (smooth f o) s

theorem exec_of_alone? {f : (c : S.Call) → S.Reply c} {o : Op S} {s s' : State S}
    {r : Op.Resp S o} (hb : Bounded 1 s) (h : alone? f o s = some (r, s')) :
    Exec 0 o s r s' ∧ Bounded 1 s' :=
  have hx := exec_of_exec? hb h
  ⟨hx, bounded_exec hb Nat.one_pos hx⟩

variable {main : Prog (sig S) Empty Unit → Prop}
  {cond : Conf (machine S) → Event (sig S) → Prop}

theorem step_of_step (hmain : ∀ c ∈ R.progs, main c) (htick : ∀ n db, S.tick db (R.tick n db))
    (hallow : ∀ c e, R.allow c e = true → cond c e) {w w' : World (machine S)} {a : Act S}
    (hb : Bounded R.bound w.conf.s) (h : R.step w a = some w') :
    Step (machine S) main cond w w' ∧ Bounded R.bound w'.conf.s := by
  cases a with
  | start p i =>
    simp only [step] at h
    split at h
    · rename_i hp hc
      split at h
      · cases h; exact ⟨.start w p _ hp (hmain _ (List.mem_of_getElem? hc)), hb⟩
      · cases h
    · cases h
  | op p ch =>
    simp only [step] at h
    split at h
    · rename_i o k hp
      split at h
      · rename_i r s hx
        split at h
        · rename_i hc
          cases h
          have hx' := exec_of_exec? hb hx
          exact ⟨.act w p o k r s hp hx' (hallow _ _ hc.2), bounded_exec hb hc.1 hx'⟩
        · cases h
      · cases h
    · cases h
  | finish p =>
    simp only [step] at h
    split at h
    · rename_i hp
      split at h
      · rename_i hc
        cases h; exact ⟨.finish w p hp (hallow _ _ hc), bounded_close hb p⟩
      · cases h
    · cases h
  | crash p =>
    simp only [step] at h
    split at h
    · rename_i c hp
      split at h
      · rename_i hc
        cases h; exact ⟨.crash w p c hp (hallow _ _ hc), bounded_close hb p⟩
      · cases h
    · cases h
  | tick n =>
    simp only [step] at h
    split at h
    · rename_i hc
      cases h; exact ⟨.env w _ ⟨htick n _, rfl⟩ (hallow _ _ hc), hb⟩
    · cases h

/-- The run that a script computes is a run. -/
theorem steps_of_run (hmain : ∀ c ∈ R.progs, main c) (htick : ∀ n db, S.tick db (R.tick n db))
    (hallow : ∀ c e, R.allow c e = true → cond c e) {l : List (Act S)} :
    ∀ {w w' : World (machine S)}, Bounded R.bound w.conf.s → R.run l w = some w' →
      Steps (machine S) main cond w w' := by
  induction l with
  | nil => rintro w w' - ⟨⟩; exact .refl
  | cons a l ih =>
    intro w w' hb h
    obtain ⟨w₁, h₁, h₂⟩ := Option.bind_eq_some_iff.1 h
    obtain ⟨hs, hb'⟩ := step_of_step hmain htick hallow hb h₁
    exact Relation.ReflTransGen.head hs (ih hb' h₂)

end Runner

end ReadCommitted
