import SatsPay.Traces

/-!
# Requests

A request does its work and then says how it went. Where an error comes only of work
that has committed nothing, no step of a request that failed has changed the store.
-/

namespace Interleave

section
variable {Sg : Sig} {ε ε' α β : Type} {φ : List (Did Sg) → Sg.Op → Prop}

/-- After `t`, newest first, the program performs only what `φ` allows, and `Q` holds where
it ends. -/
def Prog.Leads (φ : List (Did Sg) → Sg.Op → Prop) (Q : List (Did Sg) → Except ε α → Prop) :
    Prog Sg ε α → List (Did Sg) → Prop
  | .ret a, t => Q t (.ok a)
  | .throw e, t => Q t (.error e)
  | .op o k, t => φ t o ∧ ∀ r, (k r).Leads φ Q (⟨o, r⟩ :: t)

namespace Prog.Leads

theorem mono {Q Q' : List (Did Sg) → Except ε α → Prop} (hQ : ∀ t r, Q t r → Q' t r)
    {c : Prog Sg ε α} : ∀ {t : List (Did Sg)}, c.Leads φ Q t → c.Leads φ Q' t := by
  induction c with
  | ret a => exact hQ _ _
  | throw e => exact hQ _ _
  | op o k ih => exact fun h => ⟨h.1, fun r => ih r (h.2 r)⟩

theorem bind {c : Prog Sg ε α} {f : α → Prog Sg ε β} {Q : List (Did Sg) → Except ε α → Prop}
    {R : List (Did Sg) → Except ε β → Prop} (hf : ∀ a t, Q t (.ok a) → (f a).Leads φ R t)
    (he : ∀ e t, Q t (.error e) → R t (.error e)) :
    ∀ {t : List (Did Sg)}, c.Leads φ Q t → (c.bind f).Leads φ R t := by
  induction c with
  | ret a => exact hf a _
  | throw e => exact he e _
  | op o k ih => exact fun h => ⟨h.1, fun r => ih r (h.2 r)⟩

theorem attempt {c : Prog Sg ε α} {Q : List (Did Sg) → Except ε' (Except ε α) → Prop} :
    ∀ {t : List (Did Sg)}, c.Leads φ (fun t r => Q t (.ok r)) t →
      (c.attempt : Prog Sg ε' _).Leads φ Q t := by
  induction c with
  | ret a => exact id
  | throw e => exact id
  | op o k ih => exact fun h => ⟨h.1, fun r => ih r (h.2 r)⟩

theorem mapErr {c : Prog Sg ε α} {g : ε → ε'} {Q : List (Did Sg) → Except ε' α → Prop} :
    ∀ {t : List (Did Sg)}, c.Leads φ (fun t r => Q t (r.mapError g)) t →
      (c.mapErr g).Leads φ Q t := by
  induction c with
  | ret a => exact id
  | throw e => exact id
  | op o k ih => exact fun h => ⟨h.1, fun r => ih r (h.2 r)⟩

theorem heeds {c : Prog Sg ε α} {Q : List (Did Sg) → Except ε α → Prop} :
    ∀ {t : List (Did Sg)}, c.Leads φ Q t → c.Heeds φ t := by
  induction c with
  | ret a => exact fun _ => trivial
  | throw e => exact fun _ => trivial
  | op o k ih => exact fun h => ⟨h.1, fun r => ih r (h.2 r)⟩

end Prog.Leads

inductive Prog.After (c : Prog Sg ε α) : List (Did Sg) → Prog Sg ε α → Prop
  | start : After c [] c
  | step {t : List (Did Sg)} {o : Sg.Op} {k : Sg.Resp o → Prog Sg ε α} (h : After c t (.op o k))
      (r : Sg.Resp o) : After c (⟨o, r⟩ :: t) (k r)

theorem Prog.Leads.after {c c' : Prog Sg ε α} {Q : List (Did Sg) → Except ε α → Prop}
    {t : List (Did Sg)} (hc : c.Leads φ Q []) (h : c.After t c') : c'.Leads φ Q t := by
  induction h with
  | start => exact hc
  | step _ r ih => exact ih.2 r

theorem mem_doneBy_of_did {p : Nat} {o : Sg.Op} {r : Sg.Resp o} : ∀ {h : Hist Sg},
    .did p o r ∈ h → (⟨o, r⟩ : Did Sg) ∈ doneBy p h
  | e :: h, hm => by
    rcases List.mem_cons.1 hm with rfl | hm
    · rw [doneBy_self]
      exact List.mem_cons_self
    · have ih := mem_doneBy_of_did hm
      cases e with
      | did q o' r' =>
        by_cases hq : q = p
        · subst hq
          rw [doneBy_self]
          exact List.mem_cons_of_mem _ ih
        · rwa [doneBy_of_ne (by simpa using hq)]
      | crashed q | ended q | ticked => exact ih

end

section
variable {M : Machine} {main : Prog M.Sg Empty Unit → Prop} {cond : Conf M → Event M.Sg → Prop}

/-- A run only adds to the history. -/
theorem hist_of_steps {w w' : World M} (h : Steps M main cond w w') :
    ∃ l, w'.conf.hist = l ++ w.conf.hist := by
  induction h with
  | refl => exact ⟨[], rfl⟩
  | tail _ hs ih =>
    obtain ⟨l, hl⟩ := ih
    cases hs with
    | start => exact ⟨l, hl⟩
    | act | finish | crash | env => exact ⟨_ :: l, congrArg (_ :: ·) hl⟩

/-- A step adds one event at most. -/
theorem hist_of_step {w w' : World M} (h : Step M main cond w w') :
    w'.conf.hist = w.conf.hist ∨ ∃ e, w'.conf.hist = e :: w.conf.hist := by
  cases h with
  | start => exact .inl rfl
  | act | finish | crash | env => exact .inr ⟨_, rfl⟩

end

end Interleave

namespace ReadCommitted

open Interleave

variable {S : Schema} {ε ε' α β : Type} {fails : S.Call → Prop} {reads : S.Stmt → Prop}

def Uncommitted (t : List (Did (sig S))) : Prop := (⟨.commit, .ok ()⟩ : Did (sig S)) ∉ t

def Unfailed (fails : S.Call → Prop) (t : List (Did (sig S))) : Prop :=
  ∀ c r, fails c → (⟨.call c, r⟩ : Did (sig S)) ∉ t

/-- A failure is answered only where nothing was committed, and nothing is committed after
it. A statement of its own is one that `reads` allows. -/
def Orderly (fails : S.Call → Prop) (reads : S.Stmt → Prop) (t : List (Did (sig S))) :
    Op S → Prop
  | .commit => Unfailed fails t
  | .pool st => reads st
  | .call c => fails c → Uncommitted t
  | _ => True

def Tentative (fails : S.Call → Prop) (reads : S.Stmt → Prop) (c : Code S ε α) : Prop :=
  ∀ t, Unfailed fails t → Uncommitted t →
    c.Leads (Orderly fails reads) (fun t _ => Unfailed fails t ∧ Uncommitted t) t

/-- Work that has committed nothing where it ends in an error. -/
def Atomic (fails : S.Call → Prop) (reads : S.Stmt → Prop) (c : Code S ε α) : Prop :=
  ∀ t, Unfailed fails t → Uncommitted t →
    c.Leads (Orderly fails reads) (fun t r => ∀ e, r = .error e → Uncommitted t) t

/-! ## Tentative work -/

theorem unfailed_cons {t : List (Did (sig S))} (h : Unfailed fails t) {o : Op S}
    (ho : ∀ c, o = .call c → ¬ fails c) (r : Op.Resp S o) : Unfailed fails (⟨o, r⟩ :: t) := by
  rintro c r' hc hm
  rcases List.mem_cons.1 hm with hm | hm
  · cases hm
    exact ho c rfl hc
  · exact h c r' hc hm

theorem uncommitted_cons {t : List (Did (sig S))} (h : Uncommitted t) {o : Op S} {r : Op.Resp S o}
    (ho : o ≠ .commit) : Uncommitted (⟨o, r⟩ :: t) := by
  intro hm
  rcases List.mem_cons.1 hm with hm | hm
  · cases hm
    exact ho rfl
  · exact h hm

theorem uncommitted_error {t : List (Did (sig S))} (h : Uncommitted t) (e : S.Err) :
    Uncommitted (⟨.commit, .error e⟩ :: t) := by
  intro hm
  rcases List.mem_cons.1 hm with hm | hm
  · cases hm
  · exact h hm

namespace Tentative

theorem ret (a : α) : Tentative fails reads (.ret a : Code S ε α) := fun _ h h' => ⟨h, h'⟩
theorem throw (e : ε) : Tentative fails reads (.throw e : Code S ε α) := fun _ h h' => ⟨h, h'⟩

theorem op {o : Op S} {k : Op.Resp S o → Code S ε α} (ho : o ≠ .commit)
    (hp : ∀ st, o = .pool st → reads st) (hc : ∀ c, o = .call c → ¬ fails c)
    (hk : ∀ r, Tentative fails reads (k r)) : Tentative fails reads (.op o k : Code S ε α) := by
  intro t h h'
  refine ⟨?_, fun r => hk r _ (unfailed_cons h hc r) (uncommitted_cons h' ho)⟩
  cases o with
  | commit => exact absurd rfl ho
  | pool st => exact hp st rfl
  | call c => exact fun hf => absurd hf (hc c rfl)
  | begin | rollback | tx => trivial

theorem bind {c : Code S ε α} {f : α → Code S ε β} (hc : Tentative fails reads c)
    (hf : ∀ a, Tentative fails reads (f a)) : Tentative fails reads (c >>= f) :=
  fun t h h' => (hc t h h').bind (fun a t ht => hf a t ht.1 ht.2) fun _ _ ht => ht

theorem attempt {c : Code S ε α} (hc : Tentative fails reads c) :
    Tentative fails reads (c.attempt : Code S ε' _) := fun t h h' => Prog.Leads.attempt (hc t h h')

theorem mapErr {c : Code S ε α} (g : ε → ε') (hc : Tentative fails reads c) :
    Tentative fails reads (c.mapErr g) := fun t h h' => Prog.Leads.mapErr (hc t h h')

theorem ofExcept (r : Except ε α) : Tentative fails reads (Prog.ofExcept r : Code S ε α) := by
  cases r with
  | ok a => exact ret a
  | error e => exact throw e

theorem invoke {c : S.Call} (hc : ¬ fails c) :
    Tentative fails reads (ReadCommitted.invoke c : Code S ε _) :=
  op (by simp) (by simp) (by rintro _ ⟨⟩; exact hc) .ret

variable [FromErr S.Err ε]

theorem orThrow (r : Except S.Err α) : Tentative fails reads (ReadCommitted.orThrow r : Code S ε α) := by
  cases r with
  | ok a => exact ret a
  | error e => exact throw _

theorem query (st : S.Stmt) : Tentative fails reads (ReadCommitted.query st : Code S ε _) :=
  op (by simp) (by simp) (by simp) orThrow

theorem poolQuery {st : S.Stmt} (hst : reads st) :
    Tentative fails reads (ReadCommitted.poolQuery st : Code S ε _) :=
  op (by simp) (by rintro _ ⟨⟩; exact hst) (by simp) orThrow

end Tentative

/-! ## Atomic work -/

namespace Atomic

theorem of_tentative {c : Code S ε α} (hc : Tentative fails reads c) : Atomic fails reads c :=
  fun t h h' => (hc t h h').mono fun _ _ ht _ _ => ht.2

theorem throw (e : ε) : Atomic fails reads (.throw e : Code S ε α) := of_tentative (.throw e)

theorem bind {c : Code S ε α} {f : α → Code S ε β} (hc : Tentative fails reads c)
    (hf : ∀ a, Atomic fails reads (f a)) : Atomic fails reads (c >>= f) :=
  fun t h h' => (hc t h h').bind (fun a t ht => hf a t ht.1 ht.2) fun _ _ ht _ _ => ht.2

/-- After atomic work, what cannot fail and asks for nothing. -/
theorem map {c : Code S ε α} (f : α → β) (hc : Atomic fails reads c) :
    Atomic fails reads (c >>= fun a => pure (f a)) := by
  refine fun t h h' => Prog.Leads.bind (fun a t _ => ?_) (fun e t ht _ _ => ht e rfl) (hc t h h')
  rintro e ⟨⟩

theorem map_call {c : Code S ε α} {cl : S.Call} (hcl : ¬ fails cl) (f : α → S.Reply cl → β)
    (hc : Atomic fails reads c) :
    Atomic fails reads (c >>= fun a => invoke cl >>= fun r => pure (f a r)) := by
  have after (a : α) (t : List (Did (sig S))) :
      (invoke cl >>= fun r => pure (f a r) : Code S ε β).Leads (Orderly fails reads)
        (fun t r => ∀ e, r = .error e → Uncommitted t) t := by
    refine ⟨fun hf => absurd hf hcl, fun r => ?_⟩
    rintro e ⟨⟩
  exact fun t h h' => Prog.Leads.bind (fun a t _ => after a t) (fun e t ht _ _ => ht e rfl) (hc t h h')

theorem mapErr {c : Code S ε α} (g : ε → ε') (hc : Atomic fails reads c) :
    Atomic fails reads (c.mapErr g) := by
  refine fun t h h' => Prog.Leads.mapErr ((hc t h h').mono fun t r ht e he => ?_)
  cases r with
  | ok a => cases he
  | error e' => exact ht e' rfl

variable [FromErr S.Err ε]

theorem commit : Atomic fails reads (ReadCommitted.commit : Code S ε Unit) := by
  refine fun t h h' => ⟨h, fun r => ?_⟩
  cases r with
  | ok a =>
    rintro e ⟨⟩
  | error e => exact fun _ _ => uncommitted_error h' e

/-- A commit after which nothing can fail. -/
theorem commit_then (a : α) :
    Atomic fails reads (ReadCommitted.commit >>= fun _ => pure a : Code S ε α) := commit.map fun _ => a

theorem transaction {body : Code S ε α} (hb : Atomic fails reads body) :
    Atomic fails reads (transaction body) := by
  have begin : Tentative fails reads (beginTx : Code S ε Unit) :=
    .op (by simp) (by simp) (by simp) .orThrow
  have ending (r : Except ε α) (t : List (Did (sig S))) (ht : ∀ e, r = .error e → Uncommitted t) :
      (rollback >>= fun _ => .ofExcept r : Code S ε α).Leads (Orderly fails reads)
        (fun t r => ∀ e, r = .error e → Uncommitted t) t := by
    refine ⟨trivial, fun _ => ?_⟩
    cases r with
    | ok a =>
      rintro e ⟨⟩
    | error e => exact fun _ _ => uncommitted_cons (ht e rfl) (by simp)
  refine bind begin fun _ t h h' => Prog.Leads.bind (Q := fun t r => match r with
    | .ok r => ∀ e, r = .error e → Uncommitted t
    | .error _ => False) ending (fun _ _ h => h.elim) (Prog.Leads.attempt (hb t h h'))

end Atomic

/-- A request does its work, then answers. -/
theorem heeds_request {c : Code S ε α} (hc : Atomic fails reads c) {answer : Except ε α → S.Call}
    (ha : ∀ a, ¬ fails (answer (.ok a))) :
    (c.attempt >>= fun r => invoke (answer r) >>= fun _ => pure () : Code S Empty Unit).Heeds
      (Orderly fails reads) [] := by
  refine (Prog.Leads.bind (R := fun _ _ => True) (Q := fun t r => match r with
    | .ok r => ∀ e, r = .error e → Uncommitted t
    | .error _ => False) (fun r t ht => ?_) (fun _ _ h => h.elim)
    (Prog.Leads.attempt (hc [] (by simp [Unfailed]) (by simp [Uncommitted])))).heeds
  cases r with
  | ok a => exact ⟨fun hf => absurd hf (ha a), fun _ => trivial⟩
  | error e => exact ⟨fun _ => ht e rfl, fun _ => trivial⟩

/-! ## Runs -/

section
variable {main : Prog (sig S) Empty Unit → Prop}
  {cond : Conf (machine S) → Event (sig S) → Prop} {db : S.Db} {w : World (machine S)}

/-- A process that was answered a failure has committed nothing. -/
theorem uncommitted_of_failed (hmain : ∀ c, main c → c.Heeds (Orderly fails reads) [])
    (hs : Run main cond db w) {p : Nat} {c : S.Call} {r : S.Reply c} (hc : fails c)
    (hf : .did p (.call c) r ∈ w.conf.hist) : .did p .commit (.ok ()) ∉ w.conf.hist := by
  have hh := heeded_of_start hmain hs
  obtain ⟨newer, older, heq⟩ := List.append_of_mem hf
  rw [heq]
  intro hm
  rcases List.mem_append.1 hm with hm | hm
  · -- the commit came later, where the failure was known
    obtain ⟨newest, between, rfl⟩ := List.append_of_mem hm
    have := hh newest p .commit (.ok ()) (between ++ .did p (.call c) r :: older)
      (by rw [heq, List.append_assoc]; rfl)
    exact this c r hc (mem_doneBy_of_did (by simp))
  · rcases List.mem_cons.1 hm with hm | hm
    · cases hm
    · exact hh newer p (.call c) r older heq hc (mem_doneBy_of_did hm)

/-- No step of a request that failed, before or after, changes the store. -/
def FailedAside (main : Prog (sig S) Empty Unit → Prop)
    (cond : Conf (machine S) → Event (sig S) → Prop) (fails : S.Call → Prop) (db : S.Db) : Prop :=
  ∀ u u' w p c r e, Run main cond db u → Step (machine S) main cond u u' →
    Steps (machine S) main cond u' w → fails c → .did p (.call c) r ∈ w.conf.hist →
    u'.conf.hist = e :: u.conf.hist → e.pid = some p → u'.conf.s.db = u.conf.s.db

theorem failedAside (hmain : ∀ c, main c → c.Heeds (Orderly fails reads) [])
    (hreads : ∀ st db a ws, reads st → .ok (a, ws) ∈ S.eval st db → ws = []) :
    FailedAside main cond fails db := by
  intro u u' w p c r e hu hs hw hc hf he hp
  have hno := uncommitted_of_failed hmain ((hu.tail hs).trans hw) hc hf
  obtain ⟨l, hl⟩ := hist_of_steps hw
  have hne : e ≠ .did p .commit (.ok ()) := by
    rintro rfl
    exact hno (by rw [hl, he]; simp)
  have hh := heeded_of_start hmain (hu.tail hs)
  cases hs with
  | start q c' hq hm => exact absurd he (by simp)
  | finish q hq hc' | crash q c' hq hc' => rfl
  | env s hx hc' =>
    cases he
    cases hp
  | act q o k a s hq hx hc' =>
    cases he
    obtain rfl := Option.some.inj hp
    cases hx with
    | commit_ok => exact absurd rfl hne
    | pool_ok _ st b ws hfree hev =>
      obtain rfl := hreads _ _ _ _ (hh [] q (.pool st) (.ok b) u.conf.hist rfl) hev
      rfl
    | _ => rfl

end

end ReadCommitted
