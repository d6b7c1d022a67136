import SatsPay.RowProtocol

/-!
# What a program has done before

`Prog.Heeds` says that a program performs an operation only after what allows it. In
a run every process has then heeded it, whatever the others did.
-/

namespace Interleave

abbrev Did (Sg : Sig) := Σ o : Sg.Op, Sg.Resp o

section
variable {Sg : Sig} {ε ε' α β : Type} {φ : List (Did Sg) → Sg.Op → Prop}

/-- After `t`, newest first, the program performs only what `φ` allows. -/
def Prog.Heeds (φ : List (Did Sg) → Sg.Op → Prop) : Prog Sg ε α → List (Did Sg) → Prop
  | .ret _, _ => True
  | .throw _, _ => True
  | .op o k, t => φ t o ∧ ∀ r, (k r).Heeds φ (⟨o, r⟩ :: t)

def Prog.Free (φ : List (Did Sg) → Sg.Op → Prop) (c : Prog Sg ε α) : Prop := ∀ t, c.Heeds φ t

namespace Prog.Heeds

theorem bind {c : Prog Sg ε α} {f : α → Prog Sg ε β} (hf : ∀ a, (f a).Free φ) :
    ∀ {t : List (Did Sg)}, c.Heeds φ t → (c.bind f).Heeds φ t := by
  induction c with
  | ret a => exact fun _ => hf a _
  | throw e => exact id
  | op o k ih => exact fun h => ⟨h.1, fun r => ih r (h.2 r)⟩

theorem attempt {c : Prog Sg ε α} : ∀ {t : List (Did Sg)}, c.Heeds φ t →
    (c.attempt : Prog Sg ε' _).Heeds φ t := by
  induction c with
  | ret a => exact id
  | throw e => exact id
  | op o k ih => exact fun h => ⟨h.1, fun r => ih r (h.2 r)⟩

theorem mapErr {c : Prog Sg ε α} {g : ε → ε'} : ∀ {t : List (Did Sg)}, c.Heeds φ t →
    (c.mapErr g).Heeds φ t := by
  induction c with
  | ret a => exact id
  | throw e => exact id
  | op o k ih => exact fun h => ⟨h.1, fun r => ih r (h.2 r)⟩

end Prog.Heeds

namespace Prog.Free

theorem ret (a : α) : (.ret a : Prog Sg ε α).Free φ := fun _ => trivial
theorem throw (e : ε) : (.throw e : Prog Sg ε α).Free φ := fun _ => trivial

theorem op {o : Sg.Op} {k : Sg.Resp o → Prog Sg ε α} (ho : ∀ t, φ t o)
    (hk : ∀ r, (k r).Free φ) : (.op o k : Prog Sg ε α).Free φ := fun t => ⟨ho t, fun r => hk r _⟩

theorem bind {c : Prog Sg ε α} {f : α → Prog Sg ε β} (hc : c.Free φ) (hf : ∀ a, (f a).Free φ) :
    (c.bind f).Free φ := fun t => (hc t).bind hf

theorem attempt {c : Prog Sg ε α} (hc : c.Free φ) : (c.attempt : Prog Sg ε' _).Free φ :=
  fun t => (hc t).attempt

theorem mapErr {c : Prog Sg ε α} (g : ε → ε') (hc : c.Free φ) : (c.mapErr g).Free φ :=
  fun t => (hc t).mapErr

theorem ofExcept (r : Except ε α) : (Prog.ofExcept r : Prog Sg ε α).Free φ := by
  cases r with
  | ok a => exact ret a
  | error e => exact throw e

theorem spawn {c : Prog Sg ε α} (hc : c.Free φ) : c.spawn.Free φ :=
  hc.attempt.bind fun _ => ret ()

end Prog.Free

theorem Prog.Heeds.imp {ψ : List (Did Sg) → Sg.Op → Prop} (h : ∀ t o, φ t o → ψ t o)
    {c : Prog Sg ε α} : ∀ {t : List (Did Sg)}, c.Heeds φ t → c.Heeds ψ t := by
  induction c with
  | ret a => exact id
  | throw e => exact id
  | op o k ih => exact fun hc => ⟨h _ _ hc.1, fun r => ih r (hc.2 r)⟩

/-- What the first part of a program keeps true of what was done may be used by the second. -/
theorem Prog.Heeds.bind_keeping {P : Sg.Op → Prop} {T : List (Did Sg) → Prop}
    (hT : ∀ o r t, P o → T t → T (⟨o, r⟩ :: t)) (hφ : ∀ t o, P o → φ t o) {c : Prog Sg ε α}
    {f : α → Prog Sg ε β} (hf : ∀ a t, T t → (f a).Heeds φ t) :
    ∀ {t : List (Did Sg)}, c.Heeds (fun _ o => P o) t → T t → (c.bind f).Heeds φ t := by
  induction c with
  | ret a => exact fun _ ht => hf a _ ht
  | throw e => exact fun _ _ => trivial
  | op o k ih => exact fun h ht => ⟨hφ _ _ h.1, fun r => ih r (h.2 r) (hT _ _ _ h.1 ht)⟩

/-- What a program may do, it does alike where all that is allowed goes alike. -/
theorem Prog.Runs.of_free {P : Sg.Op → Prop} {S : Type}
    {exec exec' : (o : Sg.Op) → S → Sg.Resp o → S → Prop}
    (hexec : ∀ o s a s', P o → exec o s a s' → exec' o s a s') {c : Prog Sg ε α} {s s' : S}
    {r : Except ε α} (hc : c.Free fun _ o => P o) (h : Runs exec c s r s') :
    Runs exec' c s r s' := by
  have hf := hc []
  generalize ([] : List (Did Sg)) = t at hf
  clear hc
  induction h generalizing t with
  | ret a s => exact .ret _ _
  | throw e s => exact .throw _ _
  | op h _ ih => exact .op (hexec _ _ _ _ hf.1 h) (ih _ (hf.2 _))

def doneBy (p : Nat) : Hist Sg → List (Did Sg)
  | [] => []
  | .did q o r :: h => if q = p then ⟨o, r⟩ :: doneBy p h else doneBy p h
  | _ :: h => doneBy p h

theorem doneBy_self (p : Nat) (o : Sg.Op) (r : Sg.Resp o) (h : Hist Sg) :
    doneBy p (.did p o r :: h) = ⟨o, r⟩ :: doneBy p h := if_pos rfl

theorem doneBy_of_ne {p : Nat} {e : Event Sg} (he : e.pid ≠ some p) (h : Hist Sg) :
    doneBy p (e :: h) = doneBy p h := by
  cases e with
  | did q o r => exact if_neg (by simpa using he)
  | crashed q | ended q | ticked => rfl

theorem doneBy_append (p : Nat) : ∀ h h' : Hist Sg, doneBy p (h ++ h') = doneBy p h ++ doneBy p h'
  | [], _ => rfl
  | e :: h, h' => by
    have ih := doneBy_append p h h'
    cases e with
    | did q o r =>
      by_cases hq : q = p
      · simp [doneBy, hq, ih]
      · simp [doneBy, hq, ih]
    | crashed q | ended q | ticked => exact ih

theorem did_of_mem_doneBy {p : Nat} {o : Sg.Op} {r : Sg.Resp o} : ∀ {h : Hist Sg},
    (⟨o, r⟩ : Did Sg) ∈ doneBy p h → .did p o r ∈ h
  | e :: h, hm => by
    by_cases he : e.pid = some p
    · cases e with
      | did q o' r' =>
        cases he
        rw [doneBy_self] at hm
        rcases List.mem_cons.1 hm with hm | hm
        · cases hm
          exact List.mem_cons_self
        · exact List.mem_cons_of_mem _ (did_of_mem_doneBy hm)
      | crashed q | ended q => exact List.mem_cons_of_mem _ (did_of_mem_doneBy hm)
      | ticked => cases he
    · rw [doneBy_of_ne he] at hm
      exact List.mem_cons_of_mem _ (did_of_mem_doneBy hm)

end

section
variable {M : Machine} {main : Prog M.Sg Empty Unit → Prop} {cond : Conf M → Event M.Sg → Prop}
variable {φ : List (Did M.Sg) → M.Sg.Op → Prop}

/-- Every operation in the history came after what allows it. -/
def Heeded (φ : List (Did M.Sg) → M.Sg.Op → Prop) (h : Hist M.Sg) : Prop :=
  ∀ newer p o r older, h = newer ++ .did p o r :: older → φ (doneBy p older) o

theorem Heeded.cons {h : Hist M.Sg} {e : Event M.Sg} (hh : Heeded φ h)
    (he : ∀ p o r, e = .did p o r → φ (doneBy p h) o) : Heeded φ (e :: h) := by
  intro newer p o r older heq
  cases newer with
  | nil => cases heq; exact he p o r rfl
  | cons _ newer => cases heq; exact hh newer p o r older rfl

/-- What a world says of its processes: the running ones go on heeding. -/
def Heeding (φ : List (Did M.Sg) → M.Sg.Op → Prop) (w : World M) : Prop :=
  Heeded φ w.conf.hist ∧ ∀ p c, w.proc p = .running c → c.Heeds φ (doneBy p w.conf.hist)

theorem heeding_other {w : World M} {p : Nat} {s : M.S} {e : Event M.Sg} {slot : Slot M.Sg}
    (hw : Heeding φ w) (he : e.pid = some p) (hd : ∀ q o r, e = .did q o r → φ (doneBy q w.conf.hist) o)
    (hp : ∀ c, slot = .running c → c.Heeds φ (doneBy p (e :: w.conf.hist))) :
    Heeding φ ⟨w.conf.push s e, Function.update w.proc p slot⟩ := by
  refine ⟨hw.1.cons hd, fun q c hq => ?_⟩
  by_cases h : q = p
  · subst h
    exact hp c (by simpa using hq)
  · have hq' : w.proc q = .running c := (Function.update_of_ne h _ _).symm.trans hq
    show c.Heeds φ (doneBy q (e :: w.conf.hist))
    rw [doneBy_of_ne (by simp [he, Ne.symm h])]
    exact hw.2 q c hq'

theorem heeding_step_of {w w' : World M}
    (hmain : ∀ p c, w.proc p = .fresh → main c → c.Heeds φ (doneBy p w.conf.hist))
    (hw : Heeding φ w) (hs : Step M main cond w w') : Heeding φ w' := by
  cases hs with
  | start p c hp hc =>
    refine ⟨hw.1, fun q c' hq => ?_⟩
    by_cases h : q = p
    · subst h
      have : c = c' := by simpa using hq
      subst this
      exact hmain q c hp hc
    · exact hw.2 q c' ((Function.update_of_ne h _ _).symm.trans hq)
  | act p o k r s hp hx hc =>
    have ho := hw.2 p _ hp
    refine heeding_other hw rfl ?_ ?_
    · rintro q o' r' heq
      cases heq
      exact ho.1
    · rintro c ⟨⟩
      rw [doneBy_self]
      exact ho.2 r
  | finish p hp hc => exact heeding_other hw rfl (by simp) (by simp)
  | crash p c hp hc => exact heeding_other hw rfl (by simp) (by simp)
  | env s hx hc => exact ⟨hw.1.cons (by simp), fun q c hq => hw.2 q c hq⟩

theorem heeding_step (hmain : ∀ c, main c → c.Free φ) {w w' : World M} (hw : Heeding φ w)
    (hs : Step M main cond w w') : Heeding φ w' :=
  heeding_step_of (fun _ c _ hc => hmain c hc _) hw hs

theorem heeding_init (s : M.S) : Heeding φ (.init M s) :=
  ⟨by simp [Heeded, World.init], by simp [World.init]⟩

theorem heeded_of_steps (hmain : ∀ c, main c → c.Free φ) {s : M.S} {w : World M}
    (hs : Steps M main cond (.init M s) w) : Heeded φ w.conf.hist := by
  have hw : Heeding φ w := by
    induction hs with
    | refl => exact heeding_init s
    | tail _ hs ih => exact heeding_step hmain ih hs
  exact hw.1

theorem doneBy_eq_nil {p : Nat} : ∀ {h : Hist M.Sg}, (∀ e ∈ h, e.pid ≠ some p) → doneBy p h = []
  | [], _ => rfl
  | e :: h, hp => by
    obtain ⟨he, hp⟩ := List.forall_mem_cons.1 hp
    rw [doneBy_of_ne he, doneBy_eq_nil hp]

/-- Programs that heed from their start on. -/
theorem heeding_of_start (hmain : ∀ c, main c → c.Heeds φ []) {s : M.S} {w : World M}
    (hs : Steps M main cond (.init M s) w) : Heeding φ w := by
  induction hs with
  | refl => exact heeding_init s
  | tail hs' hs ih =>
    refine heeding_step_of (fun p c hp hc => ?_) ih hs
    have hf := fits_of_steps hs' p
    rw [hp] at hf
    rw [doneBy_eq_nil hf]
    exact hmain c hc

theorem heeded_of_start (hmain : ∀ c, main c → c.Heeds φ []) {s : M.S} {w : World M}
    (hs : Steps M main cond (.init M s) w) : Heeded φ w.conf.hist :=
  (heeding_of_start hmain hs).1

/-- What is true of the history, and stays so with all that a program may do, is still true
at its end. -/
theorem Protocol.wp_also {P : Protocol M cond} {ε α : Type} {p : Nat} {T : Hist M.Sg → Prop}
    (hT : ∀ c c', P.Rely p c c' → T c.hist → T c'.hist) {x : Prog M.Sg ε α}
    {Q : Except ε α → Conf M → Prop} {t : List (Did M.Sg)} :
    ∀ {c : Conf M}, x.Heeds (fun _ o => ∀ r h, T h → T (.did p o r :: h)) t → T c.hist →
      P.wp p x Q c → P.wp p x (fun r c => Q r c ∧ T c.hist) c := by
  induction x generalizing t with
  | ret a => exact fun _ ht h => ⟨h, ht⟩
  | throw e => exact fun _ ht h => ⟨h, ht⟩
  | op o k ih =>
    intro c hx ht h r s hexec hc
    obtain ⟨h₁, h₂, h₃⟩ := h r s hexec hc
    exact ⟨h₁, h₂, fun c' hr hi => ih r (hx.2 r) (hT _ _ hr (hx.1 r _ ht)) (h₃ c' hr hi)⟩

theorem Protocol.Triple.also {P : Protocol M cond} {ε α : Type} {p : Nat} {T : Hist M.Sg → Prop}
    {x : Prog M.Sg ε α} {A : Conf M → Prop} {Q : Except ε α → Conf M → Prop}
    (h : P.Triple p A x Q) (hT : ∀ c c', P.Rely p c c' → T c.hist → T c'.hist)
    (hx : x.Free fun _ o => ∀ r h, T h → T (.did p o r :: h)) :
    P.Triple p (fun c => A c ∧ T c.hist) x fun r c => Q r c ∧ T c.hist :=
  fun c hi ⟨ha, ht⟩ => Protocol.wp_also hT (hx []) ht (h c hi ha)

end

end Interleave

namespace ReadCommitted

open Interleave

variable {S : Schema} {ε α : Type} {φ : List (Did (sig S)) → Op S → Prop}

/-- What others do is nothing that `p` has done. -/
theorem doneBy_of_ext {p : Nat} {h h' : Hist (sig S)} (hx : Ext S p h h') :
    doneBy p h' = doneBy p h := by
  obtain ⟨l, rfl, hl⟩ := hx
  induction l with
  | nil => rfl
  | cons e l ih =>
    obtain ⟨he, hl⟩ := List.forall_mem_cons.1 hl
    exact (doneBy_of_ne he _).trans (ih hl)

theorem free_invoke {c : S.Call} (h : ∀ t, φ t (.call c)) : (invoke c : Code S ε _).Free φ :=
  .op h .ret

variable [FromErr S.Err ε]

theorem free_orThrow (r : Except S.Err α) : (orThrow r : Code S ε α).Free φ := by
  cases r with
  | ok a => exact .ret a
  | error e => exact .throw _

theorem free_beginTx (h : ∀ t, φ t .begin) : (beginTx : Code S ε Unit).Free φ := .op h free_orThrow
theorem free_commit (h : ∀ t, φ t .commit) : (commit : Code S ε Unit).Free φ := .op h free_orThrow

theorem free_query {st : S.Stmt} (h : ∀ t, φ t (.tx st)) : (query st : Code S ε _).Free φ :=
  .op h free_orThrow

theorem free_poolQuery {st : S.Stmt} (h : ∀ t, φ t (.pool st)) :
    (poolQuery st : Code S ε _).Free φ := .op h free_orThrow

theorem free_transaction {body : Code S ε α} (h : ∀ t, φ t .begin) (h' : ∀ t, φ t .rollback)
    (hb : body.Free φ) : (transaction body).Free φ :=
  (free_beginTx h).bind fun _ => hb.attempt.bind fun r => Prog.Free.bind (.op h' .ret)
    fun _ => .ofExcept r

namespace RowProtocol

variable {cond : S.Db → Hist (sig S) → Event (sig S) → Prop} {R : RowProtocol S cond} {p : Nat}

/-- `triple_transaction`, where its process also knows something of the history. -/
theorem triple_transaction_also {T : Hist (sig S) → Prop} (hT : ∀ l l', Ext S p l l' → T l → T l')
    (hbegin : ∀ r h, T h → T (.did p .begin r :: h)) {body : Code S ε α}
    {A : S.Db → Hist (sig S) → Prop} {Q : Except ε α → S.Db → Hist (sig S) → Prop}
    (hA : R.Framed p A) (hQ : ∀ r, R.Framed p (Q r)) (hAQ : ∀ e db h, A db h → Q (.error e) db h)
    (hb : R.toProtocol.Triple p
      (fun c => InTx p (fun ws _ db h => ws = [] ∧ A db h) c ∧ T c.hist) body
      (fun r => Over (Q r))) :
    R.toProtocol.Triple p (fun c => Idle p A c ∧ T c.hist) (transaction body)
      (fun r => Idle p (Q r)) := by
  have start := triple_begin (R := R) (ε := ε) (G := fun ws _ db h => ws = [] ∧ A db h) (E := A) hA
    (fun ws ks db h db' h' ⟨hw, ha⟩ _ hr he hi => ⟨hw, hA.stable _ _ _ _ ha hr he hi⟩) hA.stable
    (fun _ _ ha => ⟨rfl, ha⟩) fun _ _ ha => ha
  refine .bind (start.also (fun _ _ hr => hT _ _ hr.ext) (free_beginTx fun _ => hbegin))
    (fun _ => ?_) fun e c _ h => ⟨h.1.1, hAQ e _ _ h.1.2⟩
  refine .bind (Q := outcome (fun r => Over (Q r)) fun _ _ => False) (.attempt hb) (fun r => ?_)
    fun _ _ _ h => h.elim
  refine .bind (triple_rollback (hQ r)) (fun _ => ?_) fun _ _ _ h => h.elim
  cases r with
  | ok a => exact .ret fun _ _ h => h
  | error e => exact .throw fun _ _ h => h

end RowProtocol

end ReadCommitted
