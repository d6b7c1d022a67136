import SatsPay.Requests

/-!
# Invariants by what each process has done

A run of programs that lead somewhere keeps what each operation, where its program
may perform it, keeps. A process that still runs has neither ended nor crashed.
-/

namespace Interleave

section
variable {M : Machine} {main : Prog M.Sg Empty Unit → Prop} {cond : Conf M → Event M.Sg → Prop}
variable {φ : List (Did M.Sg) → M.Sg.Op → Prop} {Q : List (Did M.Sg) → Prop}

def Unended {Sg : Sig} (p : Nat) (h : Hist Sg) : Prop :=
  ∀ e ∈ h, e ≠ .crashed p ∧ e ≠ .ended p

theorem Unended.tail {Sg : Sig} {p : Nat} {e : Event Sg} {h : Hist Sg} (hu : Unended p (e :: h)) :
    Unended p h := fun e' he => hu e' (List.mem_cons_of_mem _ he)

def Leading (φ : List (Did M.Sg) → M.Sg.Op → Prop) (Q : List (Did M.Sg) → Prop)
    (w : World M) : Prop :=
  ∀ p c, w.proc p = .running c → Unended p w.conf.hist ∧
    c.Leads φ (fun t _ => Q t) (doneBy p w.conf.hist)

theorem unended_of_fresh {Sg : Sig} {p : Nat} {h : Hist Sg} (hp : ∀ e ∈ h, e.pid ≠ some p) : Unended p h := by
  intro e he
  constructor
  · rintro rfl
    exact hp _ he rfl
  · rintro rfl
    exact hp _ he rfl

theorem Unended.other {Sg : Sig} {p : Nat} {e : Event Sg} {h : Hist Sg} (hu : Unended p h)
    (he : e.pid ≠ some p) : Unended p (e :: h) := by
  intro e' he'
  rcases List.mem_cons.1 he' with rfl | he'
  · constructor
    · rintro rfl
      exact he rfl
    · rintro rfl
      exact he rfl
  · exact hu e' he'

theorem leading_other {w : World M} {p : Nat} {s : M.S} {e : Event M.Sg} {slot : Slot M.Sg}
    (hw : Leading φ Q w) (he : e.pid = some p) (hp : ∀ c, slot = .running c →
      Unended p (e :: w.conf.hist) ∧ c.Leads φ (fun t _ => Q t) (doneBy p (e :: w.conf.hist))) :
    Leading φ Q ⟨w.conf.push s e, Function.update w.proc p slot⟩ := by
  intro q c hq
  by_cases h : q = p
  · subst h
    exact hp c (by simpa using hq)
  · have hne : e.pid ≠ some q := by simp [he, Ne.symm h]
    have hq' : w.proc q = .running c := (Function.update_of_ne h _ _).symm.trans hq
    refine ⟨(hw q c hq').1.other hne, ?_⟩
    show c.Leads φ _ (doneBy q (e :: w.conf.hist))
    rw [doneBy_of_ne hne]
    exact (hw q c hq').2

theorem leading_of_steps (hmain : ∀ c, main c → c.Leads φ (fun t _ => Q t) []) {s : M.S} {w : World M}
    (hs : Steps M main cond (.init M s) w) : Leading φ Q w := by
  induction hs with
  | refl => exact fun p c hp => nomatch hp
  | tail hs' hstep ih =>
    cases hstep with
    | start p c hp hc =>
      intro q c' hq
      by_cases h : q = p
      · subst h
        have hc' : c = c' := by simpa using hq
        have hf := fits_of_steps hs' q
        rw [hp] at hf
        subst hc'
        refine ⟨unended_of_fresh hf, ?_⟩
        show c.Leads φ _ (doneBy q _)
        rw [doneBy_eq_nil hf]
        exact hmain c hc
      · exact ih q c' ((Function.update_of_ne h _ _).symm.trans hq)
    | act p o k r s hp hx hc =>
      refine leading_other ih rfl ?_
      rintro c ⟨⟩
      obtain ⟨hu, hl⟩ := ih p _ hp
      refine ⟨fun e he => ?_, ?_⟩
      · rcases List.mem_cons.1 he with rfl | he
        · simp
        · exact hu e he
      · rw [doneBy_self]
        exact hl.2 r
    | finish p hp hc => exact leading_other ih rfl (by simp)
    | crash p c hp hc => exact leading_other ih rfl (by simp)
    | env s hx hc =>
      intro q c hq
      obtain ⟨hu, hl⟩ := ih q c hq
      exact ⟨hu.other (by simp), hl⟩

/-- An invariant of what happened and of the state it led to, by one lemma for each kind
of step. -/
structure Leading.Invariant (M : Machine) (φ : List (Did M.Sg) → M.Sg.Op → Prop)
    (Q : List (Did M.Sg) → Prop) (cond : Conf M → Event M.Sg → Prop) where
  Inv : Conf M → Prop
  act : ∀ {c p o r s}, Inv c → Unended p c.hist → φ (doneBy p c.hist) o → M.exec p o c.s r s →
    cond c (.did p o r) → Inv (c.push s (.did p o r))
  finish : ∀ {c p}, Inv c → Unended p c.hist → Q (doneBy p c.hist) →
    Inv (c.push (M.close p c.s) (.ended p))
  crash : ∀ {c p}, Inv c → Unended p c.hist → Inv (c.push (M.close p c.s) (.crashed p))
  env : ∀ {c s}, Inv c → M.env c.s s → Inv (c.push s .ticked)

namespace Leading.Invariant

variable {I : Leading.Invariant M φ Q cond}

theorem step {w w' : World M} (hl : Leading φ Q w) (hw : I.Inv w.conf)
    (hs : Step M main cond w w') : I.Inv w'.conf := by
  cases hs with
  | start p c hp hc => exact hw
  | act p o k r s hp hx hc => exact I.act hw (hl p _ hp).1 (hl p _ hp).2.1 hx hc
  | finish p hp hc => exact I.finish hw (hl p _ hp).1 (hl p _ hp).2
  | crash p c hp hc => exact I.crash hw (hl p _ hp).1
  | env s hx hc => exact I.env hw hx

theorem run (hmain : ∀ c, main c → c.Leads φ (fun t _ => Q t) []) {s : M.S} (hi : I.Inv ⟨s, []⟩)
    {w : World M} (hs : Steps M main cond (.init M s) w) : I.Inv w.conf := by
  induction hs with
  | refl => exact hi
  | tail hs hstep ih => exact step (leading_of_steps hmain hs) ih hstep

end Leading.Invariant

end

end Interleave
