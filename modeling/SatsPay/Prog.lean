import Mathlib.Logic.Function.Basic

/-!
# Programs over a signature of operations

A program is the tree of the operations it may perform: after each one it goes
on with the answer. `throw` is the early exit of a fallible function. `Runs` is
the big-step meaning of a program that runs alone.
-/

namespace Interleave

/-- The operations a program may perform and the type of the answer to each. -/
structure Sig where
  Op : Type
  Resp : Op → Type

inductive Prog (Sg : Sig) (ε α : Type) where
  | ret (a : α)
  | throw (e : ε)
  | op (o : Sg.Op) (k : Sg.Resp o → Prog Sg ε α)

namespace Prog

variable {Sg : Sig} {ε ε' α β γ : Type}

def bind : Prog Sg ε α → (α → Prog Sg ε β) → Prog Sg ε β
  | .ret a, f => f a
  | .throw e, _ => .throw e
  | .op o k, f => .op o fun r => (k r).bind f

instance : Monad (Prog Sg ε) where
  pure := .ret
  bind := .bind

def perform (o : Sg.Op) : Prog Sg ε (Sg.Resp o) := .op o .ret

/-- Run to the end and hand the outcome, error or not, to what follows. -/
def attempt : Prog Sg ε α → Prog Sg ε' (Except ε α)
  | .ret a => .ret (.ok a)
  | .throw e => .ret (.error e)
  | .op o k => .op o fun r => (k r).attempt

def mapErr (f : ε → ε') : Prog Sg ε α → Prog Sg ε' α
  | .ret a => .ret a
  | .throw e => .throw (f e)
  | .op o k => .op o fun r => (k r).mapErr f

def ofExcept : Except ε α → Prog Sg ε α
  | .ok a => .ret a
  | .error e => .throw e

/-- A process body: the outcome is dropped. -/
def spawn (c : Prog Sg ε α) : Prog Sg Empty Unit := do
  let _ ← c.attempt
  pure ()

@[simp] theorem pure_eq (a : α) : (pure a : Prog Sg ε α) = .ret a := rfl
@[simp] theorem bind_eq (c : Prog Sg ε α) (f : α → Prog Sg ε β) : c >>= f = c.bind f := rfl
@[simp] theorem ret_bind (a : α) (f : α → Prog Sg ε β) : (ret a).bind f = f a := rfl
@[simp] theorem throw_bind (e : ε) (f : α → Prog Sg ε β) : (throw e).bind f = .throw e := rfl
@[simp] theorem op_bind (o : Sg.Op) (k : Sg.Resp o → Prog Sg ε α) (f : α → Prog Sg ε β) :
    (op o k).bind f = .op o fun r => (k r).bind f := rfl

theorem bind_assoc (c : Prog Sg ε α) (f : α → Prog Sg ε β) (g : β → Prog Sg ε γ) :
    (c.bind f).bind g = c.bind fun a => (f a).bind g := by
  induction c with
  | ret a => rfl
  | throw e => rfl
  | op o k ih => simp only [op_bind]; exact congrArg (op o) (funext fun r => ih r)

/-! ## Running alone -/

/-- `Runs exec c s r s'`: from `s`, with `exec` the meaning of one operation,
`c` ends with outcome `r` in state `s'`. -/
inductive Runs {S : Type} (exec : (o : Sg.Op) → S → Sg.Resp o → S → Prop) :
    Prog Sg ε α → S → Except ε α → S → Prop
  | ret (a : α) (s : S) : Runs exec (.ret a) s (.ok a) s
  | throw (e : ε) (s : S) : Runs exec (.throw e) s (.error e) s
  | op {o : Sg.Op} {k : Sg.Resp o → Prog Sg ε α} {s s₁ s₂ : S} {a : Sg.Resp o} {r : Except ε α}
      (h : exec o s a s₁) (hk : Runs exec (k a) s₁ r s₂) : Runs exec (.op o k) s r s₂

section
variable {S : Type} {exec : (o : Sg.Op) → S → Sg.Resp o → S → Prop}

theorem Runs.bind_ok {c : Prog Sg ε α} {f : α → Prog Sg ε β} {s s₁ s₂ : S} {a : α}
    {r : Except ε β} (h : Runs exec c s (.ok a) s₁) (hf : Runs exec (f a) s₁ r s₂) :
    Runs exec (c.bind f) s r s₂ := by
  induction c generalizing s with
  | ret b => cases h; exact hf
  | throw e => cases h
  | op o k ih => cases h with | op h hk => exact .op h (ih _ hk)

theorem Runs.bind_error {c : Prog Sg ε α} {f : α → Prog Sg ε β} {s s₁ : S} {e : ε}
    (h : Runs exec c s (.error e) s₁) : Runs exec (c.bind f) s (.error e) s₁ := by
  induction c generalizing s with
  | ret b => cases h
  | throw e' => cases h; exact .throw _ _
  | op o k ih => cases h with | op h hk => exact .op h (ih _ hk)

theorem Runs.attempt {c : Prog Sg ε α} {s s' : S} {r : Except ε α} (h : Runs exec c s r s') :
    Runs exec (c.attempt : Prog Sg ε' _) s (.ok r) s' := by
  induction h with
  | ret a s => exact .ret _ _
  | throw e s => exact .ret _ _
  | op h _ ih => exact .op h ih

theorem Runs.mapErr {c : Prog Sg ε α} {s s' : S} {a : α} (g : ε → ε')
    (h : Runs exec c s (.ok a) s') : Runs exec (c.mapErr g) s (.ok a) s' := by
  generalize hr : Except.ok a = r at h
  induction h with
  | ret b s => cases hr; exact .ret _ _
  | throw e s => cases hr
  | op h _ ih => exact .op h (ih hr)

/-! ## What a run has done -/

theorem Runs.of_ret {a b : α} {s s' : S} (h : Runs exec (.ret a : Prog Sg ε α) s (.ok b) s') :
    b = a ∧ s = s' := by
  cases h
  exact ⟨rfl, rfl⟩

theorem Runs.of_bind {c : Prog Sg ε α} {f : α → Prog Sg ε β} {s s₂ : S} {b : β}
    (h : Runs exec (c.bind f) s (.ok b) s₂) :
    ∃ a s₁, Runs exec c s (.ok a) s₁ ∧ Runs exec (f a) s₁ (.ok b) s₂ := by
  induction c generalizing s with
  | ret a => exact ⟨a, s, .ret a s, h⟩
  | throw e => cases h
  | op o k ih =>
    cases h with
    | op h hk =>
      obtain ⟨a, s₁, h₁, h₂⟩ := ih _ hk
      exact ⟨a, s₁, .op h h₁, h₂⟩

theorem Runs.of_bind_error {c : Prog Sg ε α} {f : α → Prog Sg ε β} {s s₂ : S} {e : ε}
    (h : Runs exec (c.bind f) s (.error e) s₂) : Runs exec c s (.error e) s₂ ∨
      ∃ a s₁, Runs exec c s (.ok a) s₁ ∧ Runs exec (f a) s₁ (.error e) s₂ := by
  induction c generalizing s with
  | ret a => exact .inr ⟨a, s, .ret a s, h⟩
  | throw e' =>
    cases h
    exact .inl (.throw _ _)
  | op o k ih =>
    cases h with
    | op h hk =>
      rcases ih _ hk with hk | ⟨a, s₁, h₁, h₂⟩
      · exact .inl (.op h hk)
      · exact .inr ⟨a, s₁, .op h h₁, h₂⟩

theorem Runs.bind_cases {c : Prog Sg ε α} {f : α → Prog Sg ε β} {s s₂ : S} {r : Except ε β}
    (h : Runs exec (c.bind f) s r s₂) :
    (∃ e, r = .error e ∧ Runs exec c s (.error e) s₂) ∨
      ∃ a s₁, Runs exec c s (.ok a) s₁ ∧ Runs exec (f a) s₁ r s₂ := by
  cases r with
  | ok b =>
    obtain ⟨a, s₁, h₁, h₂⟩ := h.of_bind
    exact .inr ⟨a, s₁, h₁, h₂⟩
  | error e =>
    rcases h.of_bind_error with h | ⟨a, s₁, h₁, h₂⟩
    · exact .inl ⟨e, rfl, h⟩
    · exact .inr ⟨a, s₁, h₁, h₂⟩

theorem Runs.mono {exec' : (o : Sg.Op) → S → Sg.Resp o → S → Prop}
    (hexec : ∀ {o s a s'}, exec o s a s' → exec' o s a s') {c : Prog Sg ε α} {s s' : S}
    {r : Except ε α} (h : Runs exec c s r s') : Runs exec' c s r s' := by
  induction h with
  | ret a s => exact .ret a s
  | throw e s => exact .throw e s
  | op h _ ih => exact .op (hexec h) ih

theorem Runs.of_attempt {c : Prog Sg ε α} {s s' : S} {r : Except ε' (Except ε α)}
    (h : Runs exec (c.attempt : Prog Sg ε' _) s r s') :
    ∃ r', r = .ok r' ∧ Runs exec c s r' s' := by
  induction c generalizing s with
  | ret a => cases h; exact ⟨_, rfl, .ret _ _⟩
  | throw e => cases h; exact ⟨_, rfl, .throw _ _⟩
  | op o k ih =>
    cases h with
    | op h hk =>
      obtain ⟨r', rfl, h₁⟩ := ih _ hk
      exact ⟨r', rfl, .op h h₁⟩

theorem Runs.exists_of_mapErr {c : Prog Sg ε α} {g : ε → ε'} {s s' : S} {r : Except ε' α}
    (h : Runs exec (c.mapErr g) s r s') : ∃ r', r = r'.mapError g ∧ Runs exec c s r' s' := by
  induction c generalizing s with
  | ret b => cases h; exact ⟨.ok b, rfl, .ret _ _⟩
  | throw e => cases h; exact ⟨.error e, rfl, .throw _ _⟩
  | op o k ih =>
    cases h with
    | op h hk =>
      obtain ⟨r', rfl, h₁⟩ := ih _ hk
      exact ⟨r', rfl, .op h h₁⟩

theorem Runs.of_mapErr {c : Prog Sg ε α} {g : ε → ε'} {s s' : S} {a : α}
    (h : Runs exec (c.mapErr g) s (.ok a) s') : Runs exec c s (.ok a) s' := by
  induction c generalizing s with
  | ret b => cases h; exact .ret _ _
  | throw e => cases h
  | op o k ih =>
    cases h with
    | op h hk => exact .op h (ih _ hk)

end

/-! ## Computing a run -/

/-- The run in which each operation goes as `step` says. -/
def play {S : Type} (step : (o : Sg.Op) → S → Option (Sg.Resp o × S)) :
    Prog Sg ε α → S → Option (Except ε α × S)
  | .ret a, s => some (.ok a, s)
  | .throw e, s => some (.error e, s)
  | .op o k, s => (step o s).bind fun r => (k r.1).play step r.2

theorem runs_of_play {S : Type} {exec : (o : Sg.Op) → S → Sg.Resp o → S → Prop}
    {step : (o : Sg.Op) → S → Option (Sg.Resp o × S)} {B : S → Prop}
    (hstep : ∀ {o s r s'}, B s → step o s = some (r, s') → exec o s r s' ∧ B s')
    {c : Prog Sg ε α} {r : Except ε α} {s s' : S} (hs : B s)
    (h : c.play step s = some (r, s')) : Runs exec c s r s' := by
  induction c generalizing s with
  | ret a => cases h; exact .ret _ _
  | throw e => cases h; exact .throw _ _
  | op o k ih =>
    obtain ⟨⟨a, s₁⟩, h₁, h₂⟩ := Option.bind_eq_some_iff.1 h
    obtain ⟨hx, hs₁⟩ := hstep hs h₁
    exact .op hx (ih _ hs₁ h₂)

end Prog

end Interleave
