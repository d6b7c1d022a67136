import SatsPay.Alone
import SatsPay.Script

/-!
# The run of a program alone

Where no other process runs and no statement fails of itself, a program has one run, which
`Prog.play` computes. The rules here say of that run, operation by operation, what the
transaction of the program has come to see.
-/

namespace Interleave

variable {Sg : Sig} {ε ε' α β S : Type} {step : (o : Sg.Op) → S → Option (Sg.Resp o × S)}

namespace Prog

theorem play_bind (c : Prog Sg ε α) (g : α → Prog Sg ε β) : ∀ s, (c >>= g).play step s =
    (c.play step s).bind fun x => match x.1 with
      | .ok a => (g a).play step x.2
      | .error e => some (.error e, x.2) := by
  induction c with
  | ret a => exact fun s => rfl
  | throw e => exact fun s => rfl
  | op o k ih =>
    intro s
    show (step o s).bind (fun r => (k r.1 >>= g).play step r.2) = _
    rw [show (Prog.op o k).play step s = (step o s).bind fun r => (k r.1).play step r.2 from rfl,
      Option.bind_assoc]
    exact congrArg _ (funext fun r => ih r.1 r.2)

theorem play_attempt (c : Prog Sg ε α) : ∀ s, (c.attempt : Prog Sg ε' _).play step s =
    (c.play step s).map fun x => (.ok x.1, x.2) := by
  induction c with
  | ret a => exact fun s => rfl
  | throw e => exact fun s => rfl
  | op o k ih =>
    intro s
    show (step o s).bind (fun r => ((k r.1).attempt : Prog Sg ε' _).play step r.2) = _
    rw [show (Prog.op o k).play step s = (step o s).bind fun r => (k r.1).play step r.2 from rfl,
      Option.map_bind]
    exact congrArg _ (funext fun r => ih r.1 r.2)

theorem play_mapErr (c : Prog Sg ε α) (g : ε → ε') : ∀ s, (c.mapErr g).play step s =
    (c.play step s).map fun x => (x.1.mapError g, x.2) := by
  induction c with
  | ret a => exact fun s => rfl
  | throw e => exact fun s => rfl
  | op o k ih =>
    intro s
    show (step o s).bind (fun r => ((k r.1).mapErr g).play step r.2) = _
    rw [show (Prog.op o k).play step s = (step o s).bind fun r => (k r.1).play step r.2 from rfl,
      Option.map_bind]
    exact congrArg _ (funext fun r => ih r.1 r.2)

end Prog

end Interleave

namespace ReadCommitted

open Interleave

variable {S : Schema} [DecidableEq S.Key] {f : (c : S.Call) → S.Reply c} {db v v₁ v' : S.Db}
variable {ε ε' α β : Type}

def Views (db v : S.Db) (s : State S) : Prop := ∃ ws, AloneInTx db ws s ∧ applyAll ws db = v

/-- What a part of the transaction's body comes to: a result and what is seen then, or an
error, after which nothing is left but to roll back. -/
def Solo (f : (c : S.Call) → S.Reply c) (db v : S.Db) (c : Code S ε α) :
    Except ε (α × S.Db) → Prop
  | .ok x => ∀ s, Views db v s → ∃ s', c.play (Runner.alone? f) s = some (.ok x.1, s') ∧ Views db x.2 s'
  | .error e => ∀ s, Views db v s → ∃ s', c.play (Runner.alone? f) s = some (.error e, s') ∧
      s'.setTx 0 none = .start db

def SoloEnd (f : (c : S.Call) → S.Reply c) (db v : S.Db) (c : Code S ε α) (r : Except ε α)
    (db' : S.Db) : Prop :=
  ∀ s, Views db v s → ∃ s', c.play (Runner.alone? f) s = some (r, s') ∧ s'.setTx 0 none = .start db'

omit [DecidableEq S.Key] in
theorem views_close {s : State S} (h : Views db v s) : s.setTx 0 none = .start db := by
  obtain ⟨ws, ⟨ks, rfl⟩, -⟩ := h
  rw [setTx_setTx, setTx_start]

theorem freeBelow_alone (db : S.Db) (t : Option (Tx S)) (ks : List S.Key) :
    freeBelow 1 ((State.start db).setTx 0 t) (some 0) ks = true := by
  simp [freeBelow]

namespace Solo

theorem ret (a : α) : Solo f db v (.ret a : Code S ε α) (.ok (a, v)) := fun s hs => ⟨s, rfl, hs⟩

theorem throw (e : ε) : Solo f db v (.throw e : Code S ε α) (.error e) :=
  fun s hs => ⟨s, rfl, views_close hs⟩

theorem call (c : S.Call) : Solo f db v (invoke c : Code S ε _) (.ok (f c, v)) :=
  fun s hs => ⟨s, rfl, hs⟩

theorem bind {x : Code S ε α} {g : α → Code S ε β} {a : α} {r : Except ε (β × S.Db)}
    (hx : Solo f db v x (.ok (a, v₁))) (hg : Solo f db v₁ (g a) r) : Solo f db v (x >>= g) r := by
  cases r with
  | ok b =>
    intro s hs
    obtain ⟨s₁, h₁, hs₁⟩ := hx s hs
    obtain ⟨s₂, h₂, hs₂⟩ := hg s₁ hs₁
    exact ⟨s₂, by rw [Prog.play_bind, h₁]; exact h₂, hs₂⟩
  | error e =>
    intro s hs
    obtain ⟨s₁, h₁, hs₁⟩ := hx s hs
    obtain ⟨s₂, h₂, hs₂⟩ := hg s₁ hs₁
    exact ⟨s₂, by rw [Prog.play_bind, h₁]; exact h₂, hs₂⟩

theorem bind_error {x : Code S ε α} {g : α → Code S ε β} {e : ε} (hx : Solo f db v x (.error e)) :
    Solo f db v (x >>= g) (.error e) := by
  intro s hs
  obtain ⟨s₁, h₁, hs₁⟩ := hx s hs
  exact ⟨s₁, by rw [Prog.play_bind, h₁]; rfl, hs₁⟩

theorem mapErr {x : Code S ε α} {r : Except ε (α × S.Db)} (hx : Solo f db v x r) (g : ε → ε') :
    Solo f db v (x.mapErr g) (r.mapError g) := by
  cases r with
  | ok b =>
    intro s hs
    obtain ⟨s₁, h₁, hs₁⟩ := hx s hs
    exact ⟨s₁, by rw [Prog.play_mapErr, h₁]; rfl, hs₁⟩
  | error e =>
    intro s hs
    obtain ⟨s₁, h₁, hs₁⟩ := hx s hs
    exact ⟨s₁, by rw [Prog.play_mapErr, h₁]; rfl, hs₁⟩

variable [FromErr S.Err ε]

theorem query {st : S.Stmt} {a : S.Ans st} {ws : List S.Write}
    {l : List (Except S.Err (S.Ans st × List S.Write))} (he : S.eval st v = .ok (a, ws) :: l) :
    Solo f db v (ReadCommitted.query st : Code S ε _) (.ok (a, applyAll ws v)) := by
  rintro s ⟨ws₀, ⟨ks, rfl⟩, rfl⟩
  have hx : Runner.alone? f (.tx st) ((State.start db).setTx 0 (some ⟨ws₀, ks, false⟩)) =
      some (.ok a, (State.start db).setTx 0
        (some ⟨ws₀ ++ ws, ks ++ S.locks st (applyAll ws₀ db), false⟩)) := by
    simp only [Runner.alone?, Runner.smooth, exec?, State.setTx_self, freeBelow_alone, and_self,
      if_true, Tx.view, setTx_setTx]
    rw [show ((State.start db).setTx 0 (some (⟨ws₀, ks, false⟩ : Tx S))).db = db from rfl, he]
    rfl
  refine ⟨(State.start db).setTx 0 (some ⟨ws₀ ++ ws, ks ++ S.locks st (applyAll ws₀ db), false⟩),
    ?_, ws₀ ++ ws, ⟨_, rfl⟩, applyAll_append _ _ _⟩
  show (Runner.alone? f (.tx st) _).bind _ = _
  rw [hx]
  rfl

theorem query_error {st : S.Stmt} {e : S.Err} {l : List (Except S.Err (S.Ans st × List S.Write))}
    (he : S.eval st v = .error e :: l) :
    Solo f db v (ReadCommitted.query st : Code S ε _) (.error (FromErr.conv e)) := by
  rintro s ⟨ws₀, ⟨ks, rfl⟩, rfl⟩
  have hx : Runner.alone? f (.tx st) ((State.start db).setTx 0 (some ⟨ws₀, ks, false⟩)) =
      some (.error e, (State.start db).setTx 0 (some (Tx.abort ⟨ws₀, ks, false⟩))) := by
    simp only [Runner.alone?, Runner.smooth, exec?, State.setTx_self, freeBelow_alone, and_self,
      if_true, Tx.view, setTx_setTx]
    rw [show ((State.start db).setTx 0 (some (⟨ws₀, ks, false⟩ : Tx S))).db = db from rfl, he]
    rfl
  refine ⟨(State.start db).setTx 0 (some (Tx.abort ⟨ws₀, ks, false⟩)), ?_, ?_⟩
  · show (Runner.alone? f (.tx st) _).bind _ = _
    rw [hx]
    rfl
  · rw [setTx_setTx, setTx_start]

end Solo

namespace SoloEnd

/-- A body that does not commit. -/
theorem of_solo {x : Code S ε α} {r : Except ε (α × S.Db)} (hx : Solo f db v x r) :
    SoloEnd f db v x (r.map Prod.fst) db := by
  intro s hs
  cases r with
  | ok b =>
    obtain ⟨s₁, h₁, hs₁⟩ := hx s hs
    exact ⟨s₁, h₁, views_close hs₁⟩
  | error e => exact hx s hs

theorem bind {x : Code S ε α} {g : α → Code S ε β} {a : α} {r : Except ε β} {db' : S.Db}
    (hx : Solo f db v x (.ok (a, v₁))) (hg : SoloEnd f db v₁ (g a) r db') :
    SoloEnd f db v (x >>= g) r db' := by
  intro s hs
  obtain ⟨s₁, h₁, hs₁⟩ := hx s hs
  obtain ⟨s₂, h₂, hs₂⟩ := hg s₁ hs₁
  exact ⟨s₂, by rw [Prog.play_bind, h₁]; exact h₂, hs₂⟩

theorem bind_error {x : Code S ε α} {g : α → Code S ε β} {e : ε} (hx : Solo f db v x (.error e)) :
    SoloEnd f db v (x >>= g) (.error e) db :=
  of_solo (r := .error e) hx.bind_error

variable [FromErr S.Err ε]

theorem commit : SoloEnd f db v (ReadCommitted.commit : Code S ε Unit) (.ok ()) v := by
  rintro s ⟨ws, ⟨ks, rfl⟩, rfl⟩
  refine ⟨State.start (applyAll ws db), ?_, setTx_start _ _⟩
  show (Runner.alone? f .commit _).bind _ = _
  simp only [Runner.alone?, Runner.smooth, exec?, State.setTx_self, Option.map_some, Option.bind_some]
  rw [setTx_setTx, setTx_start]
  rfl

theorem transaction {body : Code S ε α} {r : Except ε α} {db' : S.Db}
    (hb : SoloEnd f db db body r db') :
    (ReadCommitted.transaction body).play (Runner.alone? f) (.start db) = some (r, .start db') := by
  have hv : Views db db ((State.start db).setTx 0 (some ⟨[], [], false⟩)) := ⟨[], ⟨[], rfl⟩, rfl⟩
  obtain ⟨s, hs, hc⟩ := hb _ hv
  have begin : (beginTx : Code S ε Unit).play (Runner.alone? f) (.start db) =
      some (.ok (), (State.start db).setTx 0 (some ⟨[], [], false⟩)) := rfl
  have ending : (rollback >>= fun _ => .ofExcept r : Code S ε α).play (Runner.alone? f) s =
      some (r, s.setTx 0 none) := by
    cases r <;> rfl
  unfold ReadCommitted.transaction
  rw [Prog.play_bind, begin]
  show (body.attempt >>= fun r => rollback >>= fun _ => Prog.ofExcept r : Code S ε α).play _ _ = _
  rw [Prog.play_bind, Prog.play_attempt, hs]
  show (rollback >>= fun _ => .ofExcept r : Code S ε α).play (Runner.alone? f) s = _
  rw [ending, hc]

end SoloEnd

end ReadCommitted
