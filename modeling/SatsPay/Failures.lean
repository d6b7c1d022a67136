import SatsPay.Alone
import SatsPay.Traces

/-!
# What leaves the store as it was

Only a commit and a statement on its own change the store. Code that does neither before it
fails, or after which a transaction is rolled back, has changed nothing.
-/

namespace ReadCommitted

open Interleave

variable {S : Schema} {ε ε' α β : Type} {s s' : State S}

def ReadOnly (st : S.Stmt) : Prop := ∀ db a ws, .ok (a, ws) ∈ S.eval st db → ws = []

def LeavesStore : Op S → Prop
  | .commit => False
  | .pool st => ReadOnly st
  | _ => True

theorem LeavesStore.db_eq {o : Op S} {a : Op.Resp S o} (ho : LeavesStore o) (h : Exec 0 o s a s') :
    s'.db = s.db := by
  cases h with
  | commit_ok | commit_fail => exact ho.elim
  | pool_ok s st a ws hf he =>
    obtain rfl := ho _ _ _ he
    rfl
  | _ => rfl

/-- What every operation keeps of the store, the code does. -/
theorem same_of_free {P : Op S → Prop} {f : S.Db → β}
    (hP : ∀ {o s a s'}, P o → Exec 0 o s a s' → f s'.db = f s.db) {c : Code S ε α}
    {r : Except ε α} (hc : c.Free fun _ o => P o) (h : Prog.Runs (Exec 0) c s r s') :
    f s'.db = f s.db := by
  have h' : Prog.Runs (fun o s a s' => Exec 0 o s a s' ∧ f s'.db = f s.db) c s r s' :=
    Prog.Runs.of_free (fun _ _ _ _ ho h => ⟨h, hP ho h⟩) hc h
  clear h hc
  induction h' with
  | ret a s => rfl
  | throw e s => rfl
  | op h _ ih => exact ih.trans h.2

theorem db_eq_of_free {c : Code S ε α} {r : Except ε α} (hc : c.Free fun _ o => LeavesStore o)
    (h : Prog.Runs (Exec 0) c s r s') : s'.db = s.db :=
  same_of_free (f := id) LeavesStore.db_eq hc h

theorem free_rollback : (rollback : Code S ε Unit).Free fun _ o => LeavesStore o :=
  .op (fun _ => trivial) .ret

/-- If it fails the store is as it was. -/
def FailsClean (c : Code S ε α) : Prop :=
  ∀ s e s', Prog.Runs (Exec 0) c s (.error e) s' → s'.db = s.db

namespace FailsClean

theorem throw (e : ε) : FailsClean (.throw e : Code S ε α) := by
  intro s e' s' h
  cases h
  rfl

theorem of_free {c : Code S ε α} (hc : c.Free fun _ o => LeavesStore o) : FailsClean c :=
  fun _ _ _ h => db_eq_of_free hc h

theorem bind {c : Code S ε α} {g : α → Code S ε β} (hc : c.Free fun _ o => LeavesStore o)
    (hg : ∀ a, FailsClean (g a)) : FailsClean (c >>= g) := by
  intro s e s' h
  rcases Prog.Runs.of_bind_error h with h | ⟨a, s₁, h₁, h⟩
  · exact db_eq_of_free hc h
  · exact (hg a _ _ _ h).trans (db_eq_of_free hc h₁)

variable [FromErr S.Err ε]

theorem commit : FailsClean (ReadCommitted.commit : Code S ε Unit) := by
  intro s e s' h
  cases h with
  | @op _ _ _ _ _ b _ h hk =>
    cases b with
    | ok _ => cases hk
    | error e =>
      cases hk
      cases h
      rfl

/-- What commits and is done. -/
theorem commit_ret (a : α) : FailsClean (do ReadCommitted.commit; .ret a : Code S ε α) := by
  intro s e s' h
  rcases Prog.Runs.of_bind_error h with h | ⟨_, s₁, h₁, h⟩
  · exact commit _ _ _ h
  · cases h

theorem transaction {body : Code S ε α} (h : FailsClean body) :
    FailsClean (ReadCommitted.transaction body) := by
  intro s e s' hr
  have hbegin : (beginTx : Code S ε Unit).Free fun _ o => LeavesStore o :=
    free_beginTx fun _ => trivial
  rcases Prog.Runs.of_bind_error hr with hr | ⟨_, s₁, hb, hr⟩
  · exact db_eq_of_free hbegin hr
  rcases Prog.Runs.of_bind_error hr with hr | ⟨r, s₂, hbody, hr⟩
  · obtain ⟨_, ⟨⟩, _⟩ := hr.of_attempt
  obtain ⟨_, ⟨⟩, hbody⟩ := hbody.of_attempt
  rcases Prog.Runs.of_bind_error hr with hr | ⟨_, s₃, hroll, hr⟩
  · cases hr with
    | op _ hk => cases hk
  cases r with
  | ok a => cases hr
  | error e' =>
    cases hr
    exact ((db_eq_of_free free_rollback hroll).trans (h _ _ _ hbody)).trans
      (db_eq_of_free hbegin hb)

end FailsClean

end ReadCommitted
