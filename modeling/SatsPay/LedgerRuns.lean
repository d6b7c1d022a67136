import SatsPay.Failures
import SatsPay.Ledger

/-!
# The ledger, one run at a time

What the functions of the ledger have done when they run alone and end with a result, in a part
of the system with any tables of its own.
-/

namespace SatsPay

open Interleave ReadCommitted

variable {X : Ext}

def Db.addEntries (v : Db X) (l : List LedgerEntry) : Db X :=
  { v with core := { v.core with ledger := l ++ v.core.ledger } }

@[simp] theorem Db.addEntries_ext (v : Db X) (l : List LedgerEntry) :
    (v.addEntries l).ext = v.ext := rfl
@[simp] theorem Db.addEntries_wallets (v : Db X) (l : List LedgerEntry) :
    (v.addEntries l).core.wallets = v.core.wallets := rfl
/-- The writes of a statement of `X` leave the shared tables. -/
theorem viewOf_ext_core : ∀ (ws : List X.Write) (v : Db X), (viewOf (ws.map .ext) v).core = v.core
  | [], _ => rfl
  | w :: ws, v => viewOf_ext_core ws (Write.apply (.ext w) v)

/-! ## Statements -/

section
variable {ε : Type} [FromErr DbError ε] {v : Db X} {s s' : State (satsPay X)}

theorem runs_coreQuery {st : CoreStmt} {a : st.Ans} (hs : Sees v s)
    (h : Prog.Runs (Exec 0) (coreQuery st : Code (satsPay X) ε _) s (.ok a) s') :
    ∃ ws, .ok (a, ws) ∈ st.eval v.core ∧ Sees (viewOf (ws.map .core) v) s' := by
  obtain ⟨ws, he, hs'⟩ := runs_query (S := satsPay X) id hs h
  obtain ⟨ws', he', rfl⟩ := core_eval_ok he
  exact ⟨ws', he', hs'⟩

theorem runs_extQuery {st : X.Stmt} {a : X.Ans st} (hs : Sees v s)
    (h : Prog.Runs (Exec 0) (extQuery st : Code (satsPay X) ε _) s (.ok a) s') :
    ∃ ws, .ok (a, ws) ∈ X.eval st v.core v.ext ∧ Sees (viewOf (ws.map .ext) v) s' := by
  obtain ⟨ws, he, hs'⟩ := runs_query (S := satsPay X) id hs h
  obtain ⟨ws', he', rfl⟩ := ext_eval_ok he
  exact ⟨ws', he', hs'⟩

/-- A statement that reads `b`. -/
theorem runs_coreRead {st : CoreStmt} {a b : st.Ans} (hb : st.eval v.core = [.ok (b, [])])
    (hs : Sees v s) (h : Prog.Runs (Exec 0) (coreQuery st : Code (satsPay X) ε _) s (.ok a) s') :
    a = b ∧ Sees v s' := by
  obtain ⟨ws, he, hs'⟩ := runs_coreQuery hs h
  rw [hb] at he
  cases List.mem_singleton.1 he
  exact ⟨rfl, hs'⟩

end

section
variable {v : Db X} {s s' : State (satsPay X)}

theorem runs_lockWallet {id : Uuid} {a : Unit} (hs : Sees v s)
    (h : Prog.Runs (Exec 0) (lockWallet id : Code (satsPay X) LedgerError Unit) s (.ok a) s') :
    Sees v s' := by
  obtain ⟨_, s₁, h₁, h⟩ := h.of_bind
  cases h
  exact (runs_coreRead rfl hs h₁).2

theorem runs_lockWallets {ids : List Uuid} {a : Unit} (hs : Sees v s)
    (h : Prog.Runs (Exec 0) (lockWallets ids : Code (satsPay X) LedgerError Unit) s (.ok a) s') :
    Sees v s' := by
  unfold lockWallets at h
  generalize (ids.insertionSort (· ≤ ·)).dedup = l at h
  induction l generalizing s with
  | nil => cases h; exact hs
  | cons id ids ih =>
    obtain ⟨_, s₁, h₁, h⟩ := h.of_bind
    exact ih (runs_lockWallet hs h₁) h

/-- An entry goes in: no other has its reference, and a debit is covered. -/
structure Booking (v : Db X) (input : LedgerCreditInput) (e : LedgerEntry) : Prop where
  entry : ∃ n, numeric39 input.amount = some n ∧ e = input.entry n
  unused : v.core.ledger.any e.clash = false
  covered : input.amount < 0 → 0 ≤ v.core.balance input.walletId + input.amount

theorem runs_checkReorgHold {input : LedgerCreditInput} {held : Option (Option Time)} {a : Unit}
    (h : Prog.Runs (Exec 0) (checkReorgHold input held : Code (satsPay X) LedgerError Unit) s (.ok a) s') :
    s = s' := by
  unfold checkReorgHold at h
  split at h
  · cases h
  · exact h.of_ret.2

theorem runs_checkBalance {input : LedgerCreditInput} {a : Unit} (hs : Sees v s)
    (h : Prog.Runs (Exec 0) (checkBalance input : Code (satsPay X) LedgerError Unit) s (.ok a) s') :
    (input.amount < 0 → 0 ≤ v.core.balance input.walletId + input.amount) ∧ Sees v s' := by
  unfold checkBalance at h
  split at h
  · obtain ⟨b, s₁, h₁, h⟩ := h.of_bind
    obtain ⟨rfl, hs₁⟩ := runs_coreRead rfl hs h₁
    split at h
    · cases h
    · rename_i hb
      cases h
      exact ⟨fun _ => not_lt.1 hb, hs₁⟩
  · rename_i ha
    cases h
    exact ⟨fun hn => absurd hn ha, hs⟩

theorem runs_applyLedgerEntry {input : LedgerCreditInput} {a : Unit} (hs : Sees v s)
    (h : Prog.Runs (Exec 0) (applyLedgerEntry input : Code (satsPay X) LedgerError Unit) s (.ok a) s') :
    ∃ e, Booking v input e ∧ Sees (v.addEntries [e]) s' := by
  obtain ⟨_, s₁, h₁, h⟩ := h.of_bind
  have hs₁ := runs_lockWallet hs h₁
  obtain ⟨held, s₂, h₂, h⟩ := h.of_bind
  obtain ⟨-, hs₂⟩ := runs_coreRead rfl hs₁ h₂
  obtain ⟨_, s₃, h₃, h⟩ := h.of_bind
  obtain rfl := runs_checkReorgHold h₃
  obtain ⟨_, s₄, h₄, h⟩ := h.of_bind
  obtain ⟨hcov, hs₄⟩ := runs_checkBalance hs₂ h₄
  obtain ⟨ws, he, hs'⟩ := runs_coreQuery hs₄ h
  obtain ⟨n, hn, -, hu, rfl⟩ := insertLedgerEntry_ok (List.mem_singleton.1 he).symm
  exact ⟨_, ⟨⟨n, hn, rfl⟩, hu, hcov⟩, hs'⟩

end

/-! ## What leaves the shared tables -/

def LeavesCore : Op (satsPay X) → Prop
  | .commit | .pool (.core _) => False
  | _ => True

theorem LeavesCore.core_eq {o : Op (satsPay X)} {s s' : State (satsPay X)}
    {a : Op.Resp (satsPay X) o} (ho : LeavesCore o) (h : Exec 0 o s a s') :
    s'.db.core = s.db.core := by
  cases h with
  | commit_ok | commit_fail => exact ho.elim
  | pool_ok s st a ws hf he =>
    cases st with
    | core st => exact ho.elim
    | ext st =>
      obtain ⟨ws', -, rfl⟩ := ext_eval_ok he
      exact viewOf_ext_core ws' s.db
  | _ => rfl

theorem core_eq_of_free {ε α : Type} {c : Code (satsPay X) ε α} {s s' : State (satsPay X)}
    {r : Except ε α} (hc : c.Free fun _ o => LeavesCore o) (h : Prog.Runs (Exec 0) c s r s') :
    s'.db.core = s.db.core :=
  same_of_free (S := satsPay X) (f := Db.core) LeavesCore.core_eq hc h

/-! ## What the operations are -/

section
variable {φ : List (Did (sig (satsPay X))) → Op (satsPay X) → Prop}

theorem free_coreOf {ε : Type} [FromErr DbError ε] (h : ∀ t st, φ t (.tx (.core st)))
    (st : CoreStmt) : (coreQuery st : Code (satsPay X) ε _).Free φ := free_query fun t => h t st

theorem free_lockWalletsOf (h : ∀ t st, φ t (.tx (.core st))) (ids : List Uuid) :
    (lockWallets ids : Code (satsPay X) LedgerError Unit).Free φ := by
  unfold lockWallets
  induction (ids.insertionSort (· ≤ ·)).dedup with
  | nil => exact .ret _
  | cons id ids ih => exact ((free_coreOf h _).bind fun _ => .ret _).bind fun _ => ih

theorem free_applyOf (h : ∀ t st, φ t (.tx (.core st))) (input : LedgerCreditInput) :
    (applyLedgerEntry input : Code (satsPay X) LedgerError Unit).Free φ := by
  refine ((free_coreOf h _).bind fun _ => .ret _).bind fun _ =>
    (free_coreOf h _).bind fun hold => Prog.Free.bind ?_ fun _ => Prog.Free.bind ?_ fun _ =>
      free_coreOf h _
  · unfold checkReorgHold
    split
    · exact .throw _
    · exact .ret _
  · unfold checkBalance
    split
    · refine (free_coreOf h _).bind fun balance => ?_
      split
      · exact .throw _
      · exact .ret _
    · exact .ret _

end

end SatsPay
