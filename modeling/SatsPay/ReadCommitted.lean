import SatsPay.Interleave

/-!
# READ COMMITTED transactions with row locks

A `Schema` says what a statement of a store reads, locks, answers and writes.
`Exec` runs statements for any number of sessions: a statement of a transaction
sees the committed store and its own writes, waits for the row locks it needs,
and keeps them until commit or rollback; a failed statement aborts its
transaction; a statement outside a transaction commits by itself. Any statement
and any commit may fail, and one that reports a failure has written nothing.
-/

namespace ReadCommitted

open Interleave

structure Schema where
  Db : Type
  /-- The rows a statement can lock. -/
  Key : Type
  Write : Type
  Err : Type
  Stmt : Type
  Ans : Stmt → Type
  /-- Calls that leave the store alone. -/
  Call : Type
  Reply : Call → Type
  /-- The failure of the connection. -/
  io : Err
  locks : Stmt → Db → List Key
  /-- What a statement may answer and write: more than one outcome where the
  query leaves a choice. -/
  eval : (st : Stmt) → Db → List (Except Err (Ans st × List Write))
  apply : Write → Db → Db
  tick : Db → Db → Prop
  /-- The data a row lock guards, and the locks that guard a write. -/
  Row : Key → Type
  row : (k : Key) → Db → Row k
  touches : Write → List Key
  row_apply : ∀ (k : Key) (w : Write) (db : Db), k ∉ touches w → row k (apply w db) = row k db
  row_congr : ∀ (k : Key) (w : Write) (db db' : Db), row k db' = row k db →
    row k (apply w db') = row k (apply w db)
  row_tick : ∀ (k : Key) (db db' : Db), tick db db' → row k db' = row k db

/-- The conversion of an error that a caller's `?` inserts. -/
class FromErr (δ ε : Type) where
  conv : δ → ε

instance (δ : Type) : FromErr δ δ := ⟨id⟩

section
variable (S : Schema)

inductive Op where
  | begin
  | commit
  | rollback
  | tx (st : S.Stmt)
  | pool (st : S.Stmt)
  | call (c : S.Call)

abbrev Op.Resp : Op S → Type
  | .begin => Except S.Err Unit
  | .commit => Except S.Err Unit
  | .rollback => Unit
  | .tx st => Except S.Err (S.Ans st)
  | .pool st => Except S.Err (S.Ans st)
  | .call c => S.Reply c

abbrev sig : Sig := ⟨Op S, Op.Resp S⟩

/-- An open transaction: its writes, oldest first, and its locks. -/
structure Tx where
  writes : List S.Write
  locks : List S.Key
  aborted : Bool

structure State where
  db : S.Db
  tx : Nat → Option (Tx S)

end

variable {S : Schema}

def applyAll (ws : List S.Write) (db : S.Db) : S.Db := ws.foldl (fun db w => S.apply w db) db

@[simp] theorem applyAll_nil (db : S.Db) : applyAll [] db = db := rfl
@[simp] theorem applyAll_cons (w : S.Write) (ws : List S.Write) (db : S.Db) :
    applyAll (w :: ws) db = applyAll ws (S.apply w db) := rfl

theorem applyAll_append (ws ws' : List S.Write) (db : S.Db) :
    applyAll (ws ++ ws') db = applyAll ws' (applyAll ws db) := List.foldl_append

theorem row_applyAll {k : S.Key} : ∀ {ws : List S.Write} {db : S.Db},
    (∀ w ∈ ws, k ∉ S.touches w) → S.row k (applyAll ws db) = S.row k db
  | [], _, _ => rfl
  | w :: ws, db, h => by
    rw [applyAll_cons, row_applyAll fun w' hw' => h w' (List.mem_cons_of_mem _ hw'),
      S.row_apply _ _ _ (h w List.mem_cons_self)]

/-- What a transaction sees of a row it has locked is not changed by others. -/
theorem row_applyAll_congr {k : S.Key} : ∀ (ws : List S.Write) {db db' : S.Db},
    S.row k db' = S.row k db → S.row k (applyAll ws db') = S.row k (applyAll ws db)
  | [], _, _, h => h
  | w :: ws, _, _, h => row_applyAll_congr ws (S.row_congr _ w _ _ h)

/-! ## The meaning of an operation -/

def State.setTx (s : State S) (p : Nat) (t : Option (Tx S)) : State S :=
  { s with tx := Function.update s.tx p t }

@[simp] theorem State.setTx_db (s : State S) (p : Nat) (t : Option (Tx S)) :
    (s.setTx p t).db = s.db := rfl
@[simp] theorem State.setTx_self (s : State S) (p : Nat) (t : Option (Tx S)) :
    (s.setTx p t).tx p = t := Function.update_self ..
theorem State.setTx_ne (s : State S) {p q : Nat} (h : q ≠ p) (t : Option (Tx S)) :
    (s.setTx p t).tx q = s.tx q := Function.update_of_ne h ..

def State.start (db : S.Db) : State S := ⟨db, fun _ => none⟩

def Tx.view (t : Tx S) (db : S.Db) : S.Db := applyAll t.writes db

/-- No transaction but `own`'s holds one of `ks`. -/
def State.free (s : State S) (own : Option Nat) (ks : List S.Key) : Prop :=
  ∀ q t, some q ≠ own → s.tx q = some t → ∀ k ∈ ks, k ∉ t.locks

def Tx.abort (t : Tx S) : Tx S := { t with writes := [], aborted := true }

/-- A commit or a statement that fails has done nothing: that it was done and its
acknowledgement lost is left out. -/
inductive Exec (p : Nat) : (o : Op S) → State S → Op.Resp S o → State S → Prop
  | begin_ok (s : State S) (h : s.tx p = none) :
      Exec p .begin s (.ok ()) (s.setTx p (some ⟨[], [], false⟩))
  | begin_fail (s : State S) (h : s.tx p = none) : Exec p .begin s (.error S.io) s
  | tx_ok (s : State S) (st : S.Stmt) (t : Tx S) (a : S.Ans st) (ws : List S.Write)
      (h : s.tx p = some t) (ha : t.aborted = false) (hf : s.free (some p) (S.locks st (t.view s.db)))
      (he : .ok (a, ws) ∈ S.eval st (t.view s.db)) :
      Exec p (.tx st) s (.ok a)
        (s.setTx p (some ⟨t.writes ++ ws, t.locks ++ S.locks st (t.view s.db), false⟩))
  | tx_error (s : State S) (st : S.Stmt) (t : Tx S) (e : S.Err) (h : s.tx p = some t)
      (ha : t.aborted = false) (hf : s.free (some p) (S.locks st (t.view s.db)))
      (he : .error e ∈ S.eval st (t.view s.db)) :
      Exec p (.tx st) s (.error e) (s.setTx p (some t.abort))
  | tx_fail (s : State S) (st : S.Stmt) (t : Tx S) (h : s.tx p = some t) :
      Exec p (.tx st) s (.error S.io) (s.setTx p (some t.abort))
  | commit_ok (s : State S) (t : Tx S) (h : s.tx p = some t) :
      Exec p .commit s (.ok ()) { s.setTx p none with db := t.view s.db }
  | commit_fail (s : State S) (t : Tx S) (h : s.tx p = some t) :
      Exec p .commit s (.error S.io) (s.setTx p none)
  | rollback (s : State S) : Exec p .rollback s () (s.setTx p none)
  | pool_ok (s : State S) (st : S.Stmt) (a : S.Ans st) (ws : List S.Write)
      (hf : s.free none (S.locks st s.db)) (he : .ok (a, ws) ∈ S.eval st s.db) :
      Exec p (.pool st) s (.ok a) { s with db := applyAll ws s.db }
  | pool_error (s : State S) (st : S.Stmt) (e : S.Err) (hf : s.free none (S.locks st s.db))
      (he : .error e ∈ S.eval st s.db) : Exec p (.pool st) s (.error e) s
  | pool_fail (s : State S) (st : S.Stmt) : Exec p (.pool st) s (.error S.io) s
  | call (s : State S) (c : S.Call) (r : S.Reply c) : Exec p (.call c) s r s

abbrev machine (S : Schema) : Machine where
  Sg := sig S
  S := State S
  exec := Exec
  close p s := s.setTx p none
  env s s' := S.tick s.db s'.db ∧ s'.tx = s.tx

abbrev Run (main : Prog (sig S) Empty Unit → Prop)
    (cond : Conf (machine S) → Event (sig S) → Prop) (db : S.Db) (w : World (machine S)) :
    Prop :=
  Steps (machine S) main cond (.init (machine S) (.start db)) w

/-! ## Programs -/

abbrev Code (S : Schema) (ε α : Type) := Prog (sig S) ε α

section
variable {ε α : Type} [FromErr S.Err ε]

def orThrow : Except S.Err α → Code S ε α
  | .ok a => .ret a
  | .error e => .throw (FromErr.conv e)

def beginTx : Code S ε Unit := .op .begin orThrow
def commit : Code S ε Unit := .op .commit orThrow
def rollback : Code S ε Unit := .op .rollback .ret
def query (st : S.Stmt) : Code S ε (S.Ans st) := .op (.tx st) orThrow
def poolQuery (st : S.Stmt) : Code S ε (S.Ans st) := .op (.pool st) orThrow
def invoke (c : S.Call) : Code S ε (S.Reply c) := .op (.call c) .ret

/-- The scope of a transaction variable: `body` commits where it says so, and
what it leaves open is rolled back. -/
def transaction (body : Code S ε α) : Code S ε α := do
  beginTx
  let r ← body.attempt
  rollback
  .ofExcept r

end

end ReadCommitted
