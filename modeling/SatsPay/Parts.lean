import SatsPay.Statements

/-!
# Two parts of the system side by side

The tables of `X.sum Y` are those of `X` and of `Y`, and so are its statements and calls.
-/

namespace SatsPay

open Interleave ReadCommitted

section
variable {α β κ κ' : Type}

def liftWrites {ω ω' : Type} (inj : ω → ω') (r : Except DbError (α × List ω)) :
    Except DbError (α × List ω') := r.map fun (a, ws) => (a, ws.map inj)

theorem liftWrites_ok {ω ω' : Type} {inj : ω → ω'} {r : Except DbError (α × List ω)} {a : α}
    {ws : List ω'} (h : .ok (a, ws) = liftWrites inj r) : ∃ ws', r = .ok (a, ws') ∧ ws = ws'.map inj := by
  cases r with
  | error e => cases h
  | ok x =>
    cases h
    exact ⟨_, rfl, rfl⟩

end

namespace Ext

variable (X Y : Ext)

abbrev sumAns : X.Stmt ⊕ Y.Stmt → Type
  | .inl st => X.Ans st
  | .inr st => Y.Ans st

abbrev sumReply : X.Call ⊕ Y.Call → Type
  | .inl c => X.Reply c
  | .inr c => Y.Reply c

abbrev SumRow : X.Key ⊕ Y.Key → Type
  | .inl k => X.Row k
  | .inr k => Y.Row k

def sumLocks : X.Stmt ⊕ Y.Stmt → Core → X.Db × Y.Db → List (X.Key ⊕ Y.Key)
  | .inl st, c, db => (X.locks st c db.1).map .inl
  | .inr st, c, db => (Y.locks st c db.2).map .inr

def sumEval : (st : X.Stmt ⊕ Y.Stmt) → Core → X.Db × Y.Db →
    List (Except DbError (X.sumAns Y st × List (X.Write ⊕ Y.Write)))
  | .inl st, c, db => (X.eval st c db.1).map (liftWrites .inl)
  | .inr st, c, db => (Y.eval st c db.2).map (liftWrites .inr)

def sumApply : X.Write ⊕ Y.Write → X.Db × Y.Db → X.Db × Y.Db
  | .inl w, db => (X.apply w db.1, db.2)
  | .inr w, db => (db.1, Y.apply w db.2)

def sumRow : (k : X.Key ⊕ Y.Key) → X.Db × Y.Db → X.SumRow Y k
  | .inl k, db => X.row k db.1
  | .inr k, db => Y.row k db.2

def sumTouches : X.Write ⊕ Y.Write → List (X.Key ⊕ Y.Key)
  | .inl w => (X.touches w).map .inl
  | .inr w => (Y.touches w).map .inr

variable {X Y}

theorem sumEval_inl {st : X.Stmt} {c : Core} {db : X.Db × Y.Db} {a : X.Ans st}
    {ws : List (X.Write ⊕ Y.Write)} (h : .ok (a, ws) ∈ X.sumEval Y (.inl st) c db) :
    ∃ ws', .ok (a, ws') ∈ X.eval st c db.1 ∧ ws = ws'.map .inl := by
  obtain ⟨r, hr, he⟩ := List.mem_map.1 h
  obtain ⟨ws', rfl, hw⟩ := liftWrites_ok he.symm
  exact ⟨ws', hr, hw⟩

theorem sumEval_inr {st : Y.Stmt} {c : Core} {db : X.Db × Y.Db} {a : Y.Ans st}
    {ws : List (X.Write ⊕ Y.Write)} (h : .ok (a, ws) ∈ X.sumEval Y (.inr st) c db) :
    ∃ ws', .ok (a, ws') ∈ Y.eval st c db.2 ∧ ws = ws'.map .inr := by
  obtain ⟨r, hr, he⟩ := List.mem_map.1 h
  obtain ⟨ws', rfl, hw⟩ := liftWrites_ok he.symm
  exact ⟨ws', hr, hw⟩

variable (X Y)

def sum : Ext where
  Db := X.Db × Y.Db
  Key := X.Key ⊕ Y.Key
  Write := X.Write ⊕ Y.Write
  Stmt := X.Stmt ⊕ Y.Stmt
  Ans := X.sumAns Y
  Call := X.Call ⊕ Y.Call
  Reply := X.sumReply Y
  locks := X.sumLocks Y
  eval := X.sumEval Y
  apply := X.sumApply Y
  Row := X.SumRow Y
  row := X.sumRow Y
  touches := X.sumTouches Y
  row_apply k w db h := by
    cases w with
    | inl w =>
      cases k with
      | inl k => exact X.row_apply k w db.1 fun hk => h (List.mem_map_of_mem hk)
      | inr k => rfl
    | inr w =>
      cases k with
      | inl k => rfl
      | inr k => exact Y.row_apply k w db.2 fun hk => h (List.mem_map_of_mem hk)
  row_congr k w db db' h := by
    cases w with
    | inl w =>
      cases k with
      | inl k => exact X.row_congr k w _ _ h
      | inr k => exact h
    | inr w =>
      cases k with
      | inl k => exact h
      | inr k => exact Y.row_congr k w _ _ h
  covered st c db a ws h w hw k hk := by
    cases st with
    | inl st =>
      obtain ⟨ws', h', rfl⟩ := sumEval_inl h
      obtain ⟨w', hw', rfl⟩ := List.mem_map.1 hw
      obtain ⟨k', hk', rfl⟩ := List.mem_map.1 hk
      exact List.mem_map_of_mem (X.covered st _ _ _ _ h' w' hw' k' hk')
    | inr st =>
      obtain ⟨ws', h', rfl⟩ := sumEval_inr h
      obtain ⟨w', hw', rfl⟩ := List.mem_map.1 hw
      obtain ⟨k', hk', rfl⟩ := List.mem_map.1 hk
      exact List.mem_map_of_mem (Y.covered st _ _ _ _ h' w' hw' k' hk')

instance [DecidableEq X.Key] [DecidableEq Y.Key] : DecidableEq (X.sum Y).Key :=
  inferInstanceAs (DecidableEq (X.Key ⊕ Y.Key))

end Ext

def leftQuery {X Y : Ext} {ε : Type} [FromErr DbError ε] (st : X.Stmt) :
    Code (satsPay (X.sum Y)) ε (X.Ans st) := extQuery (X := X.sum Y) (.inl st)

def rightQuery {X Y : Ext} {ε : Type} [FromErr DbError ε] (st : Y.Stmt) :
    Code (satsPay (X.sum Y)) ε (Y.Ans st) := extQuery (X := X.sum Y) (.inr st)

end SatsPay
