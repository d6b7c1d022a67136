import SatsPay.Focus
import SatsPay.Requests

/-!
# Airdrop points

The points of the active season: an award logs them, adds them to the user's and sets the
user's tier anew.
-/

namespace SatsPay

open Interleave ReadCommitted

inductive SeasonStatus where
  | upcoming | active | calculating | completed
  deriving DecidableEq, Repr

structure Season where
  seasonNumber : ℤ
  status : SeasonStatus

inductive Tier where
  | bronze | silver | gold | platinum | diamond
  deriving DecidableEq, Repr

structure PointLog where
  seasonId : Uuid
  userId : Uuid
  activity : String
  description : String
  points : ℤ
  bonusPoints : ℤ
  deriving DecidableEq

structure UserPoints where
  basePoints : ℤ
  bonusPoints : ℤ
  totalPoints : ℤ
  tier : Tier
  multiplier : ℚ

structure AirdropDb where
  seasons : Table Season
  logs : List PointLog
  points : AList fun _ : Uuid × Uuid => UserPoints

inductive AirdropStmt where
  | activeSeason
  | insertPointLog (log : PointLog)
  | addPoints (seasonId userId : Uuid) (base bonus : ℤ)
  | setTier (seasonId userId : Uuid) (total : ℤ) (tier : Tier) (multiplier : ℚ)

abbrev AirdropStmt.Ans : AirdropStmt → Type
  | .activeSeason => Option Uuid
  | .insertPointLog _ => Unit
  | .addPoints _ _ _ _ => ℤ × ℤ
  | .setTier _ _ _ _ _ => Unit

inductive AirdropWrite where
  | addLog (log : PointLog)
  | putPoints (k : Uuid × Uuid) (r : UserPoints)

def AirdropWrite.apply : AirdropWrite → AirdropDb → AirdropDb
  | .addLog log, db => { db with logs := log :: db.logs }
  | .putPoints k r, db => { db with points := db.points.insert k r }

def AirdropWrite.touches : AirdropWrite → List (Uuid × Uuid)
  | .addLog _ => []
  | .putPoints k _ => [k]

def AirdropDb.latestActive (db : AirdropDb) : List Uuid :=
  let active := db.seasons.entries.filter fun s => s.2.status == .active
  (active.filter fun s => active.all fun t => decide (t.2.seasonNumber ≤ s.2.seasonNumber)).map
    Sigma.fst

/-- A `bigint` column. -/
def fitsBigint (n : ℤ) : Bool := decide (-2 ^ 63 ≤ n ∧ n < 2 ^ 63)

def UserPoints.add (base bonus : ℤ) : Option UserPoints → UserPoints
  | some r => { r with basePoints := r.basePoints + base, bonusPoints := r.bonusPoints + bonus }
  | none => ⟨base, bonus, base + bonus, .bronze, 1⟩

def UserPoints.fits (r : UserPoints) : Bool :=
  fitsBigint r.basePoints && fitsBigint r.bonusPoints && fitsBigint r.totalPoints

def AirdropStmt.eval : (st : AirdropStmt) → Core → AirdropDb →
    List (Except DbError (st.Ans × List AirdropWrite))
  | .activeSeason, _, db =>
    match db.latestActive with
    | [] => [.ok (none, [])]
    | l => l.map fun id => .ok (some id, [])
  | .insertPointLog log, _, _ => [.ok ((), [.addLog log])]
  | .addPoints seasonId userId base bonus, _, db =>
    let r := UserPoints.add base bonus (db.points.lookup (seasonId, userId))
    if r.fits then [.ok ((r.basePoints, r.bonusPoints), [.putPoints (seasonId, userId) r])]
    else [.error .numericOverflow]
  | .setTier seasonId userId total tier multiplier, _, db =>
    match db.points.lookup (seasonId, userId) with
    | some r => [.ok ((), [.putPoints (seasonId, userId)
        { r with totalPoints := total, tier := tier, multiplier := multiplier }])]
    | none => [.ok ((), [])]

def AirdropStmt.locks : AirdropStmt → Core → AirdropDb → List (Uuid × Uuid)
  | .addPoints seasonId userId _ _, _, _ | .setTier seasonId userId _ _ _, _, _ =>
    [(seasonId, userId)]
  | _, _, _ => []

theorem AirdropStmt.covered {st : AirdropStmt} {c : Core} {db : AirdropDb} {a : st.Ans}
    {ws : List AirdropWrite} (h : .ok (a, ws) ∈ st.eval c db) :
    ∀ w ∈ ws, ∀ k ∈ w.touches, k ∈ st.locks c db := by
  intro w hw k hk
  cases st with
  | activeSeason =>
    simp only [AirdropStmt.eval] at h
    split at h
    · cases List.mem_singleton.1 h
      cases hw
    · obtain ⟨id, -, he⟩ := List.mem_map.1 h
      cases he
      cases hw
  | insertPointLog log =>
    cases List.mem_singleton.1 h
    cases List.mem_singleton.1 hw
    cases hk
  | addPoints seasonId userId base bonus =>
    simp only [AirdropStmt.eval] at h
    split at h
    · cases List.mem_singleton.1 h
      cases List.mem_singleton.1 hw
      exact hk
    · cases List.mem_singleton.1 h
  | setTier seasonId userId total tier multiplier =>
    simp only [AirdropStmt.eval] at h
    split at h
    · cases List.mem_singleton.1 h
      cases List.mem_singleton.1 hw
      exact hk
    · cases List.mem_singleton.1 h
      cases hw

def airdropExt : Ext where
  Db := AirdropDb
  Key := Uuid × Uuid
  Write := AirdropWrite
  Stmt := AirdropStmt
  Ans := AirdropStmt.Ans
  Call := Empty
  Reply := Empty.elim
  locks := AirdropStmt.locks
  eval := AirdropStmt.eval
  apply := AirdropWrite.apply
  Row _ := Option UserPoints
  row k db := db.points.lookup k
  touches := AirdropWrite.touches
  row_apply k w db h := by
    cases w with
    | addLog log => rfl
    | putPoints k' r => exact AList.lookup_insert_ne (by simpa [AirdropWrite.touches] using h)
  row_congr k w db db' h := by
    cases w with
    | addLog log => exact h
    | putPoints k' r =>
      by_cases e : k = k'
      · subst e
        simp only [AirdropWrite.apply, AList.lookup_insert]
      · simp only [AirdropWrite.apply, AList.lookup_insert_ne e, h]
  covered _ _ _ _ _ h := AirdropStmt.covered h

instance : DecidableEq airdropExt.Key := inferInstanceAs (DecidableEq (Uuid × Uuid))

/-! ## Awards -/

inductive AwardResult where
  | awarded
  | noActiveSeason
  deriving DecidableEq, Repr

def calculateTier (points : ℤ) : Tier × ℚ :=
  if 5000000 ≤ points then (.diamond, 5 / 2)
  else if 1000000 ≤ points then (.platinum, 2)
  else if 250000 ≤ points then (.gold, 3 / 2)
  else if 50000 ≤ points then (.silver, 5 / 4)
  else (.bronze, 1)

def describeActivity : String → String
  | "REFERRAL_SIGNUP" =>
    "Bônus de Indicação: amigo cadastrado pelo seu link exclusivo (+50 pts)"
  | "REFERRAL_WELCOME" => "Bônus de Boas-Vindas: cadastro via link de convite (+50 pts)"
  | "FAUCET_CLAIM" => "Reivindicação de Torneira / Faucet (+50 pts)"
  | "SWAP_EXECUTE" => "Operação de Conversão Instantânea / Swap (+100 pts)"
  | "COMMISSION_EARNED" => "Comissão de Afiliado: atividade gerada por indicado (+10 pts)"
  | "DEPOSIT_CONFIRMED" => "Depósito Confirmado On-Chain (+100 pts)"
  | other => other

section
variable {X : Ext} (run : (st : AirdropStmt) → Code (satsPay X) DbError st.Ans)

def awardInSeason (seasonId userId : Uuid) (baseAdd bonusAdd : ℤ) (activity : String) :
    Code (satsPay X) DbError AwardResult := do
  run (.insertPointLog ⟨seasonId, userId, activity, describeActivity activity, baseAdd, bonusAdd⟩)
  let new ← run (.addPoints seasonId userId baseAdd bonusAdd)
  let tier := calculateTier (new.1 + new.2)
  run (.setTier seasonId userId (roundHalfAway ((new.1 + new.2 : ℤ) * tier.2)) tier.1 tier.2)
  pure .awarded

def awardAirdropPointsTx (userId : Uuid) (baseAdd bonusAdd : ℤ) (activity : String) :
    Code (satsPay X) DbError AwardResult := do
  let season ← run .activeSeason
  match season with
  | none => pure .noActiveSeason
  | some seasonId => awardInSeason run seasonId userId baseAdd bonusAdd activity

def awardAirdropPoints (userId : Uuid) (baseAdd bonusAdd : ℤ) (activity : String) :
    Code (satsPay X) DbError AwardResult :=
  transaction (do
    let result ← awardAirdropPointsTx run userId baseAdd bonusAdd activity
    match result with
    | .awarded => do
      commit
      pure result
    | .noActiveSeason => pure result)

variable {run}
variable {fails : X.Call → Prop} {reads : Stmt X → Prop}

theorem tentative_award (hr : ∀ st, Tentative (S := satsPay X) fails reads (run st))
    (userId : Uuid) (baseAdd bonusAdd : ℤ) (activity : String) :
    Tentative (S := satsPay X) fails reads
      (awardAirdropPointsTx run userId baseAdd bonusAdd activity) := by
  refine (hr _).bind fun season => ?_
  cases season with
  | none => exact .ret _
  | some seasonId =>
    exact (hr _).bind fun _ => (hr _).bind fun _ => (hr _).bind fun _ => .ret _

variable {F : Focus X} {cond : Db X → Hist (sig (satsPay X)) → Event (sig (satsPay X)) → Prop}
variable {P : Plan F cond} {p : Nat}

/-- Where the points are not seen, nor is an award. -/
theorem aloof_award (hr : ∀ st, P.Aloof p (run st)) (userId : Uuid) (baseAdd bonusAdd : ℤ)
    (activity : String) : P.Aloof p (awardAirdropPointsTx run userId baseAdd bonusAdd activity) := by
  refine (hr _).bind fun season => ?_
  cases season with
  | none => exact .ret _
  | some seasonId =>
    exact (hr _).bind fun _ => (hr _).bind fun _ => (hr _).bind fun _ => .ret _

end

end SatsPay
