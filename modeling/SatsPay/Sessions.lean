import SatsPay.Auth
import SatsPay.Script

/-!
# Refresh tokens

`refresh`, `revoke_refresh_token` and the revocation of a user's tokens on reuse, in
any interleaving: what a session was minted from, and when a token is revoked for good.
-/

namespace SatsPay

open Interleave ReadCommitted

/-! ## What a process has in hand -/

def clockOf : List (Did (sig authStore)) → Option Timestamp
  | [] => none
  | ⟨.call .utcNow, now⟩ :: _ => some now
  | _ :: t => clockOf t

/-- A token that is being exchanged for a session: claimed, or revoked and in its grace. -/
structure Mint where
  tokenHash : String
  claimed : Bool
  deriving DecidableEq

section
variable (E : AuthEnv)

def graceMint (tokenHash : String) (row : RefreshTokenRow) (clock : Option Timestamp) :
    Option Mint :=
  match row.revokedAt, clock with
  | some revokedAt, some now =>
    if inGrace E now revokedAt row.expiresAt then some ⟨tokenHash, false⟩ else none
  | _, _ => none

def minting : List (Did (sig authStore)) → Option Mint
  | [] => none
  | ⟨.pool (.claimRefreshToken tokenHash _), .ok n⟩ :: _ =>
    if n = 1 then some ⟨tokenHash, true⟩ else none
  | ⟨.pool (.findRefreshToken tokenHash), .ok (some row)⟩ :: t =>
    graceMint E tokenHash row (clockOf t)
  | ⟨.pool (.createRefreshToken _ _ _), _⟩ :: _ => none
  | ⟨.pool (.revokeAllUserRefreshTokens _ _), _⟩ :: _ => none
  | ⟨.pool (.revokeRefreshTokenByHash _ _), _⟩ :: _ => none
  | _ :: t => minting t

def userFound : List (Did (sig authStore)) → Option (String × Uuid)
  | [] => none
  | ⟨.pool (.findRefreshTokenWithUser tokenHash), .ok (some (_, user))⟩ :: _ =>
    some (tokenHash, user.id)
  | _ :: t => userFound t

def AuthStmt.onTokens : AuthStmt → Bool
  | .createRefreshToken _ _ _ | .claimRefreshToken _ _ | .revokeAllUserRefreshTokens _ _
  | .revokeRefreshTokenByHash _ _ => true
  | _ => false

/-- Tokens are written outside transactions, and made for the owner of the one that is
exchanged. -/
def MintsFound (t : List (Did (sig authStore))) : Op authStore → Prop
  | .tx st => st.onTokens = false
  | .pool (.createRefreshToken userId _ _) =>
    ∃ m, minting E t = some m ∧ userFound t = some (m.tokenHash, userId)
  | _ => True

end

/-! ## What a step does to the tokens -/

abbrev Tokens := AList fun _ : String => RefreshToken

def RefreshToken.revokeIf (P : Prop) [Decidable P] (now : Timestamp) (t : RefreshToken) :
    RefreshToken :=
  if P ∧ t.revokedAt = none then { t with revokedAt := some now } else t

@[simp] theorem RefreshToken.userId_revokeIf (P : Prop) [Decidable P] (now : Timestamp)
    (t : RefreshToken) : (t.revokeIf P now).userId = t.userId := by
  unfold RefreshToken.revokeIf
  split <;> rfl

theorem RefreshToken.revoked_revokeIf {P : Prop} [Decidable P] {now : Timestamp}
    {t : RefreshToken} (h : P ∨ t.revokedAt ≠ none) : (t.revokeIf P now).revokedAt ≠ none := by
  unfold RefreshToken.revokeIf
  split
  · exact fun h' => nomatch h'
  · rename_i hn
    intro h'
    exact h.elim (fun hp => hn ⟨hp, h'⟩) fun hr => hr h'

def RevokedWhere (P : String → RefreshToken → Prop) [∀ k t, Decidable (P k t)] (now : Timestamp)
    (tokens tokens' : Tokens) : Prop :=
  ∀ k, tokens'.lookup k = (tokens.lookup k).map fun t => t.revokeIf (P k t) now

inductive TokenMove (tokens : Tokens) : Did (sig authStore) → Tokens → Prop
  | create {userId : Uuid} {tokenHash : String} {expiresAt : Timestamp}
      (hk : tokens.lookup tokenHash = none) :
      TokenMove tokens ⟨.pool (.createRefreshToken userId tokenHash expiresAt), .ok ()⟩
        (tokens.insert tokenHash ⟨userId, expiresAt, none⟩)
  | claim {tokenHash : String} {now : Timestamp} {t : RefreshToken} {tokens' : Tokens}
      (hk : tokens.lookup tokenHash = some t) (hr : t.revokedAt = none)
      (h : RevokedWhere (fun k _ => k = tokenHash) now tokens tokens') :
      TokenMove tokens ⟨.pool (.claimRefreshToken tokenHash now), .ok (1 : ℕ)⟩ tokens'
  | logout {tokenHash : String} {now : Timestamp} {tokens' : Tokens}
      (h : RevokedWhere (fun k _ => k = tokenHash) now tokens tokens') :
      TokenMove tokens ⟨.pool (.revokeRefreshTokenByHash tokenHash now), .ok ()⟩ tokens'
  | reuse {userId : Uuid} {now : Timestamp} {tokens' : Tokens}
      (h : RevokedWhere (fun _ t => t.userId = userId) now tokens tokens') :
      TokenMove tokens ⟨.pool (.revokeAllUserRefreshTokens userId now), .ok ()⟩ tokens'
  | user {tokenHash : String} {row : RefreshTokenRow} {user : UserRow} {t : RefreshToken}
      (hk : tokens.lookup tokenHash = some t) (hu : user.id = t.userId) :
      TokenMove tokens ⟨.pool (.findRefreshTokenWithUser tokenHash), .ok (some (row, user))⟩ tokens
  | other {d : Did (sig authStore)}
      (hcreate : ∀ userId tokenHash expiresAt,
        d ≠ ⟨.pool (.createRefreshToken userId tokenHash expiresAt), .ok ()⟩)
      (hclaim : ∀ tokenHash now, d ≠ ⟨.pool (.claimRefreshToken tokenHash now), .ok (1 : ℕ)⟩)
      (hlogout : ∀ tokenHash now, d ≠ ⟨.pool (.revokeRefreshTokenByHash tokenHash now), .ok ()⟩)
      (hreuse : ∀ userId now, d ≠ ⟨.pool (.revokeAllUserRefreshTokens userId now), .ok ()⟩)
      (huser : ∀ tokenHash row user,
        d ≠ ⟨.pool (.findRefreshTokenWithUser tokenHash), .ok (some (row, user))⟩) :
      TokenMove tokens d tokens

def SparesTokens (w : AuthWrite) : Prop := ∀ k t, w ≠ .putToken k t

theorem poolOnly_tokens :
    PoolOnly (S := authStore) AuthDb.refreshTokens (fun st => st.onTokens = false) SparesTokens where
  see_apply w db h := by
    cases w with
    | putToken k t => exact absurd rfl (h k t)
    | putOtp i o => rfl
  see_tick := by
    rintro db _ ⟨t, -, rfl⟩
    rfl
  spares_eval st hst db a ws he w hw := by
    rintro k t rfl
    cases st with
    | createRefreshToken _ _ _ | claimRefreshToken _ _ | revokeAllUserRefreshTokens _ _
    | revokeRefreshTokenByHash _ _ => cases hst
    | findRecentOtp _ _ _ | findActiveOtp _ _ _ =>
      obtain ⟨o, -, ho⟩ := List.mem_map.1 he
      cases ho
      cases hw
    | consumeOtps found now =>
      cases List.mem_singleton.1 he
      obtain ⟨i, -, hi⟩ := List.mem_filterMap.1 hw
      obtain ⟨o, -, ho⟩ := Option.map_eq_some_iff.1 hi
      cases ho
    | insertOtp _ _ _ _ _ _ =>
      simp only [authStore, AuthStmt.eval] at he
      split at he
      · cases List.mem_singleton.1 he
      · split at he
        · cases List.mem_singleton.1 he
        · cases List.mem_singleton.1 he
          cases List.mem_singleton.1 hw
    | incrementOtpAttempts i =>
      cases List.mem_singleton.1 he
      split at hw
      · cases List.mem_singleton.1 hw
      · cases hw
    | claimOtp i now =>
      simp only [authStore, AuthStmt.eval] at he
      split at he
      · cases List.mem_singleton.1 he
        cases List.mem_singleton.1 hw
      · cases List.mem_singleton.1 he
        cases hw
    | _ =>
      cases List.mem_singleton.1 he
      cases hw

section
variable {P : String → RefreshToken → Prop} [∀ k t, Decidable (P k t)] {now : Timestamp}

/-- One token is revoked. -/
theorem revokedWhere_insert {tokens : Tokens} {k : String} {t : RefreshToken}
    (hk : tokens.lookup k = some t) (hr : t.revokedAt = none) :
    RevokedWhere (fun j _ => j = k) now tokens
      (tokens.insert k { t with revokedAt := some now }) := by
  intro j
  by_cases h : j = k
  · subst h
    rw [AList.lookup_insert, hk]
    simp [RefreshToken.revokeIf, hr]
  · rw [AList.lookup_insert_ne h]
    simp [RefreshToken.revokeIf, h]

/-- None is there to be revoked. -/
theorem revokedWhere_refl {tokens : Tokens}
    (h : ∀ k t, tokens.lookup k = some t → P k t → t.revokedAt ≠ none) :
    RevokedWhere P now tokens tokens := by
  intro k
  cases hk : tokens.lookup k with
  | none => rfl
  | some t =>
    refine congrArg some (if_neg ?_).symm
    exact fun ⟨hp, hr⟩ => h k t hk hp hr

/-- The writes of an `UPDATE`, one for each row it changes. -/
theorem lookup_putTokens (f : RefreshToken → RefreshToken) (k : String) :
    ∀ (l : List (Sigma fun _ : String => RefreshToken)) (db : AuthDb), l.NodupKeys →
      (applyAll (S := authStore) (l.map fun t => AuthWrite.putToken t.1 (f t.2)) db).refreshTokens.lookup k =
        ((l.dlookup k).map f).or (db.refreshTokens.lookup k)
  | [], db, _ => rfl
  | ⟨j, t⟩ :: l, db, hn => by
    obtain ⟨hj, hn⟩ := List.nodupKeys_cons.1 hn
    rw [List.map_cons, applyAll_cons, lookup_putTokens f k l _ hn]
    by_cases h : k = j
    · subst h
      rw [List.dlookup_cons_eq, List.dlookup_eq_none.2 hj]
      exact AList.lookup_insert _
    · rw [List.dlookup_cons_ne _ _ h]
      exact congrArg _ (AList.lookup_insert_ne h)

theorem dlookup_filter {p : Sigma (fun _ : String => RefreshToken) → Bool} (k : String) :
    ∀ (l : List (Sigma fun _ : String => RefreshToken)), l.NodupKeys →
      (l.filter p).dlookup k = (l.dlookup k).filter fun t => p ⟨k, t⟩
  | [], _ => rfl
  | ⟨j, t⟩ :: l, hn => by
    obtain ⟨hj, hn⟩ := List.nodupKeys_cons.1 hn
    have ih := dlookup_filter (p := p) k l hn
    by_cases h : k = j
    · subst h
      rw [List.dlookup_cons_eq]
      by_cases hp : p ⟨k, t⟩
      · rw [List.filter_cons_of_pos hp, List.dlookup_cons_eq, Option.filter_some, if_pos hp]
      · rw [List.filter_cons_of_neg hp, ih, List.dlookup_eq_none.2 hj, Option.filter_some, if_neg hp]
        rfl
    · rw [List.dlookup_cons_ne _ _ h, ← ih]
      by_cases hp : p ⟨j, t⟩
      · rw [List.filter_cons_of_pos hp, List.dlookup_cons_ne _ _ h]
      · rw [List.filter_cons_of_neg hp]

theorem revokedWhere_all (userId : Uuid) (db : AuthDb) :
    RevokedWhere (fun _ t => t.userId = userId) now db.refreshTokens
      (applyAll (S := authStore) ((db.refreshTokens.entries.filter fun t =>
        t.2.userId == userId && t.2.revokedAt.isNone).map fun t =>
          .putToken t.1 { t.2 with revokedAt := some now }) db).refreshTokens := by
  intro k
  have hn := db.refreshTokens.nodupKeys
  rw [lookup_putTokens (fun t => { t with revokedAt := some now }) k _ db
    (List.NodupKeys.sublist List.filter_sublist hn), dlookup_filter k _ hn]
  show ((db.refreshTokens.lookup k).filter _ |>.map _).or (db.refreshTokens.lookup k) = _
  cases hk : db.refreshTokens.lookup k with
  | none => rfl
  | some t =>
    by_cases h : t.userId = userId ∧ t.revokedAt = none
    · have hp : (t.userId == userId && t.revokedAt.isNone) = true := by simp [h.1, h.2]
      rw [Option.filter_some, if_pos hp]
      exact congrArg some (if_pos h).symm
    · have hne : ¬ (t.userId == userId && t.revokedAt.isNone) = true := by
        simpa using h
      rw [Option.filter_some, if_neg hne]
      exact congrArg some (if_neg h).symm

end

theorem tokenMove_of_pool {st : AuthStmt} {db : AuthDb} {a : st.Ans} {ws : List AuthWrite}
    (he : .ok (a, ws) ∈ authStore.eval st db) :
    TokenMove db.refreshTokens ⟨.pool st, .ok a⟩
      (applyAll (S := authStore) ws db).refreshTokens := by
  by_cases hq : st.onTokens = false
  · rw [poolOnly_tokens.see_applyAll (poolOnly_tokens.spares_eval st hq db a ws he)]
    cases st with
    | createRefreshToken _ _ _ | claimRefreshToken _ _ | revokeAllUserRefreshTokens _ _
    | revokeRefreshTokenByHash _ _ => cases hq
    | findRefreshTokenWithUser k =>
      cases List.mem_singleton.1 he
      cases hk : db.refreshTokens.lookup k with
      | none => exact .other (by simp) (by simp) (by simp) (by simp) (by simp)
      | some t =>
        cases hu : db.users.lookup t.userId with
        | none => exact .other (by simp) (by simp) (by simp) (by simp) (by simp [hu])
        | some u =>
          rw [Option.bind_some, hu]
          exact .user hk rfl
    | _ => exact .other (by simp) (by simp) (by simp) (by simp) (by simp)
  · cases st with
    | createRefreshToken u k e =>
      simp only [authStore, AuthStmt.eval] at he
      split at he
      · cases List.mem_singleton.1 he
      · split at he
        · cases List.mem_singleton.1 he
        · rename_i hk
          cases List.mem_singleton.1 he
          exact .create (by simpa using hk)
    | claimRefreshToken k now =>
      simp only [authStore, AuthStmt.eval] at he
      split at he
      · rename_i t hk
        split at he
        · rename_i hr
          cases List.mem_singleton.1 he
          exact .claim hk hr.1 (revokedWhere_insert hk hr.1)
        · cases List.mem_singleton.1 he
          exact .other (by simp) (by simp) (by simp) (by simp) (by simp)
      · cases List.mem_singleton.1 he
        exact .other (by simp) (by simp) (by simp) (by simp) (by simp)
    | revokeAllUserRefreshTokens u now =>
      cases List.mem_singleton.1 he
      exact .reuse (revokedWhere_all u db)
    | revokeRefreshTokenByHash k now =>
      cases List.mem_singleton.1 he
      refine .logout ?_
      cases hk : db.refreshTokens.lookup k with
      | none =>
        refine revokedWhere_refl fun j t hj hjk => ?_
        rw [hjk, hk] at hj
        cases hj
      | some t =>
        dsimp only
        by_cases hr : t.revokedAt = none
        · rw [if_pos hr]
          exact revokedWhere_insert hk hr
        · rw [if_neg hr]
          refine revokedWhere_refl fun j t' hj hjk => ?_
          rw [hjk, hk] at hj
          cases hj
          exact hr
    | _ => exact absurd rfl hq

theorem tokenMove_of_step {db db' : AuthDb} {d : Did (sig authStore)}
    (hs : PoolStep (S := authStore) AuthDb.refreshTokens db db' d) :
    TokenMove db.refreshTokens d db'.refreshTokens := by
  cases hs with
  | pool he hdb =>
    rw [hdb]
    exact tokenMove_of_pool he
  | other hd hdb =>
    rw [hdb]
    exact .other (fun _ _ _ h => hd _ _ h) (fun _ _ h => hd _ _ h) (fun _ _ h => hd _ _ h)
      (fun _ _ h => hd _ _ h) fun _ _ _ h => hd _ _ h

/-! ## What the history says of a token -/

abbrev AuthHist := Hist (sig authStore)

def creates (k : String) : Event (sig authStore) → Option Uuid
  | .did _ (.pool (.createRefreshToken userId tokenHash _)) (.ok _) =>
    if tokenHash = k then some userId else none
  | _ => none

def ownerAt (tokens₀ : Tokens) (k : String) : AuthHist → Option Uuid
  | [] => (tokens₀.lookup k).map RefreshToken.userId
  | e :: h => (creates k e).or (ownerAt tokens₀ k h)

/-- The event revokes a token of this owner for good: it is logged out, or reuse is
detected. -/
def revokesForGood (k : String) (owner : Option Uuid) : Event (sig authStore) → Prop
  | .did _ (.pool (.revokeRefreshTokenByHash tokenHash _)) (.ok _) => tokenHash = k ∧ owner ≠ none
  | .did _ (.pool (.revokeAllUserRefreshTokens userId _)) (.ok _) => owner = some userId
  | _ => False

/-- The token has been revoked for good while it existed. -/
def killed (tokens₀ : Tokens) (k : String) : AuthHist → Prop
  | [] => False
  | e :: h => revokesForGood k (ownerAt tokens₀ k h) e ∨ killed tokens₀ k h

def detectsReuse (userId : Uuid) : Event (sig authStore) → Prop
  | .did _ (.pool (.revokeAllUserRefreshTokens u _)) (.ok _) => u = userId
  | _ => False

def claimsToken (k : String) : Event (sig authStore) → Prop
  | .did _ (.pool (.claimRefreshToken tokenHash _)) (.ok n) => tokenHash = k ∧ n = 1
  | _ => False

section
variable (E : AuthEnv)

def mintedFrom (h : AuthHist) : Event (sig authStore) → Option Mint
  | .did p (.pool (.createRefreshToken _ _ _)) (.ok _) => minting E (doneBy p h)
  | _ => none

def rotations (k : String) : AuthHist → ℕ
  | [] => 0
  | e :: h => rotations k h + if mintedFrom E h e = some ⟨k, true⟩ then 1 else 0

end

def Alive (p : Nat) (h : AuthHist) : Prop := .crashed p ∉ h ∧ .ended p ∉ h

/-! ## The invariant -/

structure TokenBook (tokens₀ tokens : Tokens) (h : AuthHist) : Prop where
  owner : ∀ k, ownerAt tokens₀ k h = (tokens.lookup k).map RefreshToken.userId
  found : ∀ p k u, userFound (doneBy p h) = some (k, u) → ownerAt tokens₀ k h = some u
  killed : ∀ k, killed tokens₀ k h → ∃ t, tokens.lookup k = some t ∧ t.revokedAt ≠ none
  claimed : ∀ k, ∀ e ∈ h, claimsToken k e → ∃ t, tokens.lookup k = some t ∧ t.revokedAt ≠ none

/-- A claimed token is exchanged by the process that has claimed it, once. -/
structure RotationBook (E : AuthEnv) (h : AuthHist) : Prop where
  minter : ∀ p k, minting E (doneBy p h) = some ⟨k, true⟩ →
    rotations E k h = 0 ∧ ∃ e ∈ h, claimsToken k e
  oneMinter : ∀ p q k, minting E (doneBy p h) = some ⟨k, true⟩ →
    minting E (doneBy q h) = some ⟨k, true⟩ → p = q
  once : ∀ k, rotations E k h ≤ 1
  claimed : ∀ k, 0 < rotations E k h → ∃ e ∈ h, claimsToken k e

/-- What is revoked for good is not exchanged, now or before. -/
structure RevokedBook (E : AuthEnv) (tokens₀ : Tokens) (h : AuthHist) : Prop where
  alive : ∀ p m, Alive p h → minting E (doneBy p h) = some m → ¬ killed tokens₀ m.tokenHash h
  silent : ∀ e older, e :: older <:+ h → ∀ m, mintedFrom E older e = some m →
    ¬ killed tokens₀ m.tokenHash older
  reuse : ∀ u, (∃ e ∈ h, detectsReuse u e) → ∀ k, ownerAt tokens₀ k h = some u →
    killed tokens₀ k h

/-! ## One step -/

section
variable {E : AuthEnv} {tokens₀ tokens tokens' : Tokens} {h : AuthHist} {p : Nat}
  {d : Did (sig authStore)}

theorem RevokedWhere.marks {P : String → RefreshToken → Prop} [∀ k t, Decidable (P k t)]
    {now : Timestamp} (hr : RevokedWhere P now tokens tokens') {k : String}
    (hk : ∃ t, tokens.lookup k = some t ∧ (P k t ∨ t.revokedAt ≠ none)) :
    ∃ t, tokens'.lookup k = some t ∧ t.revokedAt ≠ none := by
  obtain ⟨t, ht, h⟩ := hk
  exact ⟨_, by rw [hr k, ht]; rfl, RefreshToken.revoked_revokeIf h⟩

/-- A revoked token stays in the table and revoked. -/
theorem RevokedWhere.keeps {P : String → RefreshToken → Prop} [∀ k t, Decidable (P k t)]
    {now : Timestamp} (hr : RevokedWhere P now tokens tokens') {k : String}
    (hk : ∃ t, tokens.lookup k = some t ∧ t.revokedAt ≠ none) :
    ∃ t, tokens'.lookup k = some t ∧ t.revokedAt ≠ none :=
  hr.marks (hk.imp fun _ ht => ⟨ht.1, .inr ht.2⟩)

theorem RevokedWhere.owner {P : String → RefreshToken → Prop} [∀ k t, Decidable (P k t)]
    {now : Timestamp} (hr : RevokedWhere P now tokens tokens') (k : String) :
    (tokens'.lookup k).map RefreshToken.userId = (tokens.lookup k).map RefreshToken.userId := by
  rw [hr k, Option.map_map]
  cases tokens.lookup k with
  | none => rfl
  | some t => exact congrArg some (t.userId_revokeIf _ _)

theorem TokenMove.keeps (hm : TokenMove tokens d tokens') {k : String}
    (hk : ∃ t, tokens.lookup k = some t ∧ t.revokedAt ≠ none) :
    ∃ t, tokens'.lookup k = some t ∧ t.revokedAt ≠ none := by
  cases hm with
  | create hn =>
    obtain ⟨t, ht, hr⟩ := hk
    refine ⟨t, ?_, hr⟩
    rwa [AList.lookup_insert_ne]
    rintro rfl
    rw [hn] at ht
    cases ht
  | claim _ _ h => exact h.keeps hk
  | logout h => exact h.keeps hk
  | reuse h => exact h.keeps hk
  | user _ _ => exact hk
  | other _ _ _ _ _ => exact hk

theorem TokenMove.owner (hm : TokenMove tokens d tokens') (p : Nat) (k : String) :
    (tokens'.lookup k).map RefreshToken.userId =
      (creates k (.did p d.1 d.2)).or ((tokens.lookup k).map RefreshToken.userId) := by
  cases hm with
  | @create u j e hn =>
    by_cases hj : j = k
    · subst hj
      rw [AList.lookup_insert]
      simp [creates]
    · rw [AList.lookup_insert_ne (Ne.symm hj)]
      simp [creates, hj]
  | claim _ _ h => exact (h.owner k).trans (Option.none_or ..).symm
  | logout h => exact (h.owner k).trans (Option.none_or ..).symm
  | reuse h => exact (h.owner k).trans (Option.none_or ..).symm
  | user _ _ => exact (Option.none_or ..).symm
  | other hc _ _ _ _ =>
    have hne : creates k (.did p d.1 d.2) = none := by
      unfold creates
      split
      · rename_i heq
        obtain ⟨o, r⟩ := d
        cases heq
        exact absurd rfl (hc _ _ _)
      · rfl
    rw [hne, Option.none_or]

theorem TokenMove.creates (hm : TokenMove tokens d tokens') {k : String}
    (hk : creates k (.did p d.1 d.2) ≠ none) : tokens.lookup k = none := by
  cases hm with
  | @create u j e hn =>
    by_cases hj : j = k
    · rwa [← hj]
    · exact absurd (if_neg hj) hk
  | other hc _ _ _ _ =>
    unfold SatsPay.creates at hk
    split at hk
    · rename_i heq
      obtain ⟨o, r⟩ := d
      cases heq
      exact absurd rfl (hc _ _ _)
    · exact absurd rfl hk
  | _ => exact absurd rfl hk

theorem TokenMove.revokes (hm : TokenMove tokens d tokens') {k : String}
    (hk : revokesForGood k ((tokens.lookup k).map RefreshToken.userId) (.did p d.1 d.2)) :
    ∃ t, tokens'.lookup k = some t ∧ t.revokedAt ≠ none := by
  cases hm with
  | logout h =>
    obtain ⟨hj, ho⟩ := hk
    cases ht : tokens.lookup k with
    | none => exact absurd (by rw [ht]; rfl) ho
    | some t => exact h.marks ⟨t, ht, .inl hj.symm⟩
  | reuse h =>
    obtain ⟨t, ht, hu⟩ := Option.map_eq_some_iff.1 hk
    exact h.marks ⟨t, ht, .inl hu⟩
  | other _ _ hl hr _ =>
    obtain ⟨o, r⟩ := d
    unfold revokesForGood at hk
    split at hk
    · rename_i heq
      cases heq
      exact absurd rfl (hl _ _)
    · rename_i heq
      cases heq
      exact absurd rfl (hr _ _)
    · exact hk.elim
  | _ => exact hk.elim

theorem TokenMove.claims (hm : TokenMove tokens d tokens') {k : String}
    (hk : claimsToken k (.did p d.1 d.2)) : (∃ t, tokens.lookup k = some t ∧ t.revokedAt = none) ∧
      ∃ t, tokens'.lookup k = some t ∧ t.revokedAt ≠ none := by
  cases hm with
  | claim ht hr h =>
    obtain ⟨rfl, -⟩ := hk
    exact ⟨⟨_, ht, hr⟩, h.marks ⟨_, ht, .inl rfl⟩⟩
  | other _ hc _ _ _ =>
    obtain ⟨o, r⟩ := d
    unfold claimsToken at hk
    split at hk
    · rename_i heq
      cases heq
      obtain ⟨-, rfl⟩ := hk
      exact absurd rfl (hc _ _)
    · exact hk.elim
  | _ => exact hk.elim

theorem TokenMove.found (hm : TokenMove tokens d tokens') {t : List (Did (sig authStore))}
    {k : String} {u : Uuid} (hk : userFound (d :: t) = some (k, u)) :
    userFound t = some (k, u) ∨ (tokens.lookup k).map RefreshToken.userId = some u := by
  cases hm with
  | user ht hu =>
    cases hk
    exact .inr (by rw [ht, hu]; rfl)
  | other _ _ _ _ hf =>
    unfold userFound at hk
    split at hk
    · rename_i heq
      cases heq
    · rename_i heq
      cases heq
      exact absurd rfl (hf _ _ _)
    · rename_i heq
      cases heq
      exact .inl hk
  | _ => exact .inl hk

theorem doneBy_did (q p : Nat) (d : Did (sig authStore)) (h : AuthHist) :
    doneBy q (.did p d.1 d.2 :: h) = if p = q then d :: doneBy q h else doneBy q h := rfl

theorem TokenBook.step (hb : TokenBook tokens₀ tokens h) (hm : TokenMove tokens d tokens') :
    TokenBook tokens₀ tokens' (.did p d.1 d.2 :: h) where
  owner k := by
    rw [hm.owner p k, ← hb.owner k]
    rfl
  found q k u hq := by
    have old : ownerAt tokens₀ k h = some u := by
      rw [doneBy_did] at hq
      split at hq
      · exact (hm.found hq).elim (hb.found q k u) fun ht => (hb.owner k).trans ht
      · exact hb.found q k u hq
    -- a token that has an owner is not made again
    have hn : creates k (.did p d.1 d.2) = none := by
      by_contra hc
      rw [hb.owner k, hm.creates hc] at old
      cases old
    show (creates k (.did p d.1 d.2)).or _ = some u
    rw [hn, Option.none_or, old]
  killed k hk := by
    rcases hk with hk | hk
    · rw [hb.owner k] at hk
      exact hm.revokes hk
    · exact hm.keeps (hb.killed k hk)
  claimed k e he hk := by
    rcases List.mem_cons.1 he with rfl | he
    · exact (hm.claims hk).2
    · exact hm.keeps (hb.claimed k e he hk)

/-- What is exchanged after an operation is exchanged by it, or was before. -/
theorem minting_cons {t : List (Did (sig authStore))} {m : Mint} (hm : minting E (d :: t) = some m) :
    (∃ now, d = ⟨.pool (.claimRefreshToken m.tokenHash now), .ok (1 : ℕ)⟩ ∧ m.claimed = true) ∨
    (∃ row, d = ⟨.pool (.findRefreshToken m.tokenHash), .ok (some row)⟩ ∧
      graceMint E m.tokenHash row (clockOf t) = some m ∧ m.claimed = false) ∨
    (minting E t = some m ∧ (∀ h, mintedFrom E h (.did p d.1 d.2) = none) ∧
      ∀ k owner, ¬ revokesForGood k owner (.did p d.1 d.2)) := by
  unfold minting at hm
  split at hm
  · rename_i heq
    cases heq
  · rename_i heq
    cases heq
    split at hm
    · rename_i hn
      cases hm
      exact .inl ⟨_, by rw [hn], rfl⟩
    · cases hm
  · rename_i heq
    cases heq
    unfold graceMint at hm
    split at hm
    · rename_i hr hc
      split at hm
      · rename_i hg
        cases hm
        exact .inr (.inl ⟨_, rfl, by simp [graceMint, hr, hc, hg], rfl⟩)
      · cases hm
    · cases hm
  · cases hm
  · cases hm
  · cases hm
  · rename_i d' t' _ _ hcreate hreuse hlogout heq
    cases heq
    obtain ⟨o, r⟩ := d
    refine .inr (.inr ⟨hm, fun h => ?_, fun k owner hk => ?_⟩)
    · unfold mintedFrom
      split
      · rename_i heq
        cases heq
        exact absurd rfl (hcreate _ _ _ _)
      · rfl
    · unfold revokesForGood at hk
      split at hk
      · rename_i heq
        cases heq
        exact hlogout _ _ _ rfl
      · rename_i heq
        cases heq
        exact hreuse _ _ _ rfl
      · exact hk

theorem mintedFrom_eq {m : Mint} (hm : mintedFrom E h (.did p d.1 d.2) = some m) :
    minting E (doneBy p h) = some m := by
  obtain ⟨o, r⟩ := d
  unfold mintedFrom at hm
  split at hm
  · rename_i heq
    cases heq
    exact hm
  · cases hm

theorem RotationBook.step (hr : RotationBook E h) (hb : TokenBook tokens₀ tokens h)
    (hm : TokenMove tokens d tokens') : RotationBook E (.did p d.1 d.2 :: h) := by
  -- who claims a token finds it with nobody
  have fresh : ∀ {k}, claimsToken k (.did p d.1 d.2) → ¬ ∃ e ∈ h, claimsToken k e := by
    rintro k hk ⟨e, he, hc⟩
    obtain ⟨⟨t, ht, hn⟩, -⟩ := hm.claims hk
    obtain ⟨t', ht', hn'⟩ := hb.claimed k e he hc
    rw [ht] at ht'
    cases ht'
    exact hn' hn
  have before : ∀ {q k}, minting E (doneBy q (.did p d.1 d.2 :: h)) = some ⟨k, true⟩ →
      (q = p ∧ claimsToken k (.did p d.1 d.2)) ∨ (minting E (doneBy q h) = some ⟨k, true⟩ ∧
        (q = p → mintedFrom E h (.did p d.1 d.2) = none)) := by
    intro q k hq
    rw [doneBy_did] at hq
    split at hq
    · rename_i hpq
      rcases minting_cons hq with ⟨now, rfl, -⟩ | ⟨row, -, -, hf⟩ | ⟨ho, hc, -⟩
      · exact .inl ⟨hpq.symm, rfl, rfl⟩
      · cases hf
      · exact .inr ⟨ho, fun _ => hc h⟩
    · rename_i hpq
      exact .inr ⟨hq, fun hqp => absurd hqp.symm hpq⟩
  have none_of : ∀ {k}, rotations E k h = 0 → mintedFrom E h (.did p d.1 d.2) ≠ some ⟨k, true⟩ →
      rotations E k (.did p d.1 d.2 :: h) = 0 := fun h₀ hne => by
    rw [rotations, h₀, if_neg hne]
  refine ⟨fun q k hq => ?_, fun q r k hq hr' => ?_, fun k => ?_, fun k hk => ?_⟩
  · rcases before hq with ⟨-, hc⟩ | ⟨ho, hne⟩
    · refine ⟨none_of ?_ fun hf => ?_, _, List.mem_cons_self, hc⟩
      · exact Nat.eq_zero_of_not_pos fun hpos => fresh hc (hr.claimed k hpos)
      · exact fresh hc (hr.minter p k (mintedFrom_eq hf)).2
    · obtain ⟨h₀, e, he, hc⟩ := hr.minter q k ho
      refine ⟨none_of h₀ fun hf => ?_, e, List.mem_cons_of_mem _ he, hc⟩
      rw [hne (hr.oneMinter q p k ho (mintedFrom_eq hf))] at hf
      cases hf
  · rcases before hq with ⟨hqp, hc⟩ | ⟨ho, -⟩ <;> rcases before hr' with ⟨hrp, hc'⟩ | ⟨ho', -⟩
    · exact hqp.trans hrp.symm
    · exact absurd (hr.minter r k ho').2 (fresh hc)
    · exact absurd (hr.minter q k ho).2 (fresh hc')
    · exact hr.oneMinter q r k ho ho'
  · rw [rotations]
    split
    · rename_i hf
      rw [(hr.minter p k (mintedFrom_eq hf)).1]
    · exact hr.once k
  · rw [rotations] at hk
    have : ∃ e ∈ h, claimsToken k e := by
      split at hk
      · rename_i hf
        exact (hr.minter p k (mintedFrom_eq hf)).2
      · exact hr.claimed k hk
    exact this.imp fun e he => ⟨List.mem_cons_of_mem _ he.1, he.2⟩

end

/-! ## The condition -/

section
variable (E : AuthEnv) (tokens₀ : Tokens)

/-- No token that was revoked for good is presented in its grace, and none is revoked for
good while another process exchanges it. -/
def NoneRevived (c : Conf (machine authStore)) (e : Event (sig authStore)) : Prop :=
  (∀ p k row m, e = .did p (.pool (.findRefreshToken k)) (.ok (some row)) →
    graceMint E k row (clockOf (doneBy p c.hist)) = some m → ¬ killed tokens₀ k c.hist) ∧
  ∀ p q k m, e.pid = some p → q ≠ p → revokesForGood k (ownerAt tokens₀ k c.hist) e →
    Alive q c.hist → minting E (doneBy q c.hist) = some m → m.tokenHash ≠ k

end

section
variable {E : AuthEnv} {tokens₀ tokens tokens' : Tokens} {c : Conf (machine authStore)} {p : Nat}
  {d : Did (sig authStore)}

theorem RevokedBook.step (hr : RevokedBook E tokens₀ c.hist) (hb : TokenBook tokens₀ tokens c.hist)
    (hm : TokenMove tokens d tokens') (hφ : MintsFound E (doneBy p c.hist) d.1)
    (hlive : Alive p c.hist) (hcond : NoneRevived E tokens₀ c (.did p d.1 d.2)) :
    RevokedBook E tokens₀ (.did p d.1 d.2 :: c.hist) where
  alive q m hq hm' hk := by
    have hq' : Alive q c.hist :=
      ⟨fun h => hq.1 (List.mem_cons_of_mem _ h), fun h => hq.2 (List.mem_cons_of_mem _ h)⟩
    rw [doneBy_did] at hm'
    split at hm'
    · rename_i hpq
      subst hpq
      rcases minting_cons hm' with ⟨now, rfl, -⟩ | ⟨row, rfl, hg, -⟩ | ⟨ho, -, hn⟩
      · rcases hk with hk | hk
        · exact hk
        · obtain ⟨⟨t, ht, hn⟩, -⟩ := hm.claims (p := p) (k := m.tokenHash) ⟨rfl, rfl⟩
          obtain ⟨t', ht', hn'⟩ := hb.killed _ hk
          rw [ht] at ht'
          cases ht'
          exact hn' hn
      · rcases hk with hk | hk
        · exact hk
        · exact hcond.1 p _ row m rfl hg hk
      · rcases hk with hk | hk
        · exact hn _ _ hk
        · exact hr.alive p m hlive ho hk
    · rename_i hpq
      rcases hk with hk | hk
      · exact hcond.2 p q _ m rfl (Ne.symm hpq) hk hq' hm' rfl
      · exact hr.alive q m hq' hm' hk
  silent e older hsuf m hf := by
    rcases List.suffix_cons_iff.1 hsuf with heq | hsuf
    · cases heq
      exact hr.alive p m hlive (mintedFrom_eq hf)
    · exact hr.silent e older hsuf m hf
  reuse u hu k hk := by
    have hk' : (creates k (.did p d.1 d.2)).or (ownerAt tokens₀ k c.hist) = some u := hk
    obtain ⟨e, he, hd⟩ := hu
    rcases Option.or_eq_some_iff.1 hk' with hnew | ⟨-, hold⟩
    · -- the new token's user had none left to exchange
      obtain ⟨o, r⟩ := d
      unfold creates at hnew
      split at hnew
      · rename_i heq
        cases heq
        split at hnew
        · cases hnew
          obtain ⟨m, hm', hf⟩ := hφ
          rcases List.mem_cons.1 he with rfl | he
          · exact hd.elim
          · exact absurd (hr.reuse _ ⟨e, he, hd⟩ _ (hb.found p _ _ hf)) (hr.alive p m hlive hm')
        · cases hnew
      · cases hnew
    · rcases List.mem_cons.1 he with rfl | he
      · refine .inl ?_
        obtain ⟨o, r⟩ := d
        unfold detectsReuse at hd
        split at hd
        · rename_i heq
          cases heq
          rw [hold, hd]
          rfl
        · exact hd.elim
      · exact .inr (hr.reuse u ⟨e, he, hd⟩ k hold)

end

/-! ## Whole runs -/

section
variable (E : AuthEnv) (tokens₀ : Tokens)

structure RevokedForGood (w : World (machine authStore)) : Prop where
  /-- A session is made by exchanging a token of its user. -/
  minted : ∀ e older, e :: older <:+ w.conf.hist → ∀ k u, creates k e = some u →
    ∃ m, mintedFrom E older e = some m ∧ ownerAt tokens₀ m.tokenHash older = some u
  /-- None is made from a token after that was logged out or its user's reuse was detected. -/
  silent : ∀ e older, e :: older <:+ w.conf.hist → ∀ m, mintedFrom E older e = some m →
    ¬ killed tokens₀ m.tokenHash older
  /-- Once reuse is detected the user's tokens are revoked, and no more are made. -/
  revoked : ∀ u, (∃ e ∈ w.conf.hist, detectsReuse u e) → ∀ k t,
    w.conf.s.db.refreshTokens.lookup k = some t → t.userId = u → t.revokedAt ≠ none
  reuse : ∀ e older, e :: older <:+ w.conf.hist → ∀ u, (∃ e' ∈ older, detectsReuse u e') →
    ∀ k, creates k e ≠ some u
  /-- Outside its grace a token is exchanged once. -/
  rotated : ∀ k, rotations E k w.conf.hist ≤ 1

structure TokenWorld (tokens : Tokens) (h : AuthHist) : Prop where
  book : TokenBook tokens₀ tokens h
  rotation : RotationBook E h
  revoked : RevokedBook E tokens₀ h
  minted : ∀ e older, e :: older <:+ h → ∀ k u, creates k e = some u →
    ∃ m, mintedFrom E older e = some m ∧ ownerAt tokens₀ m.tokenHash older = some u
  reuse : ∀ e older, e :: older <:+ h → ∀ u, (∃ e' ∈ older, detectsReuse u e') →
    ∀ k, creates k e ≠ some u

end

section
variable {E : AuthEnv} {tokens₀ tokens : Tokens} {h : AuthHist}

theorem tokenWorld_init : TokenWorld E tokens₀ tokens₀ [] where
  book := ⟨fun _ => rfl, fun _ _ _ h => (nomatch h), fun _ h => h.elim, fun _ _ h => (nomatch h)⟩
  rotation := ⟨fun _ _ h => (nomatch h), fun _ _ _ h => (nomatch h), fun _ => Nat.zero_le _,
    fun _ h => (nomatch h)⟩
  revoked := ⟨fun _ _ _ h => (nomatch h), fun _ _ h => (nomatch List.suffix_nil.1 h),
    fun _ ⟨_, h, _⟩ => (nomatch h)⟩
  minted _ _ h := nomatch List.suffix_nil.1 h
  reuse _ _ h := nomatch List.suffix_nil.1 h

/-- A process that stops, or the passing of time, is nothing to the tokens. -/
theorem TokenWorld.idle (hw : TokenWorld E tokens₀ tokens h) {e : Event (sig authStore)}
    (he : (∃ p, e = .crashed p ∨ e = .ended p) ∨ e = .ticked) :
    TokenWorld E tokens₀ tokens (e :: h) := by
  have hd : ∀ q, doneBy q (e :: h) = doneBy q h := by
    rcases he with ⟨p, rfl | rfl⟩ | rfl <;> exact fun _ => rfl
  have hc : ∀ k, creates k e = none := by rcases he with ⟨p, rfl | rfl⟩ | rfl <;> exact fun _ => rfl
  have hk : ∀ k owner, ¬ revokesForGood k owner e := by
    rcases he with ⟨p, rfl | rfl⟩ | rfl <;> exact fun _ _ => id
  have hcl : ∀ k, ¬ claimsToken k e := by rcases he with ⟨p, rfl | rfl⟩ | rfl <;> exact fun _ => id
  have hr : ∀ u, ¬ detectsReuse u e := by rcases he with ⟨p, rfl | rfl⟩ | rfl <;> exact fun _ => id
  have hm : ∀ older, mintedFrom E older e = none := by
    rcases he with ⟨p, rfl | rfl⟩ | rfl <;> exact fun _ => rfl
  have owner : ∀ k, ownerAt tokens₀ k (e :: h) = ownerAt tokens₀ k h := fun k => by
    rw [ownerAt, hc, Option.none_or]
  have dead : ∀ k, killed tokens₀ k (e :: h) → killed tokens₀ k h :=
    fun k => Or.rec (fun h' => absurd h' (hk _ _)) id
  have turns : ∀ k, rotations E k (e :: h) = rotations E k h := fun k => by
    simp [rotations, hm]
  have claims : ∀ {k}, (∃ e' ∈ h, claimsToken k e') → ∃ e' ∈ e :: h, claimsToken k e' :=
    fun ⟨e', he', h'⟩ => ⟨e', List.mem_cons_of_mem _ he', h'⟩
  have alive : ∀ {q}, Alive q (e :: h) → Alive q h := fun hq =>
    ⟨fun h' => hq.1 (List.mem_cons_of_mem _ h'), fun h' => hq.2 (List.mem_cons_of_mem _ h')⟩
  refine ⟨⟨fun k => ?_, fun q k u hq => ?_, fun k hq => hw.book.killed k (dead k hq),
      fun k e' he' hq => ?_⟩,
    ⟨fun q k hq => ?_, fun q r k hq hq' => ?_, fun k => ?_, fun k hq => ?_⟩,
    ⟨fun q m hq hm' hk' => ?_, fun e' older hs m hq => ?_, fun u hu k hq => ?_⟩,
    fun e' older hs k u hq => ?_, fun e' older hs u hu k hq => ?_⟩
  · rw [owner]
    exact hw.book.owner k
  · rw [hd] at hq
    rw [owner]
    exact hw.book.found q k u hq
  · rcases List.mem_cons.1 he' with rfl | he'
    · exact absurd hq (hcl k)
    · exact hw.book.claimed k e' he' hq
  · rw [hd] at hq
    rw [turns]
    exact (hw.rotation.minter q k hq).imp id claims
  · rw [hd] at hq hq'
    exact hw.rotation.oneMinter q r k hq hq'
  · rw [turns]
    exact hw.rotation.once k
  · rw [turns] at hq
    exact claims (hw.rotation.claimed k hq)
  · rw [hd] at hm'
    exact hw.revoked.alive q m (alive hq) hm' (dead _ hk')
  · rcases List.suffix_cons_iff.1 hs with heq | hs
    · cases heq
      rw [hm] at hq
      cases hq
    · exact hw.revoked.silent e' older hs m hq
  · rw [owner] at hq
    obtain ⟨e', he', hd'⟩ := hu
    rcases List.mem_cons.1 he' with rfl | he'
    · exact absurd hd' (hr u)
    · exact .inr (hw.revoked.reuse u ⟨e', he', hd'⟩ k hq)
  · rcases List.suffix_cons_iff.1 hs with heq | hs
    · cases heq
      rw [hc] at hq
      cases hq
    · exact hw.minted e' older hs k u hq
  · rcases List.suffix_cons_iff.1 hs with heq | hs
    · cases heq
      rw [hc] at hq
      cases hq
    · exact hw.reuse e' older hs u hu k hq

/-- A new token is made from one of its user's. -/
theorem minted_of_creates {p : Nat} {d : Did (sig authStore)} (hb : TokenBook tokens₀ tokens h)
    (hφ : MintsFound E (doneBy p h) d.1) {k : String} {u : Uuid}
    (hc : creates k (.did p d.1 d.2) = some u) :
    ∃ m, mintedFrom E h (.did p d.1 d.2) = some m ∧ minting E (doneBy p h) = some m ∧
      ownerAt tokens₀ m.tokenHash h = some u := by
  obtain ⟨o, r⟩ := d
  unfold creates at hc
  split at hc
  · rename_i heq
    cases heq
    split at hc
    · cases hc
      obtain ⟨m, hm, hf⟩ := hφ
      exact ⟨m, hm, hm, hb.found p _ _ hf⟩
    · cases hc
  · cases hc

theorem TokenWorld.act {c : Conf (machine authStore)} {p : Nat} {d : Did (sig authStore)}
    {tokens' : Tokens} (hw : TokenWorld E tokens₀ tokens c.hist) (hm : TokenMove tokens d tokens')
    (hφ : MintsFound E (doneBy p c.hist) d.1) (hlive : Alive p c.hist)
    (hcond : NoneRevived E tokens₀ c (.did p d.1 d.2)) :
    TokenWorld E tokens₀ tokens' (.did p d.1 d.2 :: c.hist) where
  book := hw.book.step hm
  rotation := hw.rotation.step hw.book hm
  revoked := hw.revoked.step hw.book hm hφ hlive hcond
  minted e older hs k u hc := by
    rcases List.suffix_cons_iff.1 hs with heq | hs
    · cases heq
      obtain ⟨m, hf, -, ho⟩ := minted_of_creates hw.book hφ hc
      exact ⟨m, hf, ho⟩
    · exact hw.minted e older hs k u hc
  reuse e older hs u hu k hc := by
    rcases List.suffix_cons_iff.1 hs with heq | hs
    · cases heq
      obtain ⟨m, -, hm', ho⟩ := minted_of_creates hw.book hφ hc
      exact hw.revoked.alive p m hlive hm' (hw.revoked.reuse u hu _ ho)
    · exact hw.reuse e older hs u hu k hc

end

section
variable (E : AuthEnv)

def sessionRequests (c : Code authStore Empty Unit) : Prop :=
  (∃ refreshToken, c = (refresh E refreshToken).spawn) ∨
    ∃ refreshToken, c = (revokeRefreshToken E refreshToken).spawn

variable {E}

theorem heeds_issueTokens {t : List (Did (sig authStore))} {user : UserRow} {m : Mint}
    (hm : minting E t = some m) (hu : userFound t = some (m.tokenHash, user.id)) :
    (issueTokens E user).Heeds (MintsFound E) t := by
  refine ⟨trivial, fun now => ⟨trivial, fun signed => ?_⟩⟩
  cases signed with
  | none => trivial
  | some accessToken =>
    refine ⟨trivial, fun refreshToken => ⟨trivial, fun now' => ⟨⟨m, hm, hu⟩, fun r => ?_⟩⟩⟩
    cases r <;> trivial

theorem free_reuseDetected (userId : Uuid) (now : Timestamp) :
    (reuseDetected userId now).Free (MintsFound E) := fun t => by
  refine ⟨trivial, fun r => ?_⟩
  cases r <;> trivial

theorem heeds_refreshClaimed {t : List (Did (sig authStore))} {tokenHash : String}
    (hm : minting E t = some ⟨tokenHash, true⟩) :
    (refreshClaimed E tokenHash).Heeds (MintsFound E) t := by
  refine ⟨trivial, fun r => ?_⟩
  rcases r with e | _ | ⟨row, user⟩
  · trivial
  · trivial
  · exact heeds_issueTokens hm rfl

theorem heeds_refreshRevoked {t : List (Did (sig authStore))} {tokenHash : String}
    {row : RefreshTokenRow} {revokedAt now : Timestamp} (hr : row.revokedAt = some revokedAt)
    (hm : minting E t = graceMint E tokenHash row (some now)) :
    (refreshRevoked E tokenHash row revokedAt now).Heeds (MintsFound E) t := by
  unfold refreshRevoked
  split
  · rename_i hg
    have hm' : minting E t = some ⟨tokenHash, false⟩ := by simp [hm, graceMint, hr, hg]
    refine ⟨trivial, fun r => ?_⟩
    rcases r with e | _ | ⟨row', user⟩
    · trivial
    · exact free_reuseDetected _ _ _
    · exact heeds_issueTokens hm' rfl
  · exact free_reuseDetected _ _ _

theorem heeds_refreshHashes (now : Timestamp) : ∀ (hashes : List String)
    {t : List (Did (sig authStore))}, clockOf t = some now →
    (refreshHashes E now hashes).Heeds (MintsFound E) t
  | [], _, _ => trivial
  | tokenHash :: hashes, t, ht => by
    refine ⟨trivial, fun r => ?_⟩
    rcases r with e | n
    · trivial
    · show Prog.Heeds _ (if n = 1 then _ else _) _
      split
      · rename_i hn
        exact heeds_refreshClaimed (if_pos hn)
      · refine ⟨trivial, fun r => ?_⟩
        rcases r with e | _ | row
        · trivial
        · exact heeds_refreshHashes now hashes ht
        · dsimp only [authPool, poolQuery, orThrow, Prog.bind_eq, Prog.op_bind, Prog.ret_bind,
            Option.bind_some]
          cases hr : row.revokedAt with
          | none => exact heeds_refreshHashes now hashes ht
          | some revokedAt => exact heeds_refreshRevoked hr (congrArg _ ht)

theorem free_revokeHashes (now : Timestamp) : ∀ hashes : List String,
    (revokeHashes now hashes).Free (MintsFound E)
  | [] => .ret ()
  | _ :: hashes => fun t => by
    refine ⟨trivial, fun r => ?_⟩
    cases r with
    | error e => trivial
    | ok a => exact free_revokeHashes now hashes _

theorem free_sessionRequests (c : Code authStore Empty Unit) (h : sessionRequests E c) :
    c.Free (MintsFound E) := by
  rcases h with ⟨refreshToken, rfl⟩ | ⟨refreshToken, rfl⟩
  · exact .spawn fun t => ⟨trivial, fun now => heeds_refreshHashes now _ rfl⟩
  · exact .spawn fun t => ⟨trivial, fun now => free_revokeHashes now _ _⟩

/-- In a run in which no token revoked for good is presented in its grace, or revoked
while it is exchanged, what is revoked for good stays so. -/
theorem revokedForGood_of_run {db : AuthDb} {w : World (machine authStore)}
    (hs : Run (sessionRequests E) (NoneRevived E db.refreshTokens) db w) :
    RevokedForGood E db.refreshTokens w := by
  let I : World (machine authStore) → Prop := fun w =>
    TokenWorld E db.refreshTokens w.conf.s.db.refreshTokens w.conf.hist
  have hstep : ∀ w w', PoolWorld (MintsFound E) SparesTokens w → I w →
      PoolMove AuthDb.refreshTokens (MintsFound E) (NoneRevived E db.refreshTokens) w w' → I w' := by
    intro w w' _ hi hm
    show TokenWorld E _ _ _
    cases hm with
    | start hconf hp =>
      rw [hconf]
      exact hi
    | act p d hφ hs hcond hh hlive hc hp =>
      rw [hh]
      exact hi.act (tokenMove_of_step hs) hφ hlive hcond
    | stop p e he hcond hdb hh hp =>
      rw [hh, hdb]
      exact hi.idle (.inl ⟨p, he⟩)
    | tick hdb hcond hh hp =>
      rw [hh, hdb]
      exact hi.idle (.inr rfl)
  obtain ⟨-, hi⟩ := poolOnly_tokens.run (I := I) (fun _ _ h => h) free_sessionRequests
    tokenWorld_init hstep hs
  refine ⟨hi.minted, hi.revoked.silent, fun u hu k t hk ht => ?_, hi.reuse, hi.rotation.once⟩
  have ho : ownerAt db.refreshTokens k w.conf.hist = some u := by
    rw [hi.book.owner, hk, ← ht]
    rfl
  obtain ⟨t', hk', hr⟩ := hi.book.killed k (hi.revoked.reuse u hu k ho)
  rw [hk] at hk'
  cases hk'
  exact hr

end

/-! A session of one user, with a grace of a minute. -/

def minuteGrace : AuthEnv where
  config := {
    jwtAccessTtlSecs := 900
    jwtRefreshTtlSecs := 2592000
    otpCodeTtlSecs := 600
    otpResendCooldownSecs := 60
    otpMaxAttempts := 5
    refreshReuseGraceSecs := 60
    issuer := "bitcosats"
    audience := "bitcosats" }
  refreshTokenHash := id
  sha256Hex _ := "-"

def oneSession : AuthDb where
  now := 0
  users := (∅ : Table Account).insert 1 ⟨"a@b", "USER", false, none⟩
  refreshTokens := (∅ : Tokens).insert "a" ⟨1, seconds 1000, none⟩
  emailOtps := ∅

def twoSessions : AuthDb :=
  { oneSession with refreshTokens := oneSession.refreshTokens.insert "c" ⟨1, seconds 1000, none⟩ }

def noneMints (p : Nat) (h : AuthHist) : Bool :=
  h.all fun e => e.pid.all fun q => q == p || (minting minuteGrace (doneBy q h)).isNone

def sessionRunner : Runner authStore where
  bound := 4
  progs := [(refresh minuteGrace "a").spawn, (revokeRefreshToken minuteGrace "a").spawn,
    (refresh minuteGrace "c").spawn, (refresh minuteGrace "b").spawn]
  tick := passTime
  allow c e := match e with
    | .did p (.pool (.findRefreshToken k)) (.ok (some row)) =>
      (graceMint minuteGrace k row (clockOf (doneBy p c.hist))).isNone
    | .did p (.pool (.revokeRefreshTokenByHash _ _)) _ => noneMints p c.hist
    | .did p (.pool (.revokeAllUserRefreshTokens _ _)) _ => noneMints p c.hist
    | _ => true

theorem sessionRunner_main : ∀ c ∈ sessionRunner.progs, sessionRequests minuteGrace c := by
  intro c hc
  simp only [sessionRunner, List.mem_cons, List.not_mem_nil, or_false] at hc
  rcases hc with rfl | rfl | rfl | rfl
  · exact .inl ⟨_, rfl⟩
  · exact .inr ⟨_, rfl⟩
  · exact .inl ⟨_, rfl⟩
  · exact .inl ⟨_, rfl⟩

theorem minting_of_noneMints {p q : Nat} {h : AuthHist} (hn : noneMints p h = true) (hq : q ≠ p) :
    minting minuteGrace (doneBy q h) = none := by
  cases hd : doneBy q h with
  | nil => rfl
  | cons d t =>
    have hm : .did q d.1 d.2 ∈ h := did_of_mem_doneBy (hd ▸ List.mem_cons_self)
    have := List.all_eq_true.1 hn _ hm
    rw [← hd]
    simpa [Event.pid, hq] using this

theorem noneRevived_of_allow (tokens₀ : Tokens) (c : Conf (machine authStore))
    (e : Event (sig authStore)) (h : sessionRunner.allow c e = true) :
    NoneRevived minuteGrace tokens₀ c e := by
  refine ⟨fun p k row m he hm => ?_, fun p q k m he hq hk _ hm => ?_⟩
  · subst he
    have h : (graceMint minuteGrace k row (clockOf (doneBy p c.hist))).isNone = true := h
    rw [hm] at h
    cases h
  · have hnone : noneMints p c.hist = true := by
      unfold revokesForGood at hk
      split at hk
      · cases he
        exact h
      · cases he
        exact h
      · exact hk.elim
    rw [minting_of_noneMints hnone hq] at hm
    cases hm

/-- A token is logged out, another is exchanged. When the first is presented after its grace,
all are revoked, and the new one is refused. -/
theorem revokedForGood_refresh : ∃ w, Run (sessionRequests minuteGrace)
    (NoneRevived minuteGrace twoSessions.refreshTokens) twoSessions w ∧
    (w.conf.s.db.refreshTokens.entries.map fun e => (e.1, e.2.revokedAt)) =
      [("b", some (seconds 100)), ("c", some (seconds 10)), ("a", some (seconds 0))] ∧
    RevokedForGood minuteGrace twoSessions.refreshTokens w := by
  let call (p : Nat) (now : Timestamp) : Act authStore := .op p (.answer (authAnswers now "b"))
  have hrun : (sessionRunner.run
      ([.start 0 1, call 0 0] ++ proceed 0 2 ++ [.finish 0, .start 1 2, call 1 (seconds 10)] ++
        proceed 1 2 ++ [call 1 (seconds 10), call 1 (seconds 10), call 1 (seconds 10),
        call 1 (seconds 10)] ++ proceed 1 1 ++ [.finish 1, .start 2 0, call 2 (seconds 100)] ++
        proceed 2 3 ++ [.finish 2, .start 3 3, call 3 (seconds 200)] ++ proceed 3 3)
      (.init _ (.start twoSessions))).map
      (fun w => w.conf.s.db.refreshTokens.entries.map fun e => (e.1, e.2.revokedAt)) =
      some [("b", some (seconds 100)), ("c", some (seconds 10)), ("a", some (seconds 0))] := by
    decide +kernel
  obtain ⟨w, hw, hs⟩ := Option.map_eq_some_iff.1 hrun
  have steps : Run (sessionRequests minuteGrace)
      (NoneRevived minuteGrace twoSessions.refreshTokens) twoSessions w :=
    Runner.steps_of_run sessionRunner_main tick_passTime
      (noneRevived_of_allow twoSessions.refreshTokens) (fun _ _ => rfl) hw
  exact ⟨w, steps, hs, revokedForGood_of_run steps⟩

def anySessionRunner : Runner authStore := { sessionRunner with allow := fun _ _ => true }

/-- Ten seconds after the logout the token still yields a session. -/
theorem loggedOut_refreshes : ¬ ∀ w, Run (sessionRequests minuteGrace) (anyStep _) oneSession w →
    RevokedForGood minuteGrace oneSession.refreshTokens w := by
  intro hall
  let call (p : Nat) (now : Timestamp) : Act authStore := .op p (.answer (authAnswers now "b"))
  have hw : anySessionRunner.run ([.start 0 1, call 0 0] ++ proceed 0 2 ++
      [.start 1 0, call 1 (seconds 10)] ++ proceed 1 3 ++
      [call 1 (seconds 10), call 1 (seconds 10), call 1 (seconds 10), call 1 (seconds 10)] ++
      proceed 1 1) (.init _ (.start oneSession)) = some _ := rfl
  have steps : Steps (machine authStore) (sessionRequests minuteGrace) (anyStep _) _ _ :=
    Runner.steps_of_run (R := anySessionRunner) sessionRunner_main tick_passTime (fun _ _ _ => trivial)
    (fun _ _ => rfl) hw
  refine (hall _ steps).silent _ _ (List.suffix_refl _) ⟨"a", false⟩ rfl ?_
  exact .inr (.inr (.inr (.inr (.inr (.inr (.inr (.inr (.inr (.inl ⟨rfl, nofun⟩)))))))))

end SatsPay
