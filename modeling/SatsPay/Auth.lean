import SatsPay.Coins
import SatsPay.Db
import SatsPay.PoolSteps

/-!
# Sessions and one-time codes

The refresh tokens and email codes of `AuthService`, over the tables of its repository.
-/

namespace SatsPay

open Interleave ReadCommitted

/-! ## The store -/

/-- Microseconds since 1970. -/
abbrev Timestamp := ℤ

/-- `Duration::seconds` -/
def seconds (n : ℤ) : ℤ := n * 1000000

inductive OtpPurpose where
  | enable2fa | disable2fa | login | withdrawal
  deriving DecidableEq, Repr

def OtpPurpose.asStr : OtpPurpose → String
  | .enable2fa => "ENABLE_2FA"
  | .disable2fa => "DISABLE_2FA"
  | .login => "LOGIN"
  | .withdrawal => "WITHDRAWAL"

structure Account where
  email : String
  role : String
  twoFactorEnabled : Bool
  erasedAt : Option Timestamp

structure RefreshToken where
  userId : Uuid
  expiresAt : Timestamp
  revokedAt : Option Timestamp

structure EmailOtp where
  userId : Uuid
  purpose : OtpPurpose
  codeHash : String
  expiresAt : Timestamp
  consumedAt : Option Timestamp
  attempts : ℕ
  createdAt : Timestamp

/-- `token_hash` is unique, and the key of the tokens here. -/
structure AuthDb where
  now : Timestamp
  users : Table Account
  refreshTokens : AList fun _ : String => RefreshToken
  emailOtps : Table EmailOtp

/-! ## Statements -/

structure UserRow where
  id : Uuid
  email : String
  role : String
  twoFactorEnabled : Bool

structure RefreshTokenRow where
  userId : Uuid
  tokenHash : String
  expiresAt : Timestamp
  revokedAt : Option Timestamp
  deriving DecidableEq

structure EmailOtpRow where
  id : Uuid
  codeHash : String
  attempts : ℕ
  deriving DecidableEq

def Account.row (a : Account) (id : Uuid) : UserRow := ⟨id, a.email, a.role, a.twoFactorEnabled⟩

def RefreshToken.row (t : RefreshToken) (tokenHash : String) : RefreshTokenRow :=
  ⟨t.userId, tokenHash, t.expiresAt, t.revokedAt⟩

def EmailOtp.row (o : EmailOtp) (id : Uuid) : EmailOtpRow := ⟨id, o.codeHash, o.attempts⟩

inductive AuthStmt where
  | findUserById (userId : Uuid)
  | createRefreshToken (userId : Uuid) (tokenHash : String) (expiresAt : Timestamp)
  | claimRefreshToken (tokenHash : String) (now : Timestamp)
  | findRefreshTokenWithUser (tokenHash : String)
  | findRefreshToken (tokenHash : String)
  | revokeAllUserRefreshTokens (userId : Uuid) (now : Timestamp)
  | revokeRefreshTokenByHash (tokenHash : String) (now : Timestamp)
  | findRecentOtp (userId : Uuid) (purpose : OtpPurpose) (since : Timestamp)
  | scanOtps (userId : Uuid) (purpose : OtpPurpose)
  | consumeOtps (found : List Uuid) (now : Timestamp)
  | insertOtp (id userId : Uuid) (purpose : OtpPurpose) (codeHash : String)
      (expiresAt createdAt : Timestamp)
  | findActiveOtp (userId : Uuid) (purpose : OtpPurpose) (now : Timestamp)
  | incrementOtpAttempts (otpId : Uuid)
  | claimOtp (otpId : Uuid) (now : Timestamp)

/-- Of the claims, how many rows they change. The `UPDATE` of `rotate_otp` finds its rows as
of its start, which is `scanOtps`, and waits for them, which is `consumeOtps`. -/
abbrev AuthStmt.Ans : AuthStmt → Type
  | .findUserById _ => Option UserRow
  | .createRefreshToken _ _ _ => Unit
  | .claimRefreshToken _ _ => ℕ
  | .findRefreshTokenWithUser _ => Option (RefreshTokenRow × UserRow)
  | .findRefreshToken _ => Option RefreshTokenRow
  | .revokeAllUserRefreshTokens _ _ => Unit
  | .revokeRefreshTokenByHash _ _ => Unit
  | .findRecentOtp _ _ _ => Option EmailOtpRow
  | .scanOtps _ _ => List Uuid
  | .consumeOtps _ _ => Unit
  | .insertOtp _ _ _ _ _ _ => Unit
  | .findActiveOtp _ _ _ => Option EmailOtpRow
  | .incrementOtpAttempts _ => Unit
  | .claimOtp _ _ => ℕ

inductive AuthWrite where
  | putToken (tokenHash : String) (t : RefreshToken)
  | putOtp (id : Uuid) (o : EmailOtp)

structure AccessTokenClaims where
  sub : Uuid
  role : String
  twoFactor : Bool
  iss : String
  aud : String
  iat : ℤ
  exp : ℤ

/-- The clock, the random values and hashes, the mail. `transactionTimestamp` is the
`now()` of the open transaction. -/
inductive AuthCall where
  | utcNow
  | transactionTimestamp
  | newUuid
  | randomToken
  | signJwt (claims : AccessTokenClaims)
  | generateOtpCode
  | hashPassword (code : String)
  | verifyPassword (code : String) (otp : EmailOtpRow)
  | sendEmail (recipient subject body : String)

abbrev AuthCall.Reply : AuthCall → Type
  | .utcNow => Timestamp
  | .transactionTimestamp => Timestamp
  | .newUuid => Uuid
  | .randomToken => String
  | .signJwt _ => Option String
  | .generateOtpCode => String
  | .hashPassword _ => Option String
  | .verifyPassword _ _ => Bool
  | .sendEmail _ _ _ => Unit

def AuthDb.otpsWhere (db : AuthDb) (p : EmailOtp → Bool) : List (Uuid × EmailOtp) :=
  (db.emailOtps.entries.map fun o => (o.1, o.2)).filter fun o => p o.2

/-- `ORDER BY created_at DESC LIMIT 1`: any of those made last. -/
def latest (otps : List (Uuid × EmailOtp)) : List (Option EmailOtpRow) :=
  match otps with
  | [] => [none]
  | _ => (otps.filter fun o => otps.all fun o' => decide (o'.2.createdAt ≤ o.2.createdAt)).map
      fun o => some (o.2.row o.1)

def EmailOtp.unconsumed (userId : Uuid) (purpose : OtpPurpose) (o : EmailOtp) : Bool :=
  o.userId == userId && o.purpose == purpose && o.consumedAt.isNone

def EmailOtp.consume (now : Timestamp) (o : EmailOtp) : Option EmailOtp :=
  if o.consumedAt = none then some { o with consumedAt := some now } else none

def AuthStmt.eval : (st : AuthStmt) → AuthDb → List (Except DbError (st.Ans × List AuthWrite))
  | .findUserById userId, db =>
    [.ok ((db.users.lookup userId).bind fun a =>
      if a.erasedAt.isNone then some (a.row userId) else none, [])]
  | .createRefreshToken userId tokenHash expiresAt, db =>
    if (db.users.lookup userId).isNone then [.error .foreignKey]
    else if (db.refreshTokens.lookup tokenHash).isSome then [.error .uniqueViolation]
    else [.ok ((), [.putToken tokenHash ⟨userId, expiresAt, none⟩])]
  | .claimRefreshToken tokenHash now, db =>
    match db.refreshTokens.lookup tokenHash with
    | some t =>
      if t.revokedAt = none ∧ now < t.expiresAt then
        [.ok (1, [.putToken tokenHash { t with revokedAt := some now }])]
      else [.ok (0, [])]
    | none => [.ok (0, [])]
  | .findRefreshTokenWithUser tokenHash, db =>
    [.ok ((db.refreshTokens.lookup tokenHash).bind fun t =>
      (db.users.lookup t.userId).map fun a => (t.row tokenHash, a.row t.userId), [])]
  | .findRefreshToken tokenHash, db =>
    [.ok ((db.refreshTokens.lookup tokenHash).map fun t => t.row tokenHash, [])]
  | .revokeAllUserRefreshTokens userId now, db =>
    [.ok ((), (db.refreshTokens.entries.filter fun t =>
      t.2.userId == userId && t.2.revokedAt.isNone).map fun t =>
        .putToken t.1 { t.2 with revokedAt := some now })]
  | .revokeRefreshTokenByHash tokenHash now, db =>
    [.ok ((), match db.refreshTokens.lookup tokenHash with
      | some t => if t.revokedAt = none then [.putToken tokenHash { t with revokedAt := some now }]
        else []
      | none => [])]
  | .findRecentOtp userId purpose since, db =>
    (latest (db.otpsWhere fun o =>
      o.userId == userId && o.purpose == purpose && decide (since < o.createdAt))).map fun o =>
        .ok (o, [])
  | .scanOtps userId purpose, db =>
    [.ok ((db.otpsWhere (EmailOtp.unconsumed userId purpose)).map Prod.fst, [])]
  | .consumeOtps found now, db =>
    [.ok ((), found.filterMap fun i =>
      ((db.emailOtps.lookup i).bind (EmailOtp.consume now)).map (.putOtp i))]
  | .insertOtp id userId purpose codeHash expiresAt createdAt, db =>
    if (db.users.lookup userId).isNone then [.error .foreignKey]
    else if (db.emailOtps.lookup id).isSome then [.error .uniqueViolation]
    else [.ok ((), [.putOtp id
      { userId, purpose, codeHash, expiresAt, consumedAt := none, attempts := 0, createdAt }])]
  | .findActiveOtp userId purpose now, db =>
    (latest (db.otpsWhere fun o => o.unconsumed userId purpose && decide (now < o.expiresAt))).map
      fun o => .ok (o, [])
  | .incrementOtpAttempts otpId, db =>
    [.ok ((), match db.emailOtps.lookup otpId with
      | some o => [.putOtp otpId { o with attempts := o.attempts + 1 }]
      | none => [])]
  | .claimOtp otpId now, db =>
    match (db.emailOtps.lookup otpId).bind (EmailOtp.consume now) with
    | some o => [.ok (1, [.putOtp otpId o])]
    | none => [.ok (0, [])]

def AuthWrite.apply : AuthWrite → AuthDb → AuthDb
  | .putToken tokenHash t, db => { db with refreshTokens := db.refreshTokens.insert tokenHash t }
  | .putOtp id o, db => { db with emailOtps := db.emailOtps.insert id o }

/-- Codes are written in transactions, too, and locked there. -/
def AuthStmt.locks : AuthStmt → AuthDb → List Uuid
  | .consumeOtps found _, _ => found
  | .insertOtp id _ _ _ _ _, _ => [id]
  | .incrementOtpAttempts otpId, _ => [otpId]
  | .claimOtp otpId _, _ => [otpId]
  | _, _ => []

def AuthWrite.touches : AuthWrite → List Uuid
  | .putToken _ _ => []
  | .putOtp id _ => [id]

abbrev authStore : Schema where
  Db := AuthDb
  Key := Uuid
  Write := AuthWrite
  Err := DbError
  Stmt := AuthStmt
  Ans := AuthStmt.Ans
  Call := AuthCall
  Reply := AuthCall.Reply
  io := .io
  locks := AuthStmt.locks
  eval := AuthStmt.eval
  apply := AuthWrite.apply
  tick db db' := ∃ t, db.now ≤ t ∧ db' = { db with now := t }
  Row _ := Option EmailOtp
  row k db := db.emailOtps.lookup k
  touches := AuthWrite.touches
  row_apply k w db h := by
    cases w with
    | putToken tokenHash t => rfl
    | putOtp id o => exact AList.lookup_insert_ne (by simpa [AuthWrite.touches] using h)
  row_congr k w db db' h := by
    cases w with
    | putToken tokenHash t => exact h
    | putOtp id o =>
      by_cases e : k = id
      · subst e
        simp only [AuthWrite.apply, AList.lookup_insert]
      · exact (AList.lookup_insert_ne e).trans (h.trans (AList.lookup_insert_ne e).symm)
  row_tick := by
    rintro k db _ ⟨t, -, rfl⟩
    rfl

/-! ## The service -/

structure AuthConfig where
  jwtAccessTtlSecs : ℤ
  jwtRefreshTtlSecs : ℤ
  otpCodeTtlSecs : ℤ
  otpResendCooldownSecs : ℤ
  otpMaxAttempts : ℤ
  refreshReuseGraceSecs : ℤ
  issuer : String
  audience : String

/-- The keyed hash of a refresh token, and the bare one of old sessions. -/
structure AuthEnv where
  config : AuthConfig
  refreshTokenHash : String → String
  sha256Hex : String → String

inductive AuthError where
  | unauthorized
  | refreshReuseDetected
  | rateLimited
  | notFound
  | repo (e : DbError)

instance : FromErr DbError AuthError := ⟨.repo⟩

structure AuthTokens where
  accessToken : String
  refreshToken : String

abbrev AuthCode (ε α : Type) := Code authStore ε α

def authPool (st : AuthStmt) : AuthCode AuthError st.Ans := poolQuery (S := authStore) st
def authQuery (st : AuthStmt) : AuthCode AuthError st.Ans := query (S := authStore) st
def authCall (c : AuthCall) : AuthCode AuthError c.Reply := invoke (S := authStore) c

section
variable (E : AuthEnv)

def refreshTokenLookupHashes (refreshToken : String) : List String :=
  [E.refreshTokenHash refreshToken, E.sha256Hex refreshToken]

/-- `timestamp()` of a time: whole seconds. -/
def unixSeconds (t : Timestamp) : ℤ := t / 1000000

def signAccessToken (user : UserRow) : AuthCode AuthError String := do
  let now ← authCall .utcNow
  let signed ← authCall (.signJwt ⟨user.id, user.role, user.twoFactorEnabled, E.config.issuer,
    E.config.audience, unixSeconds now, unixSeconds (now + seconds E.config.jwtAccessTtlSecs)⟩)
  match signed with
  | some token => pure token
  | none => .throw .unauthorized

def issueTokens (user : UserRow) : AuthCode AuthError AuthTokens := do
  let accessToken ← signAccessToken E user
  let refreshToken ← authCall .randomToken
  let now ← authCall .utcNow
  authPool (.createRefreshToken user.id (E.refreshTokenHash refreshToken)
    (now + seconds E.config.jwtRefreshTtlSecs))
  pure ⟨accessToken, refreshToken⟩

/-- A token that was revoked at `revokedAt` is honoured at `now`. -/
def inGrace (now revokedAt expiresAt : Timestamp) : Bool :=
  decide (0 < E.config.refreshReuseGraceSecs) &&
    decide (now - revokedAt < seconds (max E.config.refreshReuseGraceSecs 0)) &&
    decide (now < expiresAt)

def reuseDetected (userId : Uuid) (now : Timestamp) : AuthCode AuthError AuthTokens := do
  authPool (.revokeAllUserRefreshTokens userId now)
  .throw .refreshReuseDetected

def refreshRevoked (tokenHash : String) (existing : RefreshTokenRow) (revokedAt now : Timestamp) :
    AuthCode AuthError AuthTokens :=
  if inGrace E now revokedAt existing.expiresAt then do
    let found ← authPool (.findRefreshTokenWithUser tokenHash)
    match found with
    | some (_, user) => issueTokens E user
    | none => reuseDetected existing.userId now
  else reuseDetected existing.userId now

def refreshClaimed (tokenHash : String) : AuthCode AuthError AuthTokens := do
  let found ← authPool (.findRefreshTokenWithUser tokenHash)
  match found with
  | some (_, user) => issueTokens E user
  | none => .throw .unauthorized

def refreshHashes (now : Timestamp) : List String → AuthCode AuthError AuthTokens
  | [] => .throw .unauthorized
  | tokenHash :: hashes => do
    let claimed ← authPool (.claimRefreshToken tokenHash now)
    if claimed = 1 then refreshClaimed E tokenHash
    else do
      let existing ← authPool (.findRefreshToken tokenHash)
      match existing.bind fun row => row.revokedAt.map fun revokedAt => (row, revokedAt) with
      | some (row, revokedAt) => refreshRevoked E tokenHash row revokedAt now
      | none => refreshHashes now hashes

def refresh (refreshToken : String) : AuthCode AuthError AuthTokens := do
  let now ← authCall .utcNow
  refreshHashes E now (refreshTokenLookupHashes E refreshToken)

def revokeHashes (now : Timestamp) : List String → AuthCode AuthError Unit
  | [] => pure ()
  | tokenHash :: hashes => do
    authPool (.revokeRefreshTokenByHash tokenHash now)
    revokeHashes now hashes

def revokeRefreshToken (refreshToken : String) : AuthCode AuthError Unit := do
  let now ← authCall .utcNow
  revokeHashes now (refreshTokenLookupHashes E refreshToken)

/-! ## Codes -/

def otpSubject (purpose : OtpPurpose) : String :=
  "BitcoSats — your " ++ (purpose.asStr.toLower.replace "_" " ") ++ " code"

def otpBody (code : String) : String :=
  "Your BitcoSats verification code is: " ++ code ++ "\n\nThis code expires in " ++
    toString (E.config.otpCodeTtlSecs.tdiv 60) ++
    " minutes. If you didn't request this, ignore this email."

def rotateOtp (userId : Uuid) (purpose : OtpPurpose) (codeHash : String)
    (expiresAt now : Timestamp) : AuthCode AuthError Unit :=
  transaction (S := authStore) do
    let createdAt ← authCall .transactionTimestamp
    let found ← authQuery (.scanOtps userId purpose)
    authQuery (.consumeOtps found now)
    let id ← authCall .newUuid
    authQuery (.insertOtp id userId purpose codeHash expiresAt createdAt)
    commit (S := authStore)

def requestEmailOtp (userId : Uuid) (purpose : OtpPurpose) : AuthCode AuthError String := do
  let user ← authPool (.findUserById userId)
  match user with
  | none => .throw .notFound
  | some user => do
    let now ← authCall .utcNow
    let recent ← authPool (.findRecentOtp userId purpose
      (now - seconds E.config.otpResendCooldownSecs))
    if recent.isSome then .throw .rateLimited
    else do
      let code ← authCall .generateOtpCode
      let codeHash ← authCall (.hashPassword code)
      match codeHash with
      | none => .throw .rateLimited
      | some codeHash => do
        rotateOtp userId purpose codeHash (now + seconds E.config.otpCodeTtlSecs) now
        authCall (.sendEmail user.email (otpSubject purpose) (otpBody E code))
        pure code

def isOtpCode (code : String) : Bool :=
  code.utf8ByteSize == 6 && code.toList.all Char.isDigit

def verifyEmailOtp (userId : Uuid) (purpose : OtpPurpose) (code : String) :
    AuthCode AuthError Bool :=
  if !isOtpCode code then pure false
  else do
    let now ← authCall .utcNow
    let found ← authPool (.findActiveOtp userId purpose now)
    match found with
    | none => pure false
    | some otp =>
      if E.config.otpMaxAttempts ≤ otp.attempts then do
        let _ ← authPool (.claimOtp otp.id now)
        pure false
      else do
        let ok ← authCall (.verifyPassword code otp)
        if ok then do
          let claimed ← authPool (.claimOtp otp.id now)
          pure (claimed == 1)
        else do
          authPool (.incrementOtpAttempts otp.id)
          pure false

end

/-! ## Concrete calls -/

def authAnswers (now : Timestamp) (token : String) : (c : AuthCall) → AuthCall.Reply c
  | .utcNow => now
  | .transactionTimestamp => now
  | .newUuid => 7
  | .randomToken => token
  | .signJwt _ => some "access"
  | .generateOtpCode => "123456"
  | .hashPassword _ => some "hash"
  | .verifyPassword _ _ => false
  | .sendEmail _ _ _ => ()

def passTime (_ : ℕ) (db : AuthDb) : AuthDb := db

theorem tick_passTime (n : ℕ) (db : AuthDb) : authStore.tick db (passTime n db) :=
  ⟨db.now, le_refl _, rfl⟩

end SatsPay
