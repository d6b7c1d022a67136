import SatsPay.Auth
import SatsPay.Json

/-!
# Authorization codes and access tokens

The OAuth provider over its tables. Every statement is on its own.
-/

namespace SatsPay

open Interleave ReadCommitted

/-! ## The store -/

structure OauthApplication where
  id : Uuid
  clientSecretHash : String
  isActive : Bool

structure AuthorizationCode where
  applicationId : Uuid
  userId : Uuid
  redirectUri : String
  scope : String
  state : Option String
  expiresAt : Timestamp
  usedAt : Option Timestamp
  codeChallenge : Option String
  codeChallengeMethod : Option String
  deriving DecidableEq

structure AccessToken where
  applicationId : Uuid
  userId : Uuid
  scope : String
  expiresAt : Timestamp
  revokedAt : Option Timestamp
  deriving DecidableEq

structure OauthUser where
  username : String
  email : String
  createdAt : Timestamp

/-- The tables by their keys: `client_id`, `code`, `token`. -/
structure OauthDb where
  now : Timestamp
  applications : String → Option OauthApplication
  users : Uuid → Option OauthUser
  codes : String → Option AuthorizationCode
  tokens : String → Option AccessToken
  consents : Uuid → Uuid → Option String

/-! ## Statements -/

structure TokenUserRow where
  userId : Uuid
  user : OauthUser
  expiresAt : Timestamp
  revokedAt : Option Timestamp

inductive OauthStmt where
  | insertCode (code : String) (row : AuthorizationCode)
  | recordConsent (userId applicationId : Uuid) (grantedScopes : String)
  | findApplication (clientId : String)
  | findCode (code : String) (applicationId : Uuid)
  | markUsed (code : String)
  | insertToken (token : String) (row : AccessToken)
  | findToken (token : String)
  | deleteConsent (userId applicationId : Uuid)
  | revokeTokens (userId applicationId : Uuid)

abbrev OauthStmt.Ans : OauthStmt → Type
  | .insertCode _ _ => Unit
  | .recordConsent _ _ _ => Unit
  | .findApplication _ => Option OauthApplication
  | .findCode _ _ => Option AuthorizationCode
  | .markUsed _ => Unit
  | .insertToken _ _ => Unit
  | .findToken _ => Option TokenUserRow
  | .deleteConsent _ _ => Unit
  | .revokeTokens _ _ => Unit

inductive OauthWrite where
  | putCode (code : String) (row : AuthorizationCode)
  | putToken (token : String) (row : AccessToken)
  | putConsent (userId applicationId : Uuid) (grantedScopes : Option String)
  | revokeTokens (userId applicationId : Uuid)

inductive OauthCall where
  | utcNow
  | randomToken (bytes : ℕ)

abbrev OauthCall.Reply : OauthCall → Type
  | .utcNow => Timestamp
  | .randomToken _ => String

def OauthDb.tokenUser (db : OauthDb) (token : String) : Option TokenUserRow :=
  (db.tokens token).bind fun t =>
    (db.users t.userId).map fun u => ⟨t.userId, u, t.expiresAt, t.revokedAt⟩

def OauthStmt.eval : (st : OauthStmt) → OauthDb → List (Except DbError (st.Ans × List OauthWrite))
  | .insertCode code row, db =>
    if (db.codes code).isSome then [.error .uniqueViolation] else [.ok ((), [.putCode code row])]
  | .recordConsent userId applicationId grantedScopes, _ =>
    [.ok ((), [.putConsent userId applicationId (some grantedScopes)])]
  | .findApplication clientId, db => [.ok (db.applications clientId, [])]
  | .findCode code applicationId, db =>
    [.ok ((db.codes code).filter fun c => c.applicationId == applicationId, [])]
  | .markUsed code, db =>
    [.ok ((), ((db.codes code).map fun c => OauthWrite.putCode code
      { c with usedAt := some db.now }).toList)]
  | .insertToken token row, db =>
    if (db.tokens token).isSome then [.error .uniqueViolation]
    else [.ok ((), [.putToken token row])]
  | .findToken token, db => [.ok (db.tokenUser token, [])]
  | .deleteConsent userId applicationId, _ => [.ok ((), [.putConsent userId applicationId none])]
  | .revokeTokens userId applicationId, _ => [.ok ((), [.revokeTokens userId applicationId])]

/-- Revoked at `now`, if it is of this user and application and not revoked yet. -/
def AccessToken.revokeFor (userId applicationId : Uuid) (now : Timestamp) (t : AccessToken) :
    AccessToken :=
  if t.userId = userId ∧ t.applicationId = applicationId ∧ t.revokedAt = none then
    { t with revokedAt := some now }
  else t

def OauthWrite.apply : OauthWrite → OauthDb → OauthDb
  | .putCode code row, db => { db with codes := Function.update db.codes code (some row) }
  | .putToken token row, db => { db with tokens := Function.update db.tokens token (some row) }
  | .putConsent userId applicationId grantedScopes, db =>
    let ofUser := Function.update (db.consents userId) applicationId grantedScopes
    { db with consents := Function.update db.consents userId ofUser }
  | .revokeTokens userId applicationId, db =>
    { db with tokens := fun k => (db.tokens k).map (.revokeFor userId applicationId db.now) }

/-- Applications and users change by other ways. -/
abbrev oauthStore : Schema where
  Db := OauthDb
  Key := Empty
  Write := OauthWrite
  Err := DbError
  Stmt := OauthStmt
  Ans := OauthStmt.Ans
  Call := OauthCall
  Reply := OauthCall.Reply
  io := .io
  locks _ _ := []
  eval := OauthStmt.eval
  apply := OauthWrite.apply
  tick db db' := db.now ≤ db'.now ∧ db'.codes = db.codes ∧ db'.tokens = db.tokens ∧
    db'.consents = db.consents
  Row _ := Unit
  row _ _ := ()
  touches _ := []
  row_apply k := k.elim
  row_congr k := k.elim
  row_tick k := k.elim

/-! ## The provider -/

/-- The keyed hash of client secrets, and the encoded SHA-256 of a verifier. -/
structure OauthEnv where
  verifyHmacHex : String → String → Bool
  s256 : String → String

inductive OauthError where
  | db (e : DbError)
  | appNotFound
  | invalidClientSecret
  | invalidCode
  | invalidRedirectUri
  | invalidPkce
  | invalidToken
  | appDisabled

instance : FromErr DbError OauthError := ⟨.db⟩

abbrev OauthCode (α : Type) := Code oauthStore OauthError α

def oauthPool (st : OauthStmt) : OauthCode st.Ans := poolQuery (S := oauthStore) st
def oauthCall (c : OauthCall) : OauthCode c.Reply := invoke (S := oauthStore) c

def createAuthorizationCode (applicationId userId : Uuid) (redirectUri scope : String)
    (state codeChallenge codeChallengeMethod : Option String) : OauthCode String := do
  let random ← oauthCall (.randomToken 20)
  let code := "sats_code_" ++ random
  let now ← oauthCall .utcNow
  oauthPool (.insertCode code ⟨applicationId, userId, redirectUri, scope, state,
    now + seconds 600, none, codeChallenge, codeChallengeMethod⟩)
  oauthPool (.recordConsent userId applicationId scope)
  pure code

section
variable (E : OauthEnv)

def verifyPkceS256 (verifier challenge : String) : Bool :=
  if verifier.utf8ByteSize < 43 ∨ 128 < verifier.utf8ByteSize then false
  else E.s256 verifier == challenge

def trimmed (s : String) : String := String.ofList (trim s.toList)

/-- A challenge is stored, and what is presented of a verifier matches it. -/
def checkPkce (row : AuthorizationCode) (codeVerifier : Option String) : Except OauthError Unit :=
  match row.codeChallenge.filter (· ≠ "") with
  | none => .error .invalidPkce
  | some challenge =>
    match (codeVerifier.map trimmed).filter (· ≠ "") with
    | none => .error .invalidPkce
    | some verifier =>
      if row.codeChallengeMethod.getD "S256" ≠ "S256" then .error .invalidPkce
      else if !verifyPkceS256 E verifier challenge then .error .invalidPkce
      else .ok ()

def checkCode (row : AuthorizationCode) (now : Timestamp) (redirectUri : String)
    (codeVerifier : Option String) : Except OauthError Unit :=
  if row.usedAt.isSome ∨ row.expiresAt < now then .error .invalidCode
  else if row.redirectUri ≠ redirectUri then .error .invalidRedirectUri
  else checkPkce E row codeVerifier

def checkClient (app : Option OauthApplication) (clientSecret : String) :
    Except OauthError OauthApplication :=
  match app with
  | none => .error .appNotFound
  | some app =>
    if !app.isActive then .error .appDisabled
    else if !E.verifyHmacHex clientSecret app.clientSecretHash then .error .invalidClientSecret
    else .ok app

def tokenLifetimeSecs : ℤ := 86400 * 30

def issueToken (code : String) (applicationId : Uuid) (row : AuthorizationCode) :
    OauthCode (String × ℤ × String) := do
  oauthPool (.markUsed code)
  let random ← oauthCall (.randomToken 24)
  let token := "sats_tok_" ++ random
  let now ← oauthCall .utcNow
  oauthPool (.insertToken token ⟨applicationId, row.userId, row.scope,
    now + seconds tokenLifetimeSecs, none⟩)
  pure (token, tokenLifetimeSecs, row.scope)

def exchangeAuthorizationCode (code clientId clientSecret redirectUri : String)
    (codeVerifier : Option String) : OauthCode (String × ℤ × String) := do
  let found ← oauthPool (.findApplication clientId)
  match checkClient E found clientSecret with
  | .error e => .throw e
  | .ok app =>
    let found ← oauthPool (.findCode code app.id)
    match found with
    | none => .throw .invalidCode
    | some row =>
      let now ← oauthCall .utcNow
      match checkCode E row now redirectUri codeVerifier with
      | .error e => .throw e
      | .ok () => issueToken code app.id row

end

structure OauthUserInfo where
  sub : String
  id : String
  username : String
  email : String
  name : String
  picture : String
  emailVerified : Bool
  createdAt : Timestamp

def TokenUserRow.stands (row : TokenUserRow) (now : Timestamp) : Prop :=
  row.revokedAt = none ∧ ¬ row.expiresAt < now

instance (row : TokenUserRow) (now : Timestamp) : Decidable (row.stands now) := by
  unfold TokenUserRow.stands
  infer_instance

def TokenUserRow.info (row : TokenUserRow) : OauthUserInfo where
  sub := toString row.userId
  id := toString row.userId
  username := row.user.username
  email := row.user.email
  name := row.user.username
  picture := s!"https://api.dicebear.com/7.x/identicon/svg?seed={row.user.username}"
  emailVerified := true
  createdAt := row.user.createdAt

def getUserByOauthToken (token : String) : OauthCode OauthUserInfo := do
  let found ← oauthPool (.findToken token)
  match found with
  | none => .throw .invalidToken
  | some row =>
    let now ← oauthCall .utcNow
    if row.stands now then pure row.info else .throw .invalidToken

def revokeUserConsent (userId applicationId : Uuid) : OauthCode Unit := do
  oauthPool (.deleteConsent userId applicationId)
  oauthPool (.revokeTokens userId applicationId)

end SatsPay
