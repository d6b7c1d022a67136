import SatsPay.IpAddresses
import SatsPay.PublicApi

/-!
# Signed requests of the public API

`verify_signed_request` and its nonces, and when a signed request is accepted
only once.
-/

namespace SatsPay

open Interleave ReadCommitted RowProtocol

/-! ## The store -/

/-- Microseconds since 1970. -/
abbrev Micros := Nat

structure ApiKeyRow where
  userId : Uuid
  scopes : List String
  allowedIps : List String
  expiresAt : Option Micros
  disabledAt : Option Micros
  keyEnc : Option String
  lastUsedAt : Option Micros

/-- A row of `public_api_signature_nonces`. -/
structure Nonce where
  apiKeyId : Uuid
  signature : String
  seenAt : Micros
  deriving DecidableEq

structure SignedApiDb where
  now : Micros
  apiKeys : Table ApiKeyRow
  nonces : List Nonce

structure SignedRequest where
  keyId : Uuid
  timestamp : String
  method : String
  path : String
  rawBody : List UInt8
  deriving DecidableEq

structure VerifySignedRequestInput extends SignedRequest where
  signature : String
  sourceIp : String
  deriving DecidableEq

inductive VerifyError where
  | db (e : DbError)
  | keyNotFound
  | invalidKey
  | keyExpired
  | ipNotAllowed
  | badTimestamp
  | timestampOutOfWindow
  | signatureMismatch
  | signatureReplay
  | panic

instance : FromErr DbError VerifyError := ⟨.db⟩

inductive SignedApiStmt where
  | findKey (id : Uuid)
  | pruneNonces (keyId : Uuid) (cutoff : ℤ)
  | reserveNonce (keyId : Uuid) (signature : String)
  | touchKey (id : Uuid)

abbrev SignedApiStmt.Ans : SignedApiStmt → Type
  | .findKey _ => Option ApiKeyRow
  | .pruneNonces _ _ => Unit
  | .reserveNonce _ _ => Bool
  | .touchKey _ => Unit

inductive SignedApiWrite where
  | addNonce (n : Nonce)
  | dropNonces (keyId : Uuid) (cutoff : ℤ)
  | putKey (id : Uuid) (row : ApiKeyRow)

/-- A request comes in, the clock is read, the request goes on to its handler or is
turned away. -/
inductive SignedApiCall where
  | receive
  | utcNow
  | answer (input : VerifySignedRequestInput) (r : Except VerifyError ApiKeyRecord)

abbrev SignedApiCall.Reply : SignedApiCall → Type
  | .receive => VerifySignedRequestInput
  | .utcNow => Micros
  | .answer _ _ => Unit

/-- `api_key_id = $1 AND seen_at < $2` -/
def Nonce.expired (keyId : Uuid) (cutoff : ℤ) (n : Nonce) : Bool :=
  n.apiKeyId == keyId && decide ((n.seenAt : ℤ) < cutoff)

def SignedApiDb.reserved (db : SignedApiDb) (keyId : Uuid) (signature : String) : Bool :=
  db.nonces.any fun n => n.apiKeyId == keyId && n.signature == signature

def SignedApiStmt.eval : (st : SignedApiStmt) → SignedApiDb →
    List (Except DbError (st.Ans × List SignedApiWrite))
  | .findKey id, db => [.ok (db.apiKeys.lookup id, [])]
  | .pruneNonces keyId cutoff, _ => [.ok ((), [.dropNonces keyId cutoff])]
  | .reserveNonce keyId signature, db =>
    if db.reserved keyId signature then [.ok (false, [])]
    else [.ok (true, [.addNonce ⟨keyId, signature, db.now⟩])]
  | .touchKey id, db =>
    [.ok ((), match db.apiKeys.lookup id with
      | some row => [.putKey id { row with lastUsedAt := some db.now }]
      | none => [])]

def SignedApiWrite.apply : SignedApiWrite → SignedApiDb → SignedApiDb
  | .addNonce n, db => { db with nonces := n :: db.nonces }
  | .dropNonces keyId cutoff, db =>
    { db with nonces := db.nonces.filter fun n => !n.expired keyId cutoff }
  | .putKey id row, db => { db with apiKeys := db.apiKeys.insert id row }

/-- Every statement commits by itself, so none keeps a lock. -/
abbrev signedApi : Schema where
  Db := SignedApiDb
  Key := Empty
  Write := SignedApiWrite
  Err := DbError
  Stmt := SignedApiStmt
  Ans := SignedApiStmt.Ans
  Call := SignedApiCall
  Reply := SignedApiCall.Reply
  io := .io
  locks _ _ := []
  eval := SignedApiStmt.eval
  apply := SignedApiWrite.apply
  tick db db' := ∃ t, db.now ≤ t ∧ db' = { db with now := t }
  Row := Empty.elim
  row := nofun
  touches _ := []
  row_apply := nofun
  row_congr := nofun
  row_tick := nofun

/-! ## Source addresses -/

/-- What the code takes from other packages: decryption (of a payload under its
context), the hashes in hex, and the parser of addresses. -/
structure Signing where
  decryptWithAad : String → String → Option String
  hmacSha256Hex : String → String → String
  sha256Hex : List UInt8 → String
  parseIp : String → Option IpAddr

/-- `::ffff:a.b.c.d` is `a.b.c.d`. -/
def canonicalizeIpAddr : IpAddr → IpAddr
  | .v6 b => if b.toNat / 2 ^ 32 = 0xffff then .v4 (b.setWidth 32) else .v6 b
  | .v4 b => .v4 b

def parseU8 (s : List Char) : Option ℕ :=
  (parseU128 s).bind fun n => if n < 2 ^ 8 then some n else none

/-- A shift by the whole width leaves nothing of the mask. -/
def samePrefix {w : ℕ} (prefixLen : ℕ) (net src : BitVec w) : Bool :=
  let mask := BitVec.allOnes w <<< (w - prefixLen)
  net &&& mask == src &&& mask

def ipMatchesAllowlist (G : Signing) (sourceIp entry : String) : Bool :=
  let entry := trim entry.toList
  let sourceIp := trim sourceIp.toList
  if entry == ['*'] || entry == sourceIp then true
  else match G.parseIp (String.ofList sourceIp) with
    | none => false
    | some src => match splitOnce '/' entry with
      | none => (G.parseIp (String.ofList entry)).any fun listed =>
        canonicalizeIpAddr listed == canonicalizeIpAddr src
      | some (net, bits) => match parseU8 bits with
        | none => false
        | some bits => match G.parseIp (String.ofList net), canonicalizeIpAddr src with
          | some (.v4 net), .v4 src => decide (bits ≤ 32) && samePrefix bits net src
          | some (.v6 net), .v6 src => decide (bits ≤ 128) && samePrefix bits net src
          | _, _ => false

/-! ## Verification -/

abbrev SignedApi (ε α : Type) := Code signedApi ε α

def utcNow : SignedApi VerifyError Micros := invoke (S := signedApi) .utcNow

def rowToRecord (id : Uuid) (row : ApiKeyRow) : ApiKeyRecord := ⟨id, row.userId, row.scopes⟩

def keyExpired (row : ApiKeyRow) : SignedApi VerifyError Bool :=
  match row.expiresAt with
  | some exp => do
    let now ← utcNow
    pure (decide (exp ≤ now))
  | none => pure false

def checkUsable (G : Signing) (row : ApiKeyRow) (sourceIp : String) :
    SignedApi VerifyError Unit :=
  if row.disabledAt.isSome then .throw .invalidKey
  else do
    let expired ← keyExpired row
    if expired then .throw .keyExpired
    else if !row.allowedIps.isEmpty && !row.allowedIps.any (ipMatchesAllowlist G sourceIp) then
      .throw .ipNotAllowed
    else pure ()

def apiKeyAad (id : Uuid) : String := "api_key:" ++ toString id

/-- An HTTP method has only ASCII letters to raise. -/
def canonicalString (G : Signing) (timestamp method path : String) (rawBody : List UInt8) :
    String :=
  timestamp ++ "\n" ++ method.toUpper ++ "\n" ++ path ++ "\n" ++ G.sha256Hex rawBody

def signRequest (G : Signing) (secret timestamp method path : String) (rawBody : List UInt8) :
    String :=
  G.hmacSha256Hex secret (canonicalString G timestamp method path rawBody)

/-- `str::parse::<i64>` -/
def parseI64 (s : String) : Option ℤ :=
  match s.toList with
  | '-' :: ds => (parseDigits ds).bind fun n => if n ≤ 2 ^ 63 then some (-(n : ℤ)) else none
  | '+' :: ds | ds => (parseDigits ds).bind fun n => if n < 2 ^ 63 then some (n : ℤ) else none

/-- `i64` arithmetic of a release build. -/
def wrap64 (n : ℤ) : ℤ := n.bmod (2 ^ 64)

def timestampMs (ts : ℤ) : ℤ := if ts < 1000000000000 then wrap64 (ts * 1000) else ts

/-- `max_skew`, in seconds, as milliseconds in a `u64`. -/
def skewMillis (maxSkew : ℕ) : ℕ := maxSkew * 1000 % 2 ^ 64

def inWindow (maxSkew : ℕ) (ts : ℤ) (now : Micros) : Bool :=
  decide ((wrap64 ((now / 1000 : ℕ) - timestampMs ts)).natAbs ≤ skewMillis maxSkew)

/-- `Utc::now() - chrono::Duration::from_std(max_skew).unwrap_or_default()`: a skew
that `chrono` has no duration for counts as none, and the difference must not be
before the first of its dates. -/
def nonceCutoff (maxSkew : ℕ) (now : Micros) : Option ℤ :=
  let skew := if maxSkew ≤ (2 ^ 63 - 1) / 1000 then maxSkew else 0
  let cutoff : ℤ := now - skew * 1000000
  if cutoff < -8334601228800 * 1000000 then none else some cutoff

def reserveSignature (maxSkew : ℕ) (keyId : Uuid) (signature : String) (row : ApiKeyRow) :
    SignedApi VerifyError ApiKeyRecord := do
  let now ← utcNow
  match nonceCutoff maxSkew now with
  | none => .throw .panic
  | some cutoff => do
    let _ ← (poolQuery (S := signedApi) (.pruneNonces keyId cutoff) :
      SignedApi VerifyError Unit).attempt
    let reserved ← poolQuery (S := signedApi) (.reserveNonce keyId signature)
    if reserved then do
      let _ ← (poolQuery (S := signedApi) (.touchKey keyId) : SignedApi VerifyError Unit).attempt
      pure (rowToRecord keyId row)
    else .throw .signatureReplay

/-- From the key row on. The signatures are compared by length and in constant time. -/
def verifyWithKey (G : Signing) (maxSkew : ℕ) (input : VerifySignedRequestInput)
    (row : ApiKeyRow) : SignedApi VerifyError ApiKeyRecord :=
  match row.keyEnc with
  | none => .throw .panic
  | some keyEnc => do
    checkUsable G row input.sourceIp
    match G.decryptWithAad keyEnc (apiKeyAad input.keyId) with
    | none => .throw .invalidKey
    | some rawKey =>
      if signRequest G rawKey input.timestamp input.method input.path input.rawBody =
          input.signature then
        reserveSignature maxSkew input.keyId input.signature row
      else .throw .signatureMismatch

def verifySignedRequest (G : Signing) (maxSkew : ℕ) (input : VerifySignedRequestInput) :
    SignedApi VerifyError ApiKeyRecord :=
  match parseI64 input.timestamp with
  | none => .throw .badTimestamp
  | some ts => do
    let now ← utcNow
    if inWindow maxSkew ts now then do
      let row ← poolQuery (S := signedApi) (.findKey input.keyId)
      match row with
      | none => .throw .keyNotFound
      | some row => verifyWithKey G maxSkew input row
    else .throw .timestampOutOfWindow

def serveSigned (G : Signing) (maxSkew : ℕ) : SignedApi Empty Unit := do
  let input ← invoke (S := signedApi) .receive
  let r ← (verifySignedRequest G maxSkew input).attempt
  invoke (S := signedApi) (.answer input r)

end SatsPay
