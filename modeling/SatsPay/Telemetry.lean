import SatsPay.Hex
import SatsPay.RedactedTexts

/-!
# Error telemetry

How a reported error is redacted, fingerprinted and stored.
-/

namespace SatsPay

open Letter

/-- `str::lines`: a final line break ends no line, and a `\r` before a line break is part of it. -/
def strLines (s : List Char) : List (List Char) :=
  let parts := splitLines s
  let ended := parts.dropLast.map fun l => if l.getLast? = some '\r' then l.dropLast else l
  ended ++ (parts.getLast?.toList.filter (!·.isEmpty))

def trimMatching (p : Char → Bool) (s : List Char) : List Char := (s.dropWhile p).rdropWhile p

def contains (pat : String) (s : List Char) : Bool := (findText pat.toList s).isSome

def allHexDigits (s : List Char) : Bool := s.all fun c => (fromHexDigit c).isSome

structure NewErrorPayload where
  service : List Char
  level : List Char
  message : List Char
  stackTrace : Option (List Char)
  endpoint : Option (List Char)
  method : Option (List Char)
  statusCode : Option ℤ
  userId : Option ℕ
  ipAddress : Option (List Char)
  requestPayload : Option Value
  userAgent : Option (List Char)

section
variable (isUuid : List Char → Bool) (sha256 : List UInt8 → Vector UInt8 32)

def normalizeEndpoint (path : List Char) : List Char :=
  let bare := (path.splitOn '?').headD path
  ['/'].intercalate ((bare.splitOn '/').map fun seg =>
    if seg = [] then []
    else if isUuid seg ∨ 16 ≤ byteLen seg ∧ allHexDigits seg then ":id".toList
    else if seg.all Char.isDigit ∧ 4 ≤ byteLen seg then ":n".toList
    else seg)

def looksLikeIdToken (tok : List Char) : Bool :=
  let t := trimMatching (fun c => !c.isAlphanum && c != '-') tok
  if t = [] then false
  else isUuid t || (16 ≤ byteLen t && allHexDigits t)

def normalizeText (s : List Char) : List Char :=
  let line := trimText ((strLines s).headD s)
  trimText ((splitWhitespace line).flatMap fun raw =>
    if looksLikeIdToken isUuid raw then "<id> ".toList
    else if 5 ≤ raw.countP Char.isDigit ∧
        raw.all fun c => c.isDigit || c ∈ [',', '.', ':', '-', '/'] then "<n> ".toList
    else raw.map Char.toLower ++ [' '])

def stackFrameKey : Option (List Char) → List Char
  | none => []
  | some stack =>
    let frame := ((strLines stack).map trimText).find? fun t => t ≠ [] && (contains "at " t ||
      contains ".rs:" t || contains ".ts:" t || contains ".tsx:" t || contains "/" t)
    normalizeText isUuid (frame.getD stack)

def payloadKind (payload : NewErrorPayload) : List Char :=
  (((payload.requestPayload.bind (·.get "kind")).bind Value.asStr).getD "").toList.map Char.toLower

def computeFingerprint (payload : NewErrorPayload) : List Char :=
  let raw := ['|'].intercalate [payload.service, payload.level,
    (payload.method.getD []).map Char.toUpper, (payload.statusCode.map intText).getD [],
    normalizeEndpoint isUuid (payload.endpoint.getD []), payloadKind payload,
    normalizeText isUuid payload.message, stackFrameKey isUuid payload.stackTrace]
  Hex.encode (((sha256 (String.ofList raw).toUTF8.toList).toList.take 16).map UInt8.toNat)

/-! ## Recorded errors -/

inductive ErrorStatus where
  | open
  | investigating
  | resolved
  | ignored
  deriving DecidableEq

structure SystemErrorLog where
  id : ℕ
  fingerprint : List Char
  service : List Char
  level : List Char
  message : List Char
  stackTrace : Option (List Char)
  endpoint : Option (List Char)
  method : Option (List Char)
  statusCode : Option ℤ
  userId : Option ℕ
  ipAddress : Option (List Char)
  requestPayload : Option Value
  userAgent : Option (List Char)
  occurrencesCount : ℤ
  status : ErrorStatus

structure RecordedError where
  id : ℕ
  isNew : Bool
  occurrences : ℤ

/-- The payload that is stored, unless the redaction panics. -/
def redactPayload (payload : NewErrorPayload) : Option NewErrorPayload := do
  let message ← redactSecrets payload.message
  let stackTrace ← payload.stackTrace.mapM redactSecrets
  some { payload with message, stackTrace }

/-- `id` is the one that an inserted row gets. -/
def recordError (logs : List SystemErrorLog) (id : ℕ) (payload : NewErrorPayload) :
    Option (List SystemErrorLog × RecordedError) := do
  let payload ← redactPayload payload
  let fingerprint := computeFingerprint isUuid sha256 payload
  let hit (row : SystemErrorLog) : Bool := row.fingerprint = fingerprint ∧
    (row.status = .open ∨ row.status = .investigating)
  match logs.find? hit with
  | some existing =>
    let logs := logs.map fun row => if hit row then { row with
      occurrencesCount := row.occurrencesCount + 1
      stackTrace := payload.stackTrace.or row.stackTrace
      requestPayload := payload.requestPayload.or row.requestPayload } else row
    some (logs, ⟨existing.id, false, existing.occurrencesCount + 1⟩)
  | none =>
    let row : SystemErrorLog := { id, fingerprint, service := payload.service
                                  level := payload.level, message := payload.message
                                  stackTrace := payload.stackTrace, endpoint := payload.endpoint
                                  method := payload.method, statusCode := payload.statusCode
                                  userId := payload.userId, ipAddress := payload.ipAddress
                                  requestPayload := payload.requestPayload
                                  userAgent := payload.userAgent.map (·.take 80)
                                  occurrencesCount := 1, status := .open }
    some (logs ++ [row], ⟨id, true, 1⟩)

def NewErrorPayload.texts (payload : NewErrorPayload) : List (List Char) :=
  payload.message :: payload.stackTrace.toList

theorem redactPayload_twice {payload payload' : NewErrorPayload}
    (h : ∀ s ∈ payload.texts, Redacts s) (he : redactPayload payload = some payload') :
    redactPayload payload' = some payload' := by
  obtain ⟨m, hm, -, hm'⟩ := (h payload.message List.mem_cons_self).once
  unfold redactPayload at he ⊢
  cases hst : payload.stackTrace with
  | none =>
    simp only [hm, hst, Option.mapM_none, Option.bind_eq_bind, Option.bind_some, Option.pure_def,
      Option.some.injEq] at he
    subst he
    simp [hm']
  | some st =>
    obtain ⟨r, hr, -, hr'⟩ := (h st (by simp [NewErrorPayload.texts, hst])).once
    simp only [hm, hst, Option.mapM_some, hr, Option.bind_eq_bind, Option.bind_some,
      Option.map_eq_map, Option.map_some, Option.some.injEq] at he
    subst he
    simp [hm', hr']

/-- The texts of a payload are redacted, and an already redacted payload is recorded as the
payload is, exactly when each of their lines can be redacted. -/
theorem errors_redacted_iff (payload : NewErrorPayload) :
    ((∀ s ∈ payload.texts, Redacts s) ∧
      ∀ payload', redactPayload payload = some payload' → ∀ logs id,
        recordError isUuid sha256 logs id payload' = recordError isUuid sha256 logs id payload) ↔
      ∀ s ∈ payload.texts, ∀ l ∈ splitLines s, Redactable l := by
  rw [← forall₂_congr fun s _ => redacts_iff]
  refine ⟨fun h => h.1, fun h => ⟨h, fun payload' he logs id => ?_⟩⟩
  unfold recordError
  rw [he, redactPayload_twice h he]

theorem second_token_kept :
    redactSecrets "Bearer a Bearer b".toList = some "Bearer [REDACTED] Bearer b".toList ∧
      redactSecrets "Bearer\ta".toList = some "Bearer a".toList ∧
      redactSecrets "Bearer a".toList = some "Bearer [REDACTED]".toList ∧
      ¬Redacts "Bearer a Bearer b".toList ∧ ¬Redacts "Bearer\ta".toList := by
  refine ⟨by decide +kernel, by decide +kernel, by decide +kernel, fun h => ?_, fun h => ?_⟩
  · have hsecret : IsSecret "Bearer a Bearer ".toList "b".toList [] :=
      .bearer ⟨"Bearer a ".toList, rfl⟩ (by decide +kernel) (by decide +kernel)
        (List.all_iff_forall_prop.1 (by decide +kernel)) (by rintro c ⟨⟩)
    have hmark := h.removed _ _ _ rfl hsecret
      (unmarked "Bearer [REDACTED] Bearer ".toList ++ [('b', true)]) (by decide +kernel)
    exact Bool.noConfusion (hmark ('b', true) (by simp))
  · obtain ⟨r, hr, -, htwice⟩ := h.once
    have hr' : redactSecrets "Bearer\ta".toList = some "Bearer a".toList := by decide +kernel
    have htwice' : redactSecrets "Bearer a".toList = some "Bearer [REDACTED]".toList := by
      decide +kernel
    obtain rfl := Option.some.inj (hr.symm.trans hr')
    exact absurd (htwice.symm.trans htwice') (by decide +kernel)

end

end SatsPay
