import Mathlib
import SatsPay.Base64

/-!
# Sealed personal data

Personal data is stored encrypted, bound to its kind and row. The cipher is ideal: it opens what
was encrypted with the same nonce and associated data, and nothing else.
-/

namespace SatsPay

/-! ## The cipher -/

structure Sealing where
  nonce : List UInt8
  aad : ByteArray
  msg : ByteArray
  /-- The ciphertext with its tag. -/
  out : List UInt8
  deriving DecidableEq

/-- What is drawn for one encryption. The ciphertext depends on the length of the text only. -/
structure Draw where
  iv : Vector UInt8 12
  out : ℕ → List UInt8
  length_out : ∀ n, (out n).length = n + 16

def aeadEncrypt (draw : Draw) (log : List Sealing) (msg aad : ByteArray) :
    List UInt8 × List Sealing :=
  (draw.out msg.size, ⟨draw.iv.toList, aad, msg, draw.out msg.size⟩ :: log)

def aeadDecrypt (log : List Sealing) (nonce out : List UInt8) (aad : ByteArray) : Option ByteArray :=
  (log.find? fun s => decide (s.nonce = nonce ∧ s.aad = aad ∧ s.out = out)).map Sealing.msg

/-- The logs of a key whose nonces are never used twice. -/
inductive Reached : List Sealing → Prop
  | nil : Reached []
  | encrypt {log : List Sealing} (h : Reached log) {draw : Draw}
      (fresh : ∀ s ∈ log, s.nonce ≠ draw.iv.toList) (msg aad : ByteArray) :
      Reached (aeadEncrypt draw log msg aad).2

/-! ## The service -/

inductive CryptoError where
  | invalidBase64
  | payloadTooShort
  | decryptionFailed
  deriving DecidableEq

structure Base64Lib where
  encode : List UInt8 → String
  decode : String → Option (List UInt8)

def piiPrefix : String := "enc:v1:"

/-- `split_at`, with no result where it panics. -/
def splitAtIndex (n : ℕ) (bs : List UInt8) : Option (List UInt8 × List UInt8) :=
  if n ≤ bs.length then some (bs.take n, bs.drop n) else none

section
variable (B : Base64Lib)

def encryptWithAad (draw : Draw) (log : List Sealing) (plaintext : String) (aad : ByteArray) :
    String × List Sealing :=
  let (ctWithTag, log) := aeadEncrypt draw log plaintext.toByteArray aad
  let ct := ctWithTag.take (ctWithTag.length - 16)
  let tag := ctWithTag.drop (ctWithTag.length - 16)
  (B.encode (draw.iv.toList ++ tag ++ ct), log)

/-- `open`; no result where it panics, as with those below. -/
def openPayload (log : List Sealing) (payload : String) (aad : ByteArray) :
    Option (Except CryptoError String) :=
  match B.decode payload with
  | none => some (.error .invalidBase64)
  | some buf =>
    if buf.length < 12 + 16 then some (.error .payloadTooShort)
    else do
      let (iv, rest) ← splitAtIndex 12 buf
      let (tag, ct) ← splitAtIndex 16 rest
      match (aeadDecrypt log iv (ct ++ tag) aad).bind String.fromUTF8? with
      | some plaintext => some (.ok plaintext)
      | none => some (.error .decryptionFailed)

def decryptWithAad (log : List Sealing) (payload : String) (aad : ByteArray) :
    Option (Except CryptoError String) := do
  match ← openPayload B log payload aad with
  | .ok plain => some (.ok plain)
  | .error e => if aad.isEmpty then some (.error e) else openPayload B log payload ByteArray.empty

def piiAad (kind rowKey : String) : ByteArray := (kind ++ ":" ++ rowKey).toByteArray

def IsRecord (text : String) : Prop := piiPrefix.toList <+: text.toList

instance (text : String) : Decidable (IsRecord text) :=
  inferInstanceAs (Decidable (piiPrefix.toList <+: text.toList))

def sealPii (draw : Draw) (log : List Sealing) (kind rowKey plaintext : String) :
    String × List Sealing :=
  if plaintext = "" ∨ IsRecord plaintext then (plaintext, log)
  else
    let (ct, log) := encryptWithAad B draw log plaintext (piiAad kind rowKey)
    (piiPrefix ++ ct, log)

def openPii (log : List Sealing) (kind rowKey stored : String) : Option String :=
  if IsRecord stored then do
    let ct := String.ofList (stored.toList.drop piiPrefix.toList.length)
    match ← decryptWithAad B log ct (piiAad kind rowKey) with
    | .ok plain => some plain
    | .error _ => some stored
  else some stored

end

/-! ## Logs -/

def Sealing.payload (s : Sealing) : List UInt8 :=
  s.nonce ++ s.out.drop (s.out.length - 16) ++ s.out.take (s.out.length - 16)

/-- A nonce was used once. -/
theorem Reached.eq_of_nonce {log : List Sealing} (h : Reached log) {s t : Sealing} (hs : s ∈ log)
    (ht : t ∈ log) (heq : s.nonce = t.nonce) : s = t := by
  induction h with
  | nil => cases hs
  | encrypt _ fresh msg aad ih =>
    rcases List.mem_cons.1 hs with rfl | hs <;> rcases List.mem_cons.1 ht with rfl | ht
    · rfl
    · exact absurd heq.symm (fresh t ht)
    · exact absurd heq (fresh s hs)
    · exact ih hs ht

theorem aeadDecrypt_eq_some {log : List Sealing} {nonce out : List UInt8} {aad msg : ByteArray}
    (h : aeadDecrypt log nonce out aad = some msg) :
    ∃ s ∈ log, s.nonce = nonce ∧ s.aad = aad ∧ s.out = out ∧ s.msg = msg := by
  obtain ⟨s, hfind, rfl⟩ := Option.map_eq_some_iff.1 h
  have hs := List.find?_some hfind
  rw [decide_eq_true_eq] at hs
  exact ⟨s, List.mem_of_find?_eq_some hfind, hs.1, hs.2.1, hs.2.2, rfl⟩

/-- What was encrypted is decrypted with its own associated data, and with no other. -/
theorem Reached.decrypt {log : List Sealing} (h : Reached log) {s : Sealing} (hs : s ∈ log)
    (aad : ByteArray) :
    aeadDecrypt log s.nonce s.out aad = if aad = s.aad then some s.msg else none := by
  split
  · rename_i haad
    subst haad
    cases hdec : aeadDecrypt log s.nonce s.out s.aad with
    | none =>
      have hnone := List.find?_eq_none.1 (Option.map_eq_none_iff.1 hdec) s hs
      exact absurd (decide_eq_true ⟨rfl, rfl, rfl⟩) hnone
    | some msg =>
      obtain ⟨t, ht, hnonce, -, -, rfl⟩ := aeadDecrypt_eq_some hdec
      rw [h.eq_of_nonce ht hs hnonce]
  · rename_i haad
    cases hdec : aeadDecrypt log s.nonce s.out aad with
    | none => rfl
    | some msg =>
      obtain ⟨t, ht, hnonce, htaad, -, -⟩ := aeadDecrypt_eq_some hdec
      rw [h.eq_of_nonce ht hs hnonce] at htaad
      exact absurd htaad.symm haad

/-! ## Payloads -/

theorem fromUTF8?_toByteArray (s : String) : String.fromUTF8? s.toByteArray = some s :=
  dif_pos s.isValidUTF8

section
variable {B : Base64Lib}

theorem openPayload_eq {log : List Sealing} {payload : String} {aad : ByteArray} {buf : List UInt8}
    (hbuf : B.decode payload = some buf) (hlen : 28 ≤ buf.length) :
    openPayload B log payload aad = some (match (aeadDecrypt log (buf.take 12)
        ((buf.drop 12).drop 16 ++ (buf.drop 12).take 16) aad).bind String.fromUTF8? with
      | some plaintext => .ok plaintext
      | none => .error .decryptionFailed) := by
  have hdrop : (buf.drop 12).length = buf.length - 12 := List.length_drop
  unfold openPayload splitAtIndex
  rw [hbuf]
  dsimp only
  rw [if_neg (by omega), if_pos (by omega), Option.bind_eq_bind, Option.bind_some]
  dsimp only
  rw [if_pos (by omega), Option.bind_some]
  dsimp only
  split <;> rfl

theorem openPayload_total (log : List Sealing) (payload : String) (aad : ByteArray) :
    ∃ r, openPayload B log payload aad = some r := by
  cases hbuf : B.decode payload with
  | none => exact ⟨_, by rw [openPayload, hbuf]⟩
  | some buf =>
    by_cases hlen : buf.length < 12 + 16
    · exact ⟨_, by rw [openPayload, hbuf]; exact if_pos hlen⟩
    · exact ⟨_, openPayload_eq hbuf (by omega)⟩

theorem decryptWithAad_total (log : List Sealing) (payload : String) (aad : ByteArray) :
    ∃ r, decryptWithAad B log payload aad = some r := by
  obtain ⟨r, hr⟩ := openPayload_total (B := B) log payload aad
  rw [decryptWithAad, hr, Option.bind_eq_bind, Option.bind_some]
  cases r with
  | ok plain => exact ⟨_, rfl⟩
  | error e =>
    dsimp only
    split
    · exact ⟨_, rfl⟩
    · exact openPayload_total log payload ByteArray.empty

/-- Only what was encrypted is opened. -/
theorem openPayload_ok {log : List Sealing} {payload : String} {aad : ByteArray} {plain : String}
    (h : openPayload B log payload aad = some (.ok plain)) :
    ∃ s ∈ log, s.aad = aad ∧ B.decode payload = some s.payload ∧
      String.fromUTF8? s.msg = some plain := by
  cases hbuf : B.decode payload with
  | none =>
    rw [openPayload, hbuf] at h
    cases h
  | some buf =>
    by_cases hlen : buf.length < 12 + 16
    · rw [openPayload, hbuf] at h
      dsimp only at h
      rw [if_pos hlen] at h
      cases h
    rw [openPayload_eq hbuf (by omega)] at h
    split at h
    · rename_i plaintext hplain
      obtain rfl : plaintext = plain := by simpa using h
      obtain ⟨msg, hmsg, hplain⟩ := Option.bind_eq_some_iff.1 hplain
      obtain ⟨s, hs, hnonce, haad, hout, rfl⟩ := aeadDecrypt_eq_some hmsg
      refine ⟨s, hs, haad, ?_, hplain⟩
      have htag : ((buf.drop 12).drop 16).length = s.out.length - 16 := by
        rw [hout, List.length_append, List.length_take, List.length_drop, List.length_drop]
        omega
      rw [Sealing.payload, hnonce, ← htag, hout, List.drop_left, List.take_left, List.append_assoc,
        List.take_append_drop, List.take_append_drop]
    · cases h

theorem decryptWithAad_ok {log : List Sealing} {payload : String} {aad : ByteArray} {plain : String}
    (h : decryptWithAad B log payload aad = some (.ok plain)) :
    ∃ s ∈ log, (s.aad = aad ∨ s.aad = ByteArray.empty) ∧ B.decode payload = some s.payload ∧
      String.fromUTF8? s.msg = some plain := by
  obtain ⟨r, hr⟩ := openPayload_total (B := B) log payload aad
  rw [decryptWithAad, hr, Option.bind_eq_bind, Option.bind_some] at h
  cases r with
  | ok p =>
    obtain rfl : p = plain := by simpa using h
    obtain ⟨s, hs, haad, hrest⟩ := openPayload_ok hr
    exact ⟨s, hs, .inl haad, hrest⟩
  | error e =>
    dsimp only at h
    split at h
    · cases h
    · obtain ⟨s, hs, haad, hrest⟩ := openPayload_ok h
      exact ⟨s, hs, .inr haad, hrest⟩

/-! ## Round trips -/

def Draw.sealing (draw : Draw) (plaintext : String) (aad : ByteArray) : Sealing :=
  ⟨draw.iv.toList, aad, plaintext.toByteArray, draw.out plaintext.toByteArray.size⟩

theorem encryptWithAad_eq (draw : Draw) (log : List Sealing) (plaintext : String) (aad : ByteArray) :
    encryptWithAad B draw log plaintext aad =
      (B.encode (draw.sealing plaintext aad).payload, draw.sealing plaintext aad :: log) := rfl

/-- In a later log, an encryption is opened with its own associated data only. -/
theorem openPayload_sealing (hB : ∀ bs, B.decode (B.encode bs) = some bs) (draw : Draw)
    (plaintext : String) (aad : ByteArray) {later : List Sealing} (hlater : Reached later)
    (hmem : draw.sealing plaintext aad ∈ later) (aad' : ByteArray) :
    openPayload B later (B.encode (draw.sealing plaintext aad).payload) aad' =
      some (if aad' = aad then .ok plaintext else .error .decryptionFailed) := by
  have hout : (draw.sealing plaintext aad).out.length = plaintext.toByteArray.size + 16 :=
    draw.length_out _
  have hiv : (draw.sealing plaintext aad).nonce.length = 12 := draw.iv.length_toList
  have hdec := hlater.decrypt hmem aad'
  obtain ⟨hmsg, haad⟩ : (draw.sealing plaintext aad).msg = plaintext.toByteArray ∧
    (draw.sealing plaintext aad).aad = aad := ⟨rfl, rfl⟩
  generalize draw.sealing plaintext aad = s at hout hiv hdec hmsg haad
  have htag : (s.out.drop (s.out.length - 16)).length = 16 := by
    rw [List.length_drop]
    omega
  have hpayload : s.payload.length = 12 + s.out.length := by
    rw [Sealing.payload, List.length_append, List.length_append, htag, List.length_take, hiv]
    omega
  have htake : s.payload.take 12 = s.nonce := by
    rw [Sealing.payload, List.append_assoc, List.take_left' hiv]
  have hdrop : s.payload.drop 12 =
      s.out.drop (s.out.length - 16) ++ s.out.take (s.out.length - 16) := by
    rw [Sealing.payload, List.append_assoc, List.drop_left' hiv]
  rw [openPayload_eq (hB _) (by omega), htake, hdrop, List.drop_left' htag, List.take_left' htag,
    List.take_append_drop, hdec, haad, hmsg]
  by_cases hsame : aad' = aad
  · rw [if_pos hsame, if_pos hsame, Option.bind_some, fromUTF8?_toByteArray]
  · rw [if_neg hsame, if_neg hsame]
    rfl

theorem decryptWithAad_sealing (hB : ∀ bs, B.decode (B.encode bs) = some bs) (draw : Draw)
    (plaintext : String) (aad : ByteArray) {later : List Sealing} (hlater : Reached later)
    (hmem : draw.sealing plaintext aad ∈ later) :
    decryptWithAad B later (B.encode (draw.sealing plaintext aad).payload) aad =
        some (.ok plaintext) ∧
      ∀ aad', aad ≠ ByteArray.empty → aad' ≠ aad →
        decryptWithAad B later (B.encode (draw.sealing plaintext aad).payload) aad' =
          some (.error .decryptionFailed) := by
  constructor
  · rw [decryptWithAad, openPayload_sealing hB draw plaintext aad hlater hmem aad, if_pos rfl]
    rfl
  · intro aad' hne hother
    rw [decryptWithAad, openPayload_sealing hB draw plaintext aad hlater hmem aad', if_neg hother,
      openPayload_sealing hB draw plaintext aad hlater hmem ByteArray.empty, if_neg hne.symm]
    dsimp only [Option.bind_eq_bind, Option.bind_some]
    split <;> rfl

theorem piiAad_ne_empty (kind rowKey : String) : piiAad kind rowKey ≠ ByteArray.empty := by
  intro h
  have hsize := congrArg ByteArray.size h
  simp [piiAad] at hsize

/-- Kinds without a colon and row keys are told apart. -/
theorem piiAad_inj {kind rowKey kind' rowKey' : String} (hkind : ':' ∉ kind.toList)
    (hkind' : ':' ∉ kind'.toList) (h : piiAad kind rowKey = piiAad kind' rowKey') :
    (kind, rowKey) = (kind', rowKey') := by
  have htext : kind.toList ++ ':' :: rowKey.toList = kind'.toList ++ ':' :: rowKey'.toList := by
    have := congrArg String.toList (String.toByteArray_inj.1 h)
    simpa using this
  have hbefore (k r : List Char) (hk : ':' ∉ k) : (k ++ ':' :: r).takeWhile (· != ':') = k := by
    rw [List.takeWhile_append_of_pos, List.takeWhile_cons_of_neg (by decide), List.append_nil]
    intro c hc
    have : c ≠ ':' := by
      rintro rfl
      exact hk hc
    simpa using this
  have hk : kind.toList = kind'.toList := by
    rw [← hbefore _ rowKey.toList hkind, htext, hbefore _ _ hkind']
  rw [hk] at htext
  have hr := (List.cons.inj (List.append_cancel_left htext)).2
  rw [String.toList_inj.1 hk, String.toList_inj.1 hr]

theorem isRecord_append (ct : String) : IsRecord (piiPrefix ++ ct) := by
  rw [IsRecord, String.toList_append]
  exact List.prefix_append _ _

theorem sealPii_record (draw : Draw) (log : List Sealing) (kind rowKey : String) {text : String}
    (h : IsRecord text) : sealPii B draw log kind rowKey text = (text, log) := if_pos (.inr h)

theorem sealPii_eq (draw : Draw) (log : List Sealing) (kind rowKey : String) {plaintext : String}
    (hne : plaintext ≠ "") (h : ¬ IsRecord plaintext) :
    sealPii B draw log kind rowKey plaintext =
      (piiPrefix ++ B.encode (draw.sealing plaintext (piiAad kind rowKey)).payload,
        draw.sealing plaintext (piiAad kind rowKey) :: log) := if_neg (not_or.2 ⟨hne, h⟩)

theorem openPii_record (log : List Sealing) (kind rowKey ct : String) :
    openPii B log kind rowKey (piiPrefix ++ ct) =
      (decryptWithAad B log ct (piiAad kind rowKey)).bind fun r => match r with
        | .ok plain => some plain
        | .error _ => some (piiPrefix ++ ct) := by
  rw [openPii, if_pos (isRecord_append ct), String.toList_append, List.drop_left,
    String.ofList_toList]
  rfl

/-- A text that is not empty and has not the prefix of a record is sealed as a record that depends
on its length only, is opened for its own kind and row only, and is sealed again as it is. A text
with the prefix is taken for a record. -/
theorem pii_sealed (B : Base64Lib) (hB : ∀ bs, B.decode (B.encode bs) = some bs) :
    (∀ draw log kind rowKey plaintext, ':' ∉ kind.toList → plaintext ≠ "" → ¬ IsRecord plaintext →
      ∃ record, (∃ ct, record = piiPrefix ++ ct) ∧
        (sealPii B draw log kind rowKey plaintext).1 = record ∧
        (∀ log' kind' rowKey' other, other ≠ "" → ¬ IsRecord other →
          other.toByteArray.size = plaintext.toByteArray.size →
          (sealPii B draw log' kind' rowKey' other).1 = record) ∧
        (∀ later, Reached later → (sealPii B draw log kind rowKey plaintext).2 <:+ later →
          openPii B later kind rowKey record = some plaintext ∧
          ∀ kind' rowKey', ':' ∉ kind'.toList → (kind', rowKey') ≠ (kind, rowKey) →
            openPii B later kind' rowKey' record = some record) ∧
        ∀ draw' log' kind' rowKey', sealPii B draw' log' kind' rowKey' record = (record, log')) ∧
    (∀ draw log kind rowKey text, IsRecord text →
      sealPii B draw log kind rowKey text = (text, log)) ∧
    (∀ log kind rowKey ct, (∀ s ∈ log, s.aad = piiAad kind rowKey ∨ s.aad = ByteArray.empty →
      B.decode ct ≠ some s.payload) →
      openPii B log kind rowKey (piiPrefix ++ ct) = some (piiPrefix ++ ct)) ∧
    (∀ draw log plaintext aad later, Reached later →
      (encryptWithAad B draw log plaintext aad).2 <:+ later →
      decryptWithAad B later (encryptWithAad B draw log plaintext aad).1 aad =
        some (.ok plaintext)) ∧
    ∀ log payload aad, decryptWithAad B log payload aad ≠ none := by
  refine ⟨?_, fun draw log kind rowKey _ => sealPii_record draw log kind rowKey, ?_, ?_, ?_⟩
  · intro draw log kind rowKey plaintext hkind hne htext
    refine ⟨_, ⟨_, rfl⟩, by rw [sealPii_eq draw log kind rowKey hne htext], ?_, ?_, ?_⟩
    · intro log' kind' rowKey' other hother hplain hsize
      rw [sealPii_eq draw log' kind' rowKey' hother hplain]
      show piiPrefix ++ B.encode (Sealing.payload ⟨_, _, _, draw.out other.toByteArray.size⟩) = _
      rw [hsize]
      rfl
    · intro later hlater hsuffix
      rw [sealPii_eq draw log kind rowKey hne htext] at hsuffix
      obtain ⟨hown, hothers⟩ := decryptWithAad_sealing hB draw plaintext (piiAad kind rowKey) hlater
        (hsuffix.subset List.mem_cons_self)
      refine ⟨by rw [openPii_record, hown]; rfl, fun kind' rowKey' hkind' hother => ?_⟩
      rw [openPii_record, hothers _ (piiAad_ne_empty kind rowKey) fun h =>
        hother (piiAad_inj hkind' hkind h)]
      rfl
    · exact fun draw' log' kind' rowKey' => sealPii_record draw' log' kind' rowKey' (isRecord_append _)
  · intro log kind rowKey ct hnone
    obtain ⟨r, hr⟩ := decryptWithAad_total (B := B) log ct (piiAad kind rowKey)
    rw [openPii_record, hr, Option.bind_some]
    cases r with
    | error e => rfl
    | ok plain =>
      obtain ⟨s, hs, haad, hdec, -⟩ := decryptWithAad_ok hr
      exact absurd hdec (hnone s hs haad)
  · intro draw log plaintext aad later hlater hsuffix
    rw [encryptWithAad_eq] at hsuffix ⊢
    exact (decryptWithAad_sealing hB draw plaintext aad hlater
      (hsuffix.subset List.mem_cons_self)).1
  · intro log payload aad hnone
    obtain ⟨r, hr⟩ := decryptWithAad_total (B := B) log payload aad
    rw [hnone] at hr
    cases hr

end

/-! ### Base 64 itself -/

def standardBase64 : Base64Lib where
  encode bs := String.ofList (Base64.encode (bs.map UInt8.toNat))
  decode s := (Base64.decode s.toList).map (List.map UInt8.ofNat)

theorem decode_standardBase64 (bs : List UInt8) :
    standardBase64.decode (standardBase64.encode bs) = some bs := by
  have hlt : ∀ b ∈ bs.map UInt8.toNat, b < 256 := by
    intro b hb
    obtain ⟨x, -, rfl⟩ := List.mem_map.1 hb
    exact x.toNat_lt
  have hround : UInt8.ofNat ∘ UInt8.toNat = id := funext fun b => UInt8.ofNat_toNat
  unfold standardBase64
  dsimp only
  rw [String.toList_ofList, Base64.decode_encode hlt, Option.map_some, List.map_map, hround,
    List.map_id]

def zeroDraw : Draw where
  iv := .replicate 12 0
  out n := List.replicate (n + 16) 0
  length_out _ := List.length_replicate

/-- A text with the prefix of a record is stored in clear. -/
theorem record_in_clear :
    ¬ IsRecord "ann" ∧ sealPii standardBase64 zeroDraw [] "email" "7" "enc:v1:ann" = ("enc:v1:ann", []) ∧
      (sealPii standardBase64 zeroDraw [] "email" "7" "enc:v1:bob").1 ≠
        (sealPii standardBase64 zeroDraw [] "email" "7" "enc:v1:ann").1 := by
  decide +kernel

theorem email_opened : ∃ record,
    (sealPii standardBase64 zeroDraw [] "email" "7" "ann@example.org").1 = record ∧
    openPii standardBase64 (sealPii standardBase64 zeroDraw [] "email" "7" "ann@example.org").2
      "email" "7" record = some "ann@example.org" := by
  obtain ⟨record, -, hrecord, -, hopened, -⟩ := (pii_sealed standardBase64 decode_standardBase64).1
    zeroDraw [] "email" "7" "ann@example.org" (by decide +kernel) (by decide) (by decide +kernel)
  refine ⟨record, hrecord, (hopened _ ?_ List.suffix_rfl).1⟩
  rw [sealPii_eq zeroDraw [] "email" "7" (by decide) (by decide +kernel)]
  exact Reached.nil.encrypt (fun s hs => nomatch hs) _ _

end SatsPay
