import SatsPay.Oauth
import SatsPay.Script

/-!
# Authorization codes are used once

Exchanges, revocations and lookups in any interleaving: the tokens that are issued from a
code, and those that stand after a consent has been revoked.
-/

namespace SatsPay

open Interleave ReadCommitted

abbrev OauthHist := Hist (sig oauthStore)
abbrev OauthDid := Did (sig oauthStore)

/-! ## What a process has in hand -/

/-- The code that it has read last, and whether it has marked it since. -/
structure Exchange where
  code : String
  row : AuthorizationCode
  marked : Bool

def exchangeOf : List OauthDid → Option Exchange
  | [] => none
  | ⟨.pool (.findCode code _), .ok (some row)⟩ :: _ => some ⟨code, row, false⟩
  | ⟨.pool (.findCode _ _), _⟩ :: _ => none
  | ⟨.pool (.markUsed _), .ok _⟩ :: t => (exchangeOf t).map ({ · with marked := true })
  | ⟨.pool (.insertToken _ _), .ok _⟩ :: _ => none
  | _ :: t => exchangeOf t

/-- A code is marked that has been read as unused, and a token is issued from one that has
been marked. -/
def MarksFound (t : List OauthDid) : Op oauthStore → Prop
  | .tx _ => False
  | .pool (.markUsed code) => ∃ x, exchangeOf t = some x ∧ x.code = code ∧ x.marked = false ∧
    x.row.usedAt = none
  | .pool (.insertToken _ _) => ∃ x, exchangeOf t = some x ∧ x.marked = true
  | _ => True

/-! ## What a step does to the tables -/

abbrev Codes := String → Option AuthorizationCode
abbrev AccessTokens := String → Option AccessToken

def OauthDb.tables (db : OauthDb) : Codes × AccessTokens := (db.codes, db.tokens)

def unnoticed : OauthDid → Bool
  | ⟨.pool (.insertCode _ _), .ok _⟩ => false
  | ⟨.pool (.findCode _ _), .ok (some _)⟩ => false
  | ⟨.pool (.markUsed _), .ok _⟩ => false
  | ⟨.pool (.insertToken _ _), .ok _⟩ => false
  | ⟨.pool (.revokeTokens _ _), .ok _⟩ => false
  | _ => true

inductive OauthMove (codes : Codes) (tokens : AccessTokens) :
    OauthDid → Codes → AccessTokens → Prop
  | create {code : String} {row : AuthorizationCode} (hk : codes code = none) :
      OauthMove codes tokens ⟨.pool (.insertCode code row), .ok ()⟩
        (Function.update codes code (some row)) tokens
  | read {code : String} {applicationId : Uuid} {row : AuthorizationCode}
      (hk : codes code = some row) (ha : row.applicationId = applicationId) :
      OauthMove codes tokens ⟨.pool (.findCode code applicationId), .ok (some row)⟩ codes tokens
  | mark {code : String} {now : Timestamp} {codes' : Codes}
      (h : codes' = fun k => if k = code then
        (codes k).map fun c => { c with usedAt := some now } else codes k) :
      OauthMove codes tokens ⟨.pool (.markUsed code), .ok ()⟩ codes' tokens
  | issue {token : String} {row : AccessToken} (hk : tokens token = none) :
      OauthMove codes tokens ⟨.pool (.insertToken token row), .ok ()⟩ codes
        (Function.update tokens token (some row))
  | revoke {userId applicationId : Uuid} {now : Timestamp} :
      OauthMove codes tokens ⟨.pool (.revokeTokens userId applicationId), .ok ()⟩ codes
        fun k => (tokens k).map (.revokeFor userId applicationId now)
  | other {d : OauthDid} (hd : unnoticed d = true) : OauthMove codes tokens d codes tokens

/-- No statement is in a transaction. -/
theorem poolOnly_oauth :
    PoolOnly (S := oauthStore) OauthDb.tables (fun _ => False) fun _ => False where
  see_apply _ _ h := h.elim
  see_tick db db' h := by
    obtain ⟨-, hc, ht, -⟩ := h
    show (db'.codes, db'.tokens) = (db.codes, db.tokens)
    rw [hc, ht]
  spares_eval _ h := h.elim

theorem oauthMove_of_pool {st : OauthStmt} {db : OauthDb} {a : st.Ans} {ws : List OauthWrite}
    (he : .ok (a, ws) ∈ st.eval db) :
    OauthMove db.codes db.tokens ⟨.pool st, .ok a⟩ (applyAll (S := oauthStore) ws db).codes
      (applyAll (S := oauthStore) ws db).tokens := by
  cases st with
  | insertCode code row =>
    simp only [OauthStmt.eval] at he
    split at he
    · simp at he
    · rename_i hn
      cases List.mem_singleton.1 he
      exact .create (Option.not_isSome_iff_eq_none.1 hn)
  | recordConsent userId applicationId scopes =>
    cases List.mem_singleton.1 he
    exact .other rfl
  | findApplication clientId =>
    cases List.mem_singleton.1 he
    exact .other rfl
  | findCode code applicationId =>
    cases List.mem_singleton.1 he
    cases hf : (db.codes code).filter fun c => c.applicationId == applicationId with
    | none => exact .other rfl
    | some row =>
      obtain ⟨hk, ha⟩ := Option.filter_eq_some_iff.1 hf
      exact .read hk (by simpa using ha)
  | markUsed code =>
    cases List.mem_singleton.1 he
    cases hk : db.codes code with
    | none =>
      refine @OauthMove.mark _ _ _ db.now _ (funext fun k => ?_)
      show db.codes k = _
      split
      · rename_i h
        rw [h, hk]
        rfl
      · rfl
    | some c =>
      refine @OauthMove.mark _ _ _ db.now _ (funext fun k => ?_)
      show Function.update db.codes code (some { c with usedAt := some db.now }) k = _
      by_cases h : k = code
      · subst h
        rw [Function.update_self, if_pos rfl, hk]
        rfl
      · rw [Function.update_of_ne h, if_neg h]
  | insertToken token row =>
    simp only [OauthStmt.eval] at he
    split at he
    · simp at he
    · rename_i hn
      cases List.mem_singleton.1 he
      exact .issue (Option.not_isSome_iff_eq_none.1 hn)
  | findToken token =>
    cases List.mem_singleton.1 he
    exact .other rfl
  | deleteConsent userId applicationId =>
    cases List.mem_singleton.1 he
    exact .other rfl
  | revokeTokens userId applicationId =>
    cases List.mem_singleton.1 he
    exact .revoke

theorem oauthMove_of_step {db db' : OauthDb} {d : OauthDid}
    (hs : PoolStep (S := oauthStore) OauthDb.tables db db' d) :
    OauthMove db.codes db.tokens d db'.codes db'.tokens := by
  cases hs with
  | pool he hdb =>
    rw [show db'.codes = _ from congrArg Prod.fst hdb, show db'.tokens = _ from congrArg Prod.snd hdb]
    exact oauthMove_of_pool he
  | other hd hdb =>
    rw [show db'.codes = _ from congrArg Prod.fst hdb, show db'.tokens = _ from congrArg Prod.snd hdb]
    refine .other ?_
    unfold unnoticed
    split <;> first | rfl | exact absurd rfl (hd _ _)

/-! ## What the history says -/

def issuedFrom (h : OauthHist) : Event (sig oauthStore) → Option String
  | .did p (.pool (.insertToken _ _)) (.ok _) => (exchangeOf (doneBy p h)).map Exchange.code
  | _ => none

def issues (code : String) : OauthHist → ℕ
  | [] => 0
  | e :: h => issues code h + if issuedFrom h e = some code then 1 else 0

def issuesToken (token : String) : Event (sig oauthStore) → Prop
  | .did _ (.pool (.insertToken tok _)) (.ok _) => tok = token
  | _ => False

def derives (token code : String) : OauthHist → Prop
  | [] => False
  | e :: h => (issuesToken token e ∧ issuedFrom h e = some code) ∨ derives token code h

def createsCode (code : String) : Event (sig oauthStore) → Prop
  | .did _ (.pool (.insertCode c _)) (.ok _) => c = code
  | _ => False

def revokesConsent (userId applicationId : Uuid) : Event (sig oauthStore) → Prop
  | .did _ (.pool (.revokeTokens u a)) (.ok _) => u = userId ∧ a = applicationId
  | _ => False

def consentRevokedSince (code : String) (userId applicationId : Uuid) : OauthHist → Prop
  | [] => False
  | e :: h => ¬ createsCode code e ∧
    (revokesConsent userId applicationId e ∨ consentRevokedSince code userId applicationId h)

/-- The process has neither crashed nor ended. -/
def Going (p : ℕ) (h : OauthHist) : Prop := .crashed p ∉ h ∧ .ended p ∉ h

def Reading (code : String) (p : ℕ) (h : OauthHist) : Prop :=
  Going p h ∧ ∃ x, exchangeOf (doneBy p h) = some x ∧ x.code = code ∧ x.marked = false ∧
    x.row.usedAt = none

def Marked (code : String) (p : ℕ) (h : OauthHist) : Prop :=
  ∃ x, exchangeOf (doneBy p h) = some x ∧ x.code = code ∧ x.marked = true

/-- A code is read as unused while no other exchange of it is under way, and a token is issued
while the consent stands that its code was created with. -/
def Orderly (c : Conf (machine oauthStore)) (e : Event (sig oauthStore)) : Prop :=
  (∀ p code applicationId row,
    e = .did p (.pool (.findCode code applicationId)) (.ok (some row)) → row.usedAt = none →
      ∀ q, q ≠ p → ¬ Reading code q c.hist) ∧
  ∀ p token r code, e = .did p (.pool (.insertToken token r)) (.ok ()) →
    issuedFrom c.hist e = some code → ¬ consentRevokedSince code r.userId r.applicationId c.hist

/-! ## The invariant -/

/-- A code that is used is not read as unused, and one that is marked yields one token. -/
structure CodeBook (codes : Codes) (h : OauthHist) : Prop where
  known : ∀ code p, Reading code p h → ∃ r, codes code = some r
  spent : ∀ code, (∃ p, Marked code p h) ∨ 0 < issues code h →
    ∃ r, codes code = some r ∧ r.usedAt ≠ none
  silent : ∀ code r, codes code = some r → r.usedAt ≠ none → ∀ p, ¬ Reading code p h
  oneReader : ∀ code p q, Reading code p h → Reading code q h → p = q
  oneMarker : ∀ code p q, Marked code p h → Marked code q h → p = q
  unissued : ∀ code p, Marked code p h → issues code h = 0
  once : ∀ code, issues code h ≤ 1

/-- A token that stands after a revocation comes from a code created since. -/
structure ConsentBook (tokens : AccessTokens) (h : OauthHist) : Prop where
  issued : ∀ token code, derives token code h → (tokens token).isSome
  unique : ∀ token code code', derives token code h → derives token code' h → code = code'
  revoked : ∀ newer e older u a, h = newer ++ e :: older → revokesConsent u a e →
    ∀ token r, tokens token = some r → r.userId = u → r.applicationId = a → r.revokedAt = none →
      ∃ code, derives token code h ∧ ∃ e' ∈ newer, createsCode code e'

/-! ## One step -/

theorem exchangeOf_unnoticed {d : OauthDid} (hd : unnoticed d = true) {t : List OauthDid}
    {x : Exchange} (h : exchangeOf (d :: t) = some x) : exchangeOf t = some x := by
  unfold exchangeOf at h
  split at h
  · cases h
  · rename_i heq
    cases heq
    cases hd
  · cases h
  · rename_i heq
    cases heq
    cases hd
  · cases h
  · rename_i heq
    cases heq
    exact h

section
variable {codes codes' : Codes} {tokens tokens' : AccessTokens} {h h' : OauthHist} {p : ℕ}
  {d : OauthDid}

theorem Going.of_cons {e : Event (sig oauthStore)} (hg : Going p (e :: h)) : Going p h :=
  ⟨fun hm => hg.1 (List.mem_cons_of_mem _ hm), fun hm => hg.2 (List.mem_cons_of_mem _ hm)⟩

theorem Going.did (hg : Going p h) (q : ℕ) : Going p (.did q d.1 d.2 :: h) :=
  ⟨fun hm => hg.1 (by simpa using hm), fun hm => hg.2 (by simpa using hm)⟩

theorem doneBy_did_of_ne {q : ℕ} (hq : q ≠ p) : doneBy q (.did p d.1 d.2 :: h) = doneBy q h :=
  doneBy_of_ne (by simpa using hq.symm) h

theorem Reading.of_ne {code : String} {q : ℕ} (hq : q ≠ p)
    (hr : Reading code q (.did p d.1 d.2 :: h)) : Reading code q h := by
  refine ⟨hr.1.of_cons, ?_⟩
  have := hr.2
  rwa [doneBy_did_of_ne hq] at this

theorem Marked.of_ne {code : String} {q : ℕ} (hq : q ≠ p)
    (hm : Marked code q (.did p d.1 d.2 :: h)) : Marked code q h := by
  unfold Marked at hm
  rwa [doneBy_did_of_ne hq] at hm

/-- Nothing is added to what is going on. -/
theorem CodeBook.less (hb : CodeBook codes h)
    (hR : ∀ code q, Reading code q h' → Reading code q h)
    (hM : ∀ code q, Marked code q h' → Marked code q h)
    (hI : ∀ code, issues code h' = issues code h) : CodeBook codes h' where
  known code q hr := hb.known code q (hR code q hr)
  spent code hs := hb.spent code (hs.imp (fun ⟨q, hq⟩ => ⟨q, hM code q hq⟩) fun h0 => hI code ▸ h0)
  silent code r hk hu q hr := hb.silent code r hk hu q (hR code q hr)
  oneReader code q q' hr hr' := hb.oneReader code q q' (hR _ _ hr) (hR _ _ hr')
  oneMarker code q q' hm hm' := hb.oneMarker code q q' (hM _ _ hm) (hM _ _ hm')
  unissued code q hm := (hI code).trans (hb.unissued code q (hM _ _ hm))
  once code := (hI code).trans_le (hb.once code)

/-- A new code: nobody has read, marked or exchanged it. -/
theorem CodeBook.insert (hb : CodeBook codes h) {code : String} {row : AuthorizationCode}
    (hk : codes code = none) : CodeBook (Function.update codes code (some row)) h := by
  have old : ∀ {k r}, codes k = some r → Function.update codes code (some row) k = some r := by
    intro k r hr
    rw [Function.update_of_ne, hr]
    rintro rfl
    rw [hk] at hr
    cases hr
  refine ⟨fun k q hr => ?_, fun k hs => ?_, fun k r hr hu q hq => ?_, hb.oneReader, hb.oneMarker,
    hb.unissued, hb.once⟩
  · obtain ⟨r, hr⟩ := hb.known k q hr
    exact ⟨r, old hr⟩
  · obtain ⟨r, hr, hu⟩ := hb.spent k hs
    exact ⟨r, old hr, hu⟩
  · obtain ⟨r', hr'⟩ := hb.known k q hq
    have := old hr'
    rw [hr] at this
    cases this
    exact hb.silent k r hr' hu q hq

/-- A step that does not touch the process's exchange. -/
theorem CodeBook.unnoticed (hb : CodeBook codes h)
    (hx : ∀ x, exchangeOf (d :: doneBy p h) = some x → exchangeOf (doneBy p h) = some x)
    (hi : issuedFrom h (.did p d.1 d.2) = none) : CodeBook codes (.did p d.1 d.2 :: h) := by
  refine hb.less (fun code q hr => ?_) (fun code q hm => ?_) fun code => ?_
  · by_cases hq : q = p
    · subst hq
      obtain ⟨hg, x, hx', hrest⟩ := hr
      rw [doneBy_self] at hx'
      exact ⟨hg.of_cons, x, hx x hx', hrest⟩
    · exact hr.of_ne hq
  · by_cases hq : q = p
    · subst hq
      obtain ⟨x, hx', hrest⟩ := hm
      rw [doneBy_self] at hx'
      exact ⟨x, hx x hx', hrest⟩
    · exact hm.of_ne hq
  · show issues code h + _ = _
    rw [hi, if_neg nofun, Nat.add_zero]

theorem CodeBook.read (hb : CodeBook codes h) {code : String} {applicationId : Uuid}
    {row : AuthorizationCode} (hk : codes code = some row)
    (hcond : row.usedAt = none → ∀ q, q ≠ p → ¬ Reading code q h) :
    CodeBook codes (.did p (.pool (.findCode code applicationId)) (.ok (some row)) :: h) := by
  have hself : ∀ {k}, Reading k p (.did p (.pool (.findCode code applicationId)) (.ok (some row)) :: h) →
      k = code ∧ row.usedAt = none := by
    rintro k ⟨-, x, hx, hc, -, hu⟩
    rw [doneBy_self] at hx
    cases hx
    exact ⟨hc.symm, hu⟩
  have hmark : ∀ {k q}, Marked k q (.did p (.pool (.findCode code applicationId)) (.ok (some row)) :: h) →
      Marked k q h := by
    intro k q hm
    by_cases hq : q = p
    · subst hq
      obtain ⟨x, hx, -, hm⟩ := hm
      rw [doneBy_self] at hx
      cases hx
      cases hm
    · exact Marked.of_ne (d := ⟨_, _⟩) hq hm
  refine ⟨fun k q hr => ?_, fun k hs => ?_, fun k r hr hu q hq => ?_, fun k q q' hr hr' => ?_,
    fun k q q' hm hm' => hb.oneMarker k q q' (hmark hm) (hmark hm'),
    fun k q hm => hb.unissued k q (hmark hm), hb.once⟩
  · by_cases hq : q = p
    · subst hq
      rw [(hself hr).1]
      exact ⟨row, hk⟩
    · exact hb.known k q (Reading.of_ne (d := ⟨_, _⟩) hq hr)
  · exact hb.spent k (hs.imp_left fun ⟨q, hq⟩ => ⟨q, hmark hq⟩)
  · by_cases hqp : q = p
    · subst hqp
      obtain ⟨rfl, hnone⟩ := hself hq
      rw [hk] at hr
      cases hr
      exact hu hnone
    · exact hb.silent k r hr hu q (Reading.of_ne (d := ⟨_, _⟩) hqp hq)
  · by_cases hq : q = p <;> by_cases hq' : q' = p
    · rw [hq, hq']
    · subst hq
      obtain ⟨rfl, hnone⟩ := hself hr
      exact absurd (Reading.of_ne (d := ⟨_, _⟩) hq' hr') (hcond hnone q' hq')
    · subst hq'
      obtain ⟨rfl, hnone⟩ := hself hr'
      exact absurd (Reading.of_ne (d := ⟨_, _⟩) hq hr) (hcond hnone q hq)
    · exact hb.oneReader k q q' (Reading.of_ne (d := ⟨_, _⟩) hq hr)
        (Reading.of_ne (d := ⟨_, _⟩) hq' hr')

theorem CodeBook.mark (hb : CodeBook codes h) {code : String} {now : Timestamp}
    (hcodes : codes' = fun k => if k = code then
      (codes k).map fun c => { c with usedAt := some now } else codes k)
    (hread : Reading code p h) :
    CodeBook codes' (.did p (.pool (.markUsed code)) (.ok ()) :: h) := by
  obtain ⟨r, hr⟩ := hb.known code p hread
  have hunused : r.usedAt = none := by
    by_contra hu
    exact hb.silent code r hr hu p hread
  have hfresh : (∀ q, ¬ Marked code q h) ∧ issues code h = 0 := by
    by_contra hc
    obtain ⟨r', hr', hu⟩ := hb.spent code (by
      by_contra hn
      exact hc ⟨fun q hq => hn (.inl ⟨q, hq⟩), Nat.eq_zero_of_not_pos fun h0 => hn (.inr h0)⟩)
    rw [hr] at hr'
    cases hr'
    exact hu hunused
  have hself : codes' code = some { r with usedAt := some now } := by
    rw [hcodes]
    simp [hr]
  have hother : ∀ {k}, k ≠ code → codes' k = codes k := by
    intro k hk
    rw [hcodes]
    simp [hk]
  have hmarking : ∀ {k q}, Marked k q (.did p (.pool (.markUsed code)) (.ok ()) :: h) →
      (q = p ∧ k = code) ∨ Marked k q h ∧ k ≠ code := by
    intro k q hm
    by_cases hq : q = p
    · subst hq
      obtain ⟨x, hx, hcode, -, -⟩ := hread.2
      obtain ⟨x', hx', hcode', -⟩ := hm
      rw [doneBy_self] at hx'
      obtain ⟨y, hy, rfl⟩ := Option.map_eq_some_iff.1
        (show (exchangeOf (doneBy q h)).map _ = some x' from hx')
      rw [hx] at hy
      cases hy
      exact .inl ⟨rfl, hcode'.symm.trans hcode⟩
    · have hold : Marked k q h := Marked.of_ne (d := ⟨_, _⟩) hq hm
      refine .inr ⟨hold, ?_⟩
      rintro rfl
      exact hfresh.1 q hold
  have hreading : ∀ {k q}, Reading k q (.did p (.pool (.markUsed code)) (.ok ()) :: h) →
      Reading k q h ∧ k ≠ code := by
    intro k q hq
    by_cases hqp : q = p
    · subst hqp
      obtain ⟨-, x', hx', -, hm, -⟩ := hq
      rw [doneBy_self] at hx'
      obtain ⟨y, -, rfl⟩ := Option.map_eq_some_iff.1
        (show (exchangeOf (doneBy q h)).map _ = some x' from hx')
      cases hm
    · have hold : Reading k q h := Reading.of_ne (d := ⟨_, _⟩) hqp hq
      refine ⟨hold, ?_⟩
      rintro rfl
      exact hqp (hb.oneReader _ _ _ hold hread)
  refine ⟨fun k q hq => ?_, fun k hs => ?_, fun k r' hk hu q hq => ?_,
    fun k q q' hq hq' => hb.oneReader k q q' (hreading hq).1 (hreading hq').1,
    fun k q q' hm hm' => ?_, fun k q hm => ?_, hb.once⟩
  · obtain ⟨hold, hk⟩ := hreading hq
    rw [hother hk]
    exact hb.known k q hold
  · by_cases hk : k = code
    · subst hk
      exact ⟨_, hself, nofun⟩
    · rw [hother hk]
      refine hb.spent k (hs.imp_left fun ⟨q, hq⟩ => ⟨q, ?_⟩)
      exact ((hmarking hq).resolve_left fun h' => hk h'.2).1
  · obtain ⟨hold, hne⟩ := hreading hq
    rw [hother hne] at hk
    exact hb.silent k r' hk hu q hold
  · rcases hmarking hm with ⟨hq, hk⟩ | ⟨hm, hne⟩ <;>
      rcases hmarking hm' with ⟨hq', hk'⟩ | ⟨hm', hne'⟩
    · exact hq.trans hq'.symm
    · exact absurd hk hne'
    · exact absurd hk' hne
    · exact hb.oneMarker k q q' hm hm'
  · rcases hmarking hm with ⟨rfl, rfl⟩ | ⟨hm, -⟩
    · exact hfresh.2
    · exact hb.unissued k q hm

theorem CodeBook.issue (hb : CodeBook codes h) {token : String} {row : AccessToken} {x : Exchange}
    (hx : exchangeOf (doneBy p h) = some x) (hm : x.marked = true) :
    CodeBook codes (.did p (.pool (.insertToken token row)) (.ok ()) :: h) := by
  have hmarked : Marked x.code p h := ⟨x, hx, rfl, hm⟩
  have hfrom : issuedFrom h (.did p (.pool (.insertToken token row)) (.ok ())) = some x.code := by
    show (exchangeOf (doneBy p h)).map Exchange.code = _
    rw [hx]
    rfl
  have hissues : ∀ k, issues k (.did p (.pool (.insertToken token row)) (.ok ()) :: h) =
      issues k h + if x.code = k then 1 else 0 := by
    intro k
    show issues k h + (if _ = some k then 1 else 0) = _
    rw [hfrom]
    simp only [Option.some.injEq]
  have hmarking : ∀ {k q}, Marked k q (.did p (.pool (.insertToken token row)) (.ok ()) :: h) →
      Marked k q h ∧ k ≠ x.code := by
    intro k q hq
    by_cases hqp : q = p
    · subst hqp
      obtain ⟨y, hy, -⟩ := hq
      rw [doneBy_self] at hy
      cases hy
    · have hold : Marked k q h := Marked.of_ne (d := ⟨_, _⟩) hqp hq
      refine ⟨hold, ?_⟩
      rintro rfl
      exact hqp (hb.oneMarker _ _ _ hold hmarked)
  have hreading : ∀ {k q}, Reading k q (.did p (.pool (.insertToken token row)) (.ok ()) :: h) →
      Reading k q h := by
    intro k q hq
    by_cases hqp : q = p
    · subst hqp
      obtain ⟨-, y, hy, -⟩ := hq
      rw [doneBy_self] at hy
      cases hy
    · exact Reading.of_ne (d := ⟨_, _⟩) hqp hq
  refine ⟨fun k q hq => hb.known k q (hreading hq), fun k hs => ?_,
    fun k r hk hu q hq => hb.silent k r hk hu q (hreading hq),
    fun k q q' hq hq' => hb.oneReader k q q' (hreading hq) (hreading hq'),
    fun k q q' hq hq' => hb.oneMarker k q q' (hmarking hq).1 (hmarking hq').1,
    fun k q hq => ?_, fun k => ?_⟩
  · by_cases hk : x.code = k
    · exact hb.spent k (.inl ⟨p, hk ▸ hmarked⟩)
    · refine hb.spent k (hs.imp (fun ⟨q, hq⟩ => ⟨q, (hmarking hq).1⟩) fun h0 => ?_)
      rwa [hissues, if_neg hk, Nat.add_zero] at h0
  · obtain ⟨hold, hne⟩ := hmarking hq
    rw [hissues, if_neg (Ne.symm hne), Nat.add_zero]
    exact hb.unissued k q hold
  · rw [hissues]
    by_cases hk : x.code = k
    · have := hb.unissued k p (hk ▸ hmarked)
      rw [this, if_pos hk]
    · rw [if_neg hk, Nat.add_zero]
      exact hb.once k

theorem CodeBook.step (hb : CodeBook codes h) (hm : OauthMove codes tokens d codes' tokens')
    (hφ : MarksFound (doneBy p h) d.1) (hgo : Going p h)
    (hcond : ∀ code applicationId row,
      d = ⟨.pool (.findCode code applicationId), .ok (some row)⟩ → row.usedAt = none →
        ∀ q, q ≠ p → ¬ Reading code q h) :
    CodeBook codes' (.did p d.1 d.2 :: h) := by
  cases hm with
  | @create code row hk =>
    have hless : CodeBook codes (.did p (.pool (.insertCode code row)) (.ok ()) :: h) :=
      hb.unnoticed (d := ⟨_, _⟩) (fun _ hx => hx) rfl
    exact hless.insert hk
  | read hk ha => exact hb.read hk (hcond _ _ _ rfl)
  | mark hcodes =>
    obtain ⟨x, hx, hcode, hm, hu⟩ := hφ
    exact hb.mark hcodes ⟨hgo, x, hx, hcode, hm, hu⟩
  | issue hk =>
    obtain ⟨x, hx, hm⟩ := hφ
    exact hb.issue hx hm
  | revoke => exact hb.unnoticed (d := ⟨_, _⟩) (fun _ hx => hx) rfl
  | other hd =>
    refine hb.unnoticed (fun _ hx => exchangeOf_unnoticed hd hx) ?_
    unfold issuedFrom
    split
    · rename_i heq
      obtain ⟨o, r⟩ := d
      cases heq
      cases hd
    · rfl

/-- A code whose consent has not been revoked since was created after each revocation. -/
theorem created_of_not_revokedSince {code : String} {u a : Uuid} {e : Event (sig oauthStore)}
    {older : OauthHist} (he : revokesConsent u a e) :
    ∀ {newer : OauthHist}, ¬ consentRevokedSince code u a (newer ++ e :: older) →
      ∃ e' ∈ newer, createsCode code e'
  | [], hn => by
    refine absurd ⟨fun hc => ?_, .inl he⟩ hn
    unfold revokesConsent at he
    split at he
    · exact hc
    · exact he
  | x :: newer, hn => by
    by_cases hx : createsCode code x
    · exact ⟨x, List.mem_cons_self, hx⟩
    · obtain ⟨e', he', hc⟩ := @created_of_not_revokedSince _ _ _ _ _ he newer fun hr =>
        hn ⟨hx, .inr hr⟩
      exact ⟨e', List.mem_cons_of_mem _ he', hc⟩

theorem not_derives_of_issuedFrom {e : Event (sig oauthStore)} (hi : issuedFrom h e = none)
    {token code : String} : derives token code (e :: h) ↔ derives token code h := by
  show (_ ∧ issuedFrom h e = some code) ∨ _ ↔ _
  rw [hi]
  simp

/-- No token is issued, and those that are revoked are of no one else. -/
theorem ConsentBook.keep (hc : ConsentBook tokens h) {e : Event (sig oauthStore)}
    (hsome : ∀ tok, (tokens tok).isSome → (tokens' tok).isSome)
    (hold : ∀ tok r, tokens' tok = some r → r.revokedAt = none →
      tokens tok = some r ∧ ¬ revokesConsent r.userId r.applicationId e)
    (hi : issuedFrom h e = none) : ConsentBook tokens' (e :: h) where
  issued tok code hd := hsome tok (hc.issued tok code ((not_derives_of_issuedFrom hi).1 hd))
  unique tok code code' hd hd' := hc.unique tok code code' ((not_derives_of_issuedFrom hi).1 hd)
    ((not_derives_of_issuedFrom hi).1 hd')
  revoked newer e' older u a heq he tok r hr hu ha hnone := by
    obtain ⟨hr', hne⟩ := hold tok r hr hnone
    cases newer with
    | nil =>
      cases heq
      exact absurd (hu ▸ ha ▸ he) hne
    | cons x newer =>
      cases heq
      obtain ⟨code, hd, e'', he'', hcr⟩ := hc.revoked newer e' older u a rfl he tok r hr' hu ha hnone
      exact ⟨code, (not_derives_of_issuedFrom hi).2 hd, e'', List.mem_cons_of_mem _ he'', hcr⟩

theorem ConsentBook.issue (hc : ConsentBook tokens h) {token : String} {row : AccessToken}
    (hk : tokens token = none) {x : Exchange} (hx : exchangeOf (doneBy p h) = some x)
    (hcond : ¬ consentRevokedSince x.code row.userId row.applicationId h) :
    ConsentBook (Function.update tokens token (some row))
      (.did p (.pool (.insertToken token row)) (.ok ()) :: h) := by
  have hfrom : issuedFrom h (.did p (.pool (.insertToken token row)) (.ok ())) = some x.code := by
    show (exchangeOf (doneBy p h)).map Exchange.code = _
    rw [hx]
    rfl
  have hderives : ∀ {tok code},
      derives tok code (.did p (.pool (.insertToken token row)) (.ok ()) :: h) ↔
        (tok = token ∧ code = x.code) ∨ derives tok code h := by
    intro tok code
    show ((token = tok ∧ _ = some code) ∨ _) ↔ _
    rw [hfrom, Option.some.injEq, eq_comm, eq_comm (a := x.code)]
  have hnew : ∀ {tok code}, derives tok code h → tok ≠ token := by
    rintro tok code hd rfl
    have := hc.issued _ _ hd
    rw [hk] at this
    cases this
  refine ⟨fun tok code hd => ?_, fun tok code code' hd hd' => ?_, ?_⟩
  · by_cases ht : tok = token
    · subst ht
      rw [Function.update_self]
      rfl
    · rw [Function.update_of_ne ht]
      exact hc.issued tok code ((hderives.1 hd).resolve_left fun h' => ht h'.1)
  · rcases hderives.1 hd with ⟨ht, hcode⟩ | hd <;> rcases hderives.1 hd' with ⟨ht', hcode'⟩ | hd'
    · rw [hcode, hcode']
    · exact absurd ht (hnew hd')
    · exact absurd ht' (hnew hd)
    · exact hc.unique tok code code' hd hd'
  · intro newer e older u a heq he tok r hr hu ha hnone
    cases newer with
    | nil =>
      cases heq
      exact he.elim
    | cons y newer =>
      cases heq
      by_cases ht : tok = token
      · subst ht
        rw [Function.update_self] at hr
        cases hr
        subst hu ha
        obtain ⟨e', he', hcr⟩ := created_of_not_revokedSince he hcond
        exact ⟨x.code, hderives.2 (.inl ⟨rfl, rfl⟩), e', List.mem_cons_of_mem _ he', hcr⟩
      · rw [Function.update_of_ne ht] at hr
        obtain ⟨code, hd, e', he', hcr⟩ := hc.revoked newer e older u a rfl he tok r hr hu ha hnone
        exact ⟨code, hderives.2 (.inr hd), e', List.mem_cons_of_mem _ he', hcr⟩

theorem ConsentBook.revoke (hc : ConsentBook tokens h) {u a : Uuid} {now : Timestamp} :
    ConsentBook (fun k => (tokens k).map (.revokeFor u a now))
      (.did p (.pool (.revokeTokens u a)) (.ok ()) :: h) := by
  refine hc.keep (fun tok ht => by simpa using ht) (fun tok r hr hnone => ?_) rfl
  obtain ⟨t, ht, rfl⟩ := Option.map_eq_some_iff.1 hr
  unfold AccessToken.revokeFor at hnone ⊢
  split at hnone
  · cases hnone
  · rename_i hno
    rw [if_neg hno]
    exact ⟨ht, fun ⟨hu, ha⟩ => hno ⟨hu.symm, ha.symm, hnone⟩⟩

theorem ConsentBook.step (hc : ConsentBook tokens h) (hm : OauthMove codes tokens d codes' tokens')
    (hφ : MarksFound (doneBy p h) d.1)
    (hcond : ∀ token r code, d = ⟨.pool (.insertToken token r), .ok ()⟩ →
      issuedFrom h (.did p d.1 d.2) = some code →
        ¬ consentRevokedSince code r.userId r.applicationId h) :
    ConsentBook tokens' (.did p d.1 d.2 :: h) := by
  cases hm with
  | create hk => exact hc.keep (fun _ ht => ht) (fun _ _ hr _ => ⟨hr, id⟩) rfl
  | read hk ha => exact hc.keep (fun _ ht => ht) (fun _ _ hr _ => ⟨hr, id⟩) rfl
  | mark hcodes => exact hc.keep (fun _ ht => ht) (fun _ _ hr _ => ⟨hr, id⟩) rfl
  | issue hk =>
    obtain ⟨x, hx, -⟩ := hφ
    refine hc.issue hk hx (hcond _ _ _ rfl ?_)
    show (exchangeOf (doneBy p h)).map Exchange.code = _
    rw [hx]
    rfl
  | revoke => exact hc.revoke
  | other hd =>
    obtain ⟨o, r⟩ := d
    refine hc.keep (fun _ ht => ht) (fun _ _ hr _ => ⟨hr, fun he => ?_⟩) ?_
    · unfold revokesConsent at he
      split at he
      · rename_i heq
        cases heq
        cases hd
      · exact he
    · unfold issuedFrom
      split
      · rename_i heq
        cases heq
        cases hd
      · rfl

/-- Nothing is done. -/
theorem CodeBook.idle (hb : CodeBook codes h) {e : Event (sig oauthStore)}
    (he : (∃ q, e = .crashed q ∨ e = .ended q) ∨ e = .ticked) : CodeBook codes (e :: h) := by
  have hdone : ∀ q, doneBy q (e :: h) = doneBy q h := by
    rcases he with ⟨p, rfl | rfl⟩ | rfl <;> exact fun _ => rfl
  have hfrom : issuedFrom h e = none := by rcases he with ⟨p, rfl | rfl⟩ | rfl <;> rfl
  refine hb.less (fun code q hr => ⟨hr.1.of_cons, hdone q ▸ hr.2⟩) (fun code q hm => ?_) fun code => ?_
  · unfold Marked at hm
    rwa [hdone q] at hm
  · show issues code h + _ = _
    rw [hfrom, if_neg nofun, Nat.add_zero]

theorem ConsentBook.idle (hc : ConsentBook tokens h) {e : Event (sig oauthStore)}
    (he : (∃ q, e = .crashed q ∨ e = .ended q) ∨ e = .ticked) : ConsentBook tokens (e :: h) := by
  refine hc.keep (fun _ ht => ht) (fun _ _ hr _ => ⟨hr, ?_⟩) ?_ <;>
    rcases he with ⟨p, rfl | rfl⟩ | rfl <;> first | exact id | rfl

end

/-! ## Programs -/

section
variable (E : OauthEnv)

def oauthRequests (c : Code oauthStore Empty Unit) : Prop :=
  (∃ applicationId userId redirectUri scope state challenge method,
    c = (createAuthorizationCode applicationId userId redirectUri scope state challenge method).spawn) ∨
  (∃ code clientId clientSecret redirectUri codeVerifier,
    c = (exchangeAuthorizationCode E code clientId clientSecret redirectUri codeVerifier).spawn) ∨
  (∃ token, c = (getUserByOauthToken token).spawn) ∨
  ∃ userId applicationId, c = (revokeUserConsent userId applicationId).spawn

/-- What a token is issued after: the application is authenticated, and the code was read as its
own, unused and not expired, with this redirect URI and a challenge that the verifier meets. -/
def Justified (code clientId clientSecret redirectUri : String) (codeVerifier : Option String)
    (t : List OauthDid) : Op oauthStore → Prop
  | .pool (.insertToken _ r) => ∃ app row now,
    ⟨.pool (.findApplication clientId), .ok (some app)⟩ ∈ t ∧ app.isActive = true ∧
    E.verifyHmacHex clientSecret app.clientSecretHash = true ∧
    ⟨.pool (.findCode code app.id), .ok (some row)⟩ ∈ t ∧ ⟨.call .utcNow, now⟩ ∈ t ∧
    row.usedAt = none ∧ now ≤ row.expiresAt ∧ row.redirectUri = redirectUri ∧
    (∃ challenge verifier, row.codeChallenge = some challenge ∧ codeVerifier = some verifier ∧
      row.codeChallengeMethod.getD "S256" = "S256" ∧
      verifyPkceS256 E (trimmed verifier) challenge = true) ∧
    r.applicationId = app.id ∧ r.userId = row.userId
  | _ => True

end

section
variable {E : OauthEnv}

theorem checkClient_ok {found : Option OauthApplication} {clientSecret : String}
    {app : OauthApplication} (h : checkClient E found clientSecret = .ok app) :
    found = some app ∧ app.isActive = true ∧
      E.verifyHmacHex clientSecret app.clientSecretHash = true := by
  unfold checkClient at h
  split at h
  · cases h
  split at h
  · cases h
  split at h
  · cases h
  · cases h
    exact ⟨rfl, by simp_all, by simp_all⟩

theorem checkPkce_ok {row : AuthorizationCode} {codeVerifier : Option String}
    (h : checkPkce E row codeVerifier = .ok ()) :
    ∃ challenge verifier, row.codeChallenge = some challenge ∧ codeVerifier = some verifier ∧
      row.codeChallengeMethod.getD "S256" = "S256" ∧
      verifyPkceS256 E (trimmed verifier) challenge = true := by
  unfold checkPkce at h
  split at h
  · cases h
  rename_i challenge hc
  split at h
  · cases h
  rename_i verifier hv
  split at h
  · cases h
  rename_i hm
  split at h
  · cases h
  rename_i hok
  obtain ⟨hc, -⟩ := Option.filter_eq_some_iff.1 hc
  obtain ⟨hv, -⟩ := Option.filter_eq_some_iff.1 hv
  obtain ⟨v, rfl, rfl⟩ := Option.map_eq_some_iff.1 hv
  exact ⟨challenge, v, hc, rfl, not_not.1 hm, by simpa using hok⟩

theorem checkCode_ok {row : AuthorizationCode} {now : Timestamp} {redirectUri : String}
    {codeVerifier : Option String} (h : checkCode E row now redirectUri codeVerifier = .ok ()) :
    row.usedAt = none ∧ now ≤ row.expiresAt ∧ row.redirectUri = redirectUri ∧
      checkPkce E row codeVerifier = .ok () := by
  unfold checkCode at h
  split at h
  · cases h
  rename_i hfresh
  split at h
  · cases h
  rename_i huri
  obtain ⟨hu, he⟩ := not_or.1 hfresh
  exact ⟨by simpa using hu, not_lt.1 he, not_not.1 huri, h⟩

theorem heeds_issueToken {φ : List OauthDid → Op oauthStore → Prop} {code : String}
    {applicationId : Uuid} {row : AuthorizationCode} {t : List OauthDid}
    (hmark : φ t (.pool (.markUsed code))) (hcall : ∀ t c, φ t (.call c))
    (hins : ∀ random now token r, r.applicationId = applicationId → r.userId = row.userId →
      φ (⟨.call .utcNow, now⟩ :: ⟨.call (.randomToken 24), random⟩ ::
        ⟨.pool (.markUsed code), .ok ()⟩ :: t) (.pool (.insertToken token r))) :
    (issueToken code applicationId row).Heeds φ t := by
  refine ⟨hmark, fun r => ?_⟩
  rcases r with e | ⟨⟩
  · trivial
  refine ⟨hcall _ _, fun random => ⟨hcall _ _, fun now => ⟨hins _ _ _ _ rfl rfl, fun r => ?_⟩⟩⟩
  cases r <;> trivial

theorem free_exchange_marksFound {code clientId clientSecret redirectUri : String}
    {codeVerifier : Option String} :
    (exchangeAuthorizationCode E code clientId clientSecret redirectUri codeVerifier).Free
      MarksFound := by
  intro t
  refine ⟨trivial, fun r => ?_⟩
  rcases r with e | found
  · trivial
  dsimp only [oauthPool, poolQuery, orThrow, Prog.bind_eq, Prog.op_bind, Prog.ret_bind]
  split
  · trivial
  refine ⟨trivial, fun r => ?_⟩
  rcases r with e | _ | row
  · trivial
  · trivial
  refine ⟨trivial, fun now => ?_⟩
  dsimp only [oauthCall, invoke, orThrow, Prog.bind_eq, Prog.op_bind, Prog.ret_bind]
  split
  · trivial
  rename_i hok
  exact heeds_issueToken ⟨_, rfl, rfl, rfl, (checkCode_ok hok).1⟩ (fun _ _ => trivial)
    fun _ _ _ _ _ _ => ⟨⟨code, row, true⟩, rfl, rfl⟩

/-- Whatever the store answers. -/
theorem free_exchange_justified {code clientId clientSecret redirectUri : String}
    {codeVerifier : Option String} :
    (exchangeAuthorizationCode E code clientId clientSecret redirectUri codeVerifier).Free
      (Justified E code clientId clientSecret redirectUri codeVerifier) := by
  intro t
  refine ⟨trivial, fun r => ?_⟩
  rcases r with e | found
  · trivial
  dsimp only [oauthPool, poolQuery, orThrow, Prog.bind_eq, Prog.op_bind, Prog.ret_bind]
  split
  · trivial
  rename_i app happ
  obtain ⟨rfl, hactive, hsecret⟩ := checkClient_ok happ
  refine ⟨trivial, fun r => ?_⟩
  rcases r with e | _ | row
  · trivial
  · trivial
  refine ⟨trivial, fun now => ?_⟩
  dsimp only [oauthCall, invoke, orThrow, Prog.bind_eq, Prog.op_bind, Prog.ret_bind]
  split
  · trivial
  rename_i hok
  obtain ⟨hunused, hexpiry, huri, hpkce⟩ := checkCode_ok hok
  refine heeds_issueToken trivial (fun _ _ => trivial) fun random issued token r ha hu => ?_
  exact ⟨app, row, now, by simp, hactive, hsecret, by simp, by simp, hunused, hexpiry, huri,
    checkPkce_ok hpkce, ha, hu⟩

theorem free_oauthRequests (c : Code oauthStore Empty Unit) (h : oauthRequests E c) :
    c.Free MarksFound := by
  have pool : ∀ {st : OauthStmt}, (∀ t, MarksFound t (.pool st)) → (oauthPool st).Free MarksFound :=
    fun h => free_poolQuery h
  have call : ∀ {cl : OauthCall}, (oauthCall cl).Free MarksFound := free_invoke fun _ => trivial
  rcases h with ⟨a, u, uri, scope, state, challenge, method, rfl⟩ |
    ⟨code, clientId, clientSecret, redirectUri, codeVerifier, rfl⟩ | ⟨token, rfl⟩ | ⟨u, a, rfl⟩
  · exact .spawn (call.bind fun _ => call.bind fun _ => (pool (by intro _; trivial)).bind fun _ =>
      (pool (by intro _; trivial)).bind fun _ => .ret _)
  · exact .spawn free_exchange_marksFound
  · refine .spawn ((pool (by intro _; trivial)).bind fun found => ?_)
    cases found with
    | none => exact .throw _
    | some row =>
      refine call.bind fun now => ?_
      split
      · exact .ret _
      · exact .throw _
  · exact .spawn ((pool (by intro _; trivial)).bind fun _ => pool (by intro _; trivial))

end

/-! ## Runs -/

/-- One token at most from a code, which was read as one of the application that asked; and after
a revocation what stands of the user and application comes from codes created since. -/
structure CodesUsedOnce (w : World (machine oauthStore)) : Prop where
  once : ∀ code, issues code w.conf.hist ≤ 1
  owned : ∀ p code applicationId row,
    .did p (.pool (.findCode code applicationId)) (.ok (some row)) ∈ w.conf.hist →
      row.applicationId = applicationId
  unique : ∀ token code code', derives token code w.conf.hist → derives token code' w.conf.hist →
    code = code'
  revoked : ∀ newer e older u a, w.conf.hist = newer ++ e :: older → revokesConsent u a e →
    ∀ token r, w.conf.s.db.tokens token = some r → r.userId = u → r.applicationId = a →
      ∀ row now, w.conf.s.db.tokenUser token = some row → row.stands now →
        ∃ code, derives token code w.conf.hist ∧ ∃ e' ∈ newer, createsCode code e'

theorem OauthMove.owned {codes codes' : Codes} {tokens tokens' : AccessTokens} {d : OauthDid}
    (hm : OauthMove codes tokens d codes' tokens') {code : String} {applicationId : Uuid}
    {row : AuthorizationCode} (hd : d = ⟨.pool (.findCode code applicationId), .ok (some row)⟩) :
    row.applicationId = applicationId := by
  cases hm with
  | read hk ha =>
    cases hd
    exact ha
  | other hu =>
    subst hd
    cases hu
  | _ => cases hd

theorem revokedAt_of_tokenUser {db : OauthDb} {token : String} {r : AccessToken}
    {row : TokenUserRow} (hr : db.tokens token = some r) (h : db.tokenUser token = some row) :
    row.revokedAt = r.revokedAt := by
  unfold OauthDb.tokenUser at h
  rw [hr, Option.bind_some] at h
  obtain ⟨u, -, rfl⟩ := Option.map_eq_some_iff.1 h
  rfl

/-- A token is issued to the application that a code was created for, with the redirect URI and
the challenge that are stored, before it expires; and in a run whose steps are orderly once, and
not after the consent has been revoked. -/
theorem codesUsedOnce_of_run {E : OauthEnv} {db : OauthDb} {w : World (machine oauthStore)}
    (hs : Run (oauthRequests E) Orderly db w) :
    (∀ code clientId clientSecret redirectUri codeVerifier,
      (exchangeAuthorizationCode E code clientId clientSecret redirectUri codeVerifier).Free
        (Justified E code clientId clientSecret redirectUri codeVerifier)) ∧
      CodesUsedOnce w := by
  let I : World (machine oauthStore) → Prop := fun w =>
    CodeBook w.conf.s.db.codes w.conf.hist ∧ ConsentBook w.conf.s.db.tokens w.conf.hist ∧
      ∀ p code applicationId row,
        .did p (.pool (.findCode code applicationId)) (.ok (some row)) ∈ w.conf.hist →
          row.applicationId = applicationId
  have hinit : I (.init (machine oauthStore) (.start db)) := by
    refine ⟨⟨?_, ?_, ?_, ?_, ?_, ?_, ?_⟩, ⟨?_, ?_, ?_⟩, ?_⟩
    · rintro code p ⟨-, x, hx, -⟩
      cases hx
    · rintro code (⟨p, x, hx, -⟩ | h0)
      · cases hx
      · cases h0
    · rintro code r - - p ⟨-, x, hx, -⟩
      cases hx
    · rintro code p q ⟨-, x, hx, -⟩
      cases hx
    · rintro code p q ⟨x, hx, -⟩
      cases hx
    · rintro code p ⟨x, hx, -⟩
      cases hx
    · exact fun code => Nat.zero_le _
    · exact fun _ _ h => h.elim
    · exact fun _ _ _ h => h.elim
    · intro newer e older u a heq
      cases newer <;> cases heq
    · exact fun _ _ _ _ h => (nomatch h)
  have hstep : ∀ w w', PoolWorld MarksFound (fun _ => False) w → I w →
      PoolMove OauthDb.tables MarksFound Orderly w w' → I w' := by
    rintro w w' - ⟨hcodes, htokens, howned⟩ hm
    cases hm with
    | start hconf hp =>
      unfold I
      rw [hconf]
      exact ⟨hcodes, htokens, howned⟩
    | act p d hφ hs hcond hh hlive hc hp =>
      have hmove := oauthMove_of_step hs
      obtain ⟨o, r⟩ := d
      unfold I
      rw [hh]
      refine ⟨hcodes.step hmove hφ hlive fun code app row hd => ?_,
        htokens.step hmove hφ fun token r code hd hfrom => ?_, fun q code app row hmem => ?_⟩
      · cases hd
        exact hcond.1 p code app row rfl
      · cases hd
        exact hcond.2 p token r code rfl hfrom
      · rcases List.mem_cons.1 hmem with heq | hmem
        · cases heq
          exact hmove.owned rfl
        · exact howned q code app row hmem
    | stop p e he hcond hdb hh hp =>
      unfold I
      rw [hh, show w'.conf.s.db.codes = _ from congrArg Prod.fst hdb,
        show w'.conf.s.db.tokens = _ from congrArg Prod.snd hdb]
      refine ⟨hcodes.idle (.inl ⟨p, he⟩), htokens.idle (.inl ⟨p, he⟩), fun q code app row hmem => ?_⟩
      rcases List.mem_cons.1 hmem with heq | hmem
      · rcases he with rfl | rfl <;> cases heq
      · exact howned q code app row hmem
    | tick hdb hcond hh hp =>
      unfold I
      rw [hh, show w'.conf.s.db.codes = _ from congrArg Prod.fst hdb,
        show w'.conf.s.db.tokens = _ from congrArg Prod.snd hdb]
      refine ⟨hcodes.idle (.inr rfl), htokens.idle (.inr rfl), fun q code app row hmem => ?_⟩
      rcases List.mem_cons.1 hmem with heq | hmem
      · cases heq
      · exact howned q code app row hmem
  obtain ⟨-, hcodes, htokens, howned⟩ := poolOnly_oauth.run (I := I) (fun _ _ h => h)
    free_oauthRequests hinit hstep hs
  refine ⟨fun _ _ _ _ _ => free_exchange_justified, hcodes.once, howned, htokens.unique, ?_⟩
  intro newer e older u a heq he token r hr hu ha row now hrow hstands
  exact htokens.revoked newer e older u a heq he token r hr hu ha
    ((revokedAt_of_tokenUser hr hrow).symm.trans hstands.1)

/-! ### A code of one application -/

def plainOauth : OauthEnv := ⟨fun secret hash => secret == hash, id⟩

def longVerifier : String := "abcdefghijklmnopqrstuvwxyzabcdefghijklmnopqrstuvwxyz"

def oneCode : OauthDb where
  now := 0
  applications clientId := if clientId = "shop" then some ⟨1, "secret", true⟩ else none
  users _ := none
  codes code := if code = "code" then
    some ⟨1, 5, "https://shop", "openid", none, seconds 600, none, some longVerifier, none⟩ else none
  tokens _ := none
  consents _ _ := none

def shopExchange (code : String) : Code oauthStore Empty Unit :=
  (exchangeAuthorizationCode plainOauth code "shop" "secret" "https://shop"
    (some longVerifier)).spawn

def shopCode : Code oauthStore Empty Unit :=
  (createAuthorizationCode 1 5 "https://shop" "openid" none (some longVerifier) none).spawn

def shopProgs : List (Code oauthStore Empty Unit) :=
  [shopExchange "code", shopCode, shopExchange "sats_code_b", (revokeUserConsent 5 1).spawn]

theorem oauthRequests_of_shop : ∀ c ∈ shopProgs, oauthRequests plainOauth c := by
  intro c hc
  simp only [shopProgs, List.mem_cons, List.not_mem_nil, or_false] at hc
  rcases hc with rfl | rfl | rfl | rfl
  · exact .inr (.inl ⟨_, _, _, _, _, rfl⟩)
  · exact .inl ⟨_, _, _, _, _, _, _, rfl⟩
  · exact .inr (.inl ⟨_, _, _, _, _, rfl⟩)
  · exact .inr (.inr (.inr ⟨_, _, rfl⟩))

def oauthAnswers (random : String) : (c : OauthCall) → OauthCall.Reply c
  | .utcNow => 0
  | .randomToken _ => random

def findsUnused (code : String) : Event (sig oauthStore) → Bool
  | .did _ (.pool (.findCode c _)) (.ok (some row)) => c == code && row.usedAt.isNone
  | _ => false

theorem findCode_mem_of_exchangeOf {x : Exchange} (t : List OauthDid) (h : exchangeOf t = some x) :
    ∃ a, (⟨.pool (.findCode x.code a), .ok (some x.row)⟩ : OauthDid) ∈ t := by
  fun_induction exchangeOf t generalizing x with
  | case2 code a row t =>
    cases h
    exact ⟨a, List.mem_cons_self⟩
  | case4 code a t ih =>
    obtain ⟨y, hy, rfl⟩ := Option.map_eq_some_iff.1 h
    obtain ⟨a, hm⟩ := ih hy
    exact ⟨a, List.mem_cons_of_mem _ hm⟩
  | case1 | case3 | case5 => cases h
  | case6 d t h₁ h₂ h₃ h₄ ih =>
    obtain ⟨a, hm⟩ := ih h
    exact ⟨a, List.mem_cons_of_mem _ hm⟩

theorem findsUnused_of_reading {code : String} {p : ℕ} {h : OauthHist} (hr : Reading code p h) :
    h.any (findsUnused code) = true := by
  obtain ⟨-, x, hx, rfl, -, hused⟩ := hr
  obtain ⟨a, hm⟩ := findCode_mem_of_exchangeOf _ hx
  refine List.any_eq_true.2 ⟨_, did_of_mem_doneBy hm, ?_⟩
  simp [findsUnused, hused]

instance (code : String) : DecidablePred (createsCode code) := fun e => by
  unfold createsCode
  split <;> infer_instance

instance (userId applicationId : Uuid) : DecidablePred (revokesConsent userId applicationId) :=
  fun e => by
    unfold revokesConsent
    split <;> infer_instance

instance decRevokedSince (code : String) (userId applicationId : Uuid) : (h : OauthHist) →
    Decidable (consentRevokedSince code userId applicationId h)
  | [] => inferInstanceAs (Decidable False)
  | e :: h =>
    have := decRevokedSince code userId applicationId h
    inferInstanceAs (Decidable (¬ createsCode code e ∧
      (revokesConsent userId applicationId e ∨ consentRevokedSince code userId applicationId h)))

def codeRunner : Runner oauthStore where
  bound := 6
  progs := shopProgs
  tick _ db := db
  allow c e := match e with
    | .did _ (.pool (.findCode code _)) (.ok (some row)) =>
      row.usedAt.isSome || !c.hist.any (findsUnused code)
    | .did _ (.pool (.insertToken _ r)) (.ok _) => (issuedFrom c.hist e).all fun code =>
      !decide (consentRevokedSince code r.userId r.applicationId c.hist)
    | _ => true

theorem tick_codeRunner (n : ℕ) (db : OauthDb) : oauthStore.tick db (codeRunner.tick n db) :=
  ⟨le_refl _, rfl, rfl, rfl⟩

theorem orderly_of_allow (c : Conf (machine oauthStore)) (e : Event (sig oauthStore))
    (h : codeRunner.allow c e = true) : Orderly c e := by
  refine ⟨?_, ?_⟩
  · rintro p code a row rfl hused q - hr
    have hany : (row.usedAt.isSome || !c.hist.any (findsUnused code)) = true := h
    rw [hused, findsUnused_of_reading hr] at hany
    cases hany
  · rintro p token r code rfl hfrom hs
    have hall : ((issuedFrom c.hist (.did p (.pool (.insertToken token r)) (.ok ()))).all fun code =>
      !decide (consentRevokedSince code r.userId r.applicationId c.hist)) = true := h
    rw [hfrom] at hall
    have hnot : (!decide (consentRevokedSince code r.userId r.applicationId c.hist)) = true := hall
    rw [decide_eq_true hs] at hnot
    cases hnot

def shopStart : OauthDb :=
  { oneCode with users := fun id => if id = 5 then some ⟨"ana", "ana@example.org", 0⟩ else none }

def presentCode (p : ℕ) (random : String) : List (Act oauthStore) :=
  proceed p 2 ++ [.op p (.answer (oauthAnswers random))]

def takeToken (p : ℕ) (random : String) : List (Act oauthStore) :=
  proceed p 1 ++ [.op p (.answer (oauthAnswers random)), .op p (.answer (oauthAnswers random))] ++
    proceed p 1

/-- A code is exchanged, presented again and refused, and the consent is revoked. Then another
code is created and exchanged. -/
def shopScript : List (Act oauthStore) :=
  [.start 0 0] ++ presentCode 0 "a" ++ takeToken 0 "a" ++ [.finish 0, .start 1 0] ++
    presentCode 1 "b" ++ [.finish 1, .start 2 3] ++ proceed 2 2 ++ [.finish 2, .start 3 1,
    .op 3 (.answer (oauthAnswers "b")), .op 3 (.answer (oauthAnswers "b"))] ++ proceed 3 2 ++
    [.finish 3, .start 4 2] ++ presentCode 4 "b" ++ takeToken 4 "b" ++ [.finish 4]

def isRevoked (db : OauthDb) (token : String) : Option Bool :=
  (db.tokens token).map fun r => r.revokedAt.isSome

theorem codesUsedOnce_shop : ∃ w, Run (oauthRequests plainOauth) Orderly shopStart w ∧
    issues "code" w.conf.hist = 1 ∧ issues "sats_code_b" w.conf.hist = 1 ∧
    isRevoked w.conf.s.db "sats_tok_a" = some true ∧
    isRevoked w.conf.s.db "sats_tok_b" = some false ∧ CodesUsedOnce w := by
  have hrun : (codeRunner.run shopScript (.init _ (.start shopStart))).map (fun w =>
      (issues "code" w.conf.hist, issues "sats_code_b" w.conf.hist,
        isRevoked w.conf.s.db "sats_tok_a", isRevoked w.conf.s.db "sats_tok_b")) =
      some (1, 1, some true, some false) := by
    decide +kernel
  obtain ⟨w, hw, hi⟩ := Option.map_eq_some_iff.1 hrun
  obtain ⟨h₁, h₂, h₃, h₄⟩ := by simpa only [Prod.mk.injEq] using hi
  have steps : Run (oauthRequests plainOauth) Orderly shopStart w :=
    Runner.steps_of_run (R := codeRunner) oauthRequests_of_shop tick_codeRunner orderly_of_allow
      (fun _ _ => rfl) hw
  exact ⟨w, steps, h₁, h₂, h₃, h₄, (codesUsedOnce_of_run steps).2⟩

def anyCodeRunner : Runner oauthStore := { codeRunner with allow := fun _ _ => true }

/-- Two exchanges read the code before either has marked it, and each gets a token. -/
theorem code_used_twice : ¬ ∀ w, Run (oauthRequests plainOauth) (anyStep _) oneCode w →
    CodesUsedOnce w := by
  intro hall
  have hrun : (anyCodeRunner.run ([.start 0 0, .start 1 0] ++ presentCode 0 "a" ++
      presentCode 1 "b" ++ takeToken 0 "a" ++ takeToken 1 "b")
      (.init _ (.start oneCode))).map (fun w => issues "code" w.conf.hist) = some 2 := by
    decide +kernel
  obtain ⟨w, hw, hi⟩ := Option.map_eq_some_iff.1 hrun
  have steps : Run (oauthRequests plainOauth) (anyStep _) oneCode w :=
    Runner.steps_of_run (R := anyCodeRunner) oauthRequests_of_shop tick_codeRunner
      (fun _ _ _ => trivial) (fun _ _ => rfl) hw
  have hle := (hall w steps).once "code"
  rw [hi] at hle
  exact absurd hle (by decide)

end SatsPay
