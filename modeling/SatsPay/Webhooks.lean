import SatsPay.IpAddresses

/-!
# Webhook egress

Where `dispatch_invoice_webhook` may send a merchant's webhook. The callback is
checked as text and by one resolution of its host; the client that posts resolves
the host again. URL parsing, the resolver and the connection are parameters.
-/

namespace SatsPay

/-! ## The blocked ranges -/

def blockedV4 : List Cidr :=
  [Ipv4Addr.block 127 0 0 0 8, Ipv4Addr.block 10 0 0 0 8, Ipv4Addr.block 172 16 0 0 12,
    Ipv4Addr.block 192 168 0 0 16, Ipv4Addr.block 169 254 0 0 16,
    Ipv4Addr.block 255 255 255 255 32, Ipv4Addr.block 192 0 2 0 24,
    Ipv4Addr.block 198 51 100 0 24, Ipv4Addr.block 203 0 113 0 24, Ipv4Addr.block 224 0 0 0 4,
    Ipv4Addr.block 0 0 0 0 32, Ipv4Addr.block 100 64 0 0 10, Ipv4Addr.block 0 0 0 0 8,
    Ipv4Addr.block 192 0 0 0 24]

def BlockedV4 (n : ℕ) : Prop := ∃ c ∈ blockedV4, c.Has n

/-- `::1`, `::`, multicast, unique local and link local. -/
def blockedV6 : List Cidr :=
  [⟨1, 0⟩, ⟨0, 0⟩, Ipv6Addr.block 0xff00 8, Ipv6Addr.block 0xfc00 7, Ipv6Addr.block 0xfe80 10]

/-- IPv6 addresses that carry an IPv4 address, and where in them it stands. -/
structure Embedding where
  block : Cidr
  low : ℕ
  deriving DecidableEq, Repr

def Embedding.inner (e : Embedding) (n : ℕ) : ℕ := n / 2 ^ e.low % 2 ^ 32

def mapped : Embedding := ⟨⟨0xffff * 2 ^ 32, 32⟩, 0⟩

/-- `::/96`, `2002::/16`, `64:ff9b::/96` and `64:ff9b:1::/48`: IPv4-compatible, 6to4, NAT64 and
its block for local use. -/
def tunnels : List Embedding :=
  [⟨⟨0, 32⟩, 0⟩, ⟨Ipv6Addr.block 0x2002 16, 80⟩, ⟨⟨0x64ff9b * 2 ^ 96, 32⟩, 0⟩,
    ⟨⟨0x64ff9b0001 * 2 ^ 80, 80⟩, 0⟩]

def Embedding.Carries (e : Embedding) (n : ℕ) : Prop := e.block.Has n ∧ BlockedV4 (e.inner n)

instance (n : ℕ) : Decidable (BlockedV4 n) := inferInstanceAs (Decidable (∃ c ∈ blockedV4, _))

instance (e : Embedding) (n : ℕ) : Decidable (e.Carries n) :=
  inferInstanceAs (Decidable (_ ∧ _))

/-- The address is in a blocked range, itself or by the IPv4 address it carries. -/
def IpAddr.Forbidden : IpAddr → Prop
  | .v4 b => BlockedV4 b.toNat
  | .v6 b => (∃ c ∈ blockedV6, c.Has b.toNat) ∨ ∃ e ∈ mapped :: tunnels, e.Carries b.toNat

/-- The address carries a blocked IPv4 address in a form other than the mapped one. -/
def IpAddr.Tunnelled : IpAddr → Prop
  | .v4 _ => False
  | .v6 b => ∃ e ∈ tunnels, e.Carries b.toNat

instance : DecidablePred IpAddr.Forbidden
  | .v4 b => inferInstanceAs (Decidable (BlockedV4 b.toNat))
  | .v6 _ => inferInstanceAs (Decidable (_ ∨ _))

instance : DecidablePred IpAddr.Tunnelled
  | .v4 _ => inferInstanceAs (Decidable False)
  | .v6 _ => inferInstanceAs (Decidable (∃ e ∈ tunnels, _))

/-! ## `is_blocked_ip` -/

def isBlockedV4 (b : BitVec 32) : Bool :=
  Ipv4Addr.isLoopback b
    || Ipv4Addr.isPrivate b
    || Ipv4Addr.isLinkLocal b
    || Ipv4Addr.isBroadcast b
    || Ipv4Addr.isDocumentation b
    || Ipv4Addr.isMulticast b
    || Ipv4Addr.isUnspecified b
    -- 100.64.0.0/10 carrier-grade NAT
    || (Ipv4Addr.octet b 0 == 100 && (64 ≤ Ipv4Addr.octet b 1 && Ipv4Addr.octet b 1 < 128))
    -- 0.0.0.0/8 "this network"
    || Ipv4Addr.octet b 0 == 0
    -- 192.0.0.0/24 IETF protocol assignments
    || (Ipv4Addr.octet b 0 == 192 && Ipv4Addr.octet b 1 == 0 && Ipv4Addr.octet b 2 == 0)

def isBlockedIp : IpAddr → Bool
  | .v4 b => isBlockedV4 b
  | .v6 b =>
    Ipv6Addr.isLoopback b
      || Ipv6Addr.isUnspecified b
      || Ipv6Addr.isMulticast b
      -- fc00::/7 unique local
      || Ipv6Addr.segment b 0 &&& 0xfe00 == 0xfc00
      -- fe80::/10 link local
      || Ipv6Addr.segment b 0 &&& 0xffc0 == 0xfe80
      -- IPv4-mapped is judged by the embedded address
      || ((Ipv6Addr.toIpv4Mapped b).map isBlockedV4).getD false

theorem isBlockedV4_iff (b : BitVec 32) : isBlockedV4 b = true ↔ BlockedV4 b.toNat := by
  simp only [isBlockedV4, Ipv4Addr.isLoopback, Ipv4Addr.isPrivate, Ipv4Addr.isLinkLocal,
    Ipv4Addr.isBroadcast, Ipv4Addr.isDocumentation, Ipv4Addr.isMulticast,
    Ipv4Addr.isUnspecified, Bool.or_eq_true, Bool.and_eq_true, beq_iff_eq, decide_eq_true_eq,
    or_assoc, and_assoc]
  simp only [BlockedV4, blockedV4, List.mem_cons, List.not_mem_nil, or_false,
    exists_eq_or_imp, exists_eq_left, Ipv4Addr.has_slash8, Ipv4Addr.has_slash16,
    Ipv4Addr.has_slash24, Ipv4Addr.has_slash32, Ipv4Addr.has_private12, Ipv4Addr.has_shared10,
    Ipv4Addr.has_multicast4, Nat.reduceLT]

theorem mapped_carries_iff (b : BitVec 128) :
    ((Ipv6Addr.toIpv4Mapped b).map isBlockedV4).getD false = true ↔ mapped.Carries b.toNat := by
  have hhas : mapped.block.Has b.toNat ↔ b.toNat / 2 ^ 32 = 0xffff := by
    simp [mapped, Cidr.Has]
  have hinner : mapped.inner b.toNat = b.toNat % 2 ^ 32 := by
    simp [mapped, Embedding.inner]
  rw [Embedding.Carries, hhas, hinner]
  cases hm : Ipv6Addr.toIpv4Mapped b with
  | none =>
    have hn : b.toNat / 2 ^ 32 ≠ 0xffff := by
      intro hc
      have hs := (Ipv6Addr.toIpv4Mapped_eq_some (b := b)
        (a := BitVec.ofNat 32 b.toNat)).mpr ⟨hc, (BitVec.toNat_ofNat _ _).symm⟩
      rw [hm] at hs
      cases hs
    exact ⟨by simp, fun h => absurd h.1 hn⟩
  | some a =>
    obtain ⟨hc, ha⟩ := Ipv6Addr.toIpv4Mapped_eq_some.mp hm
    rw [ha, and_iff_right hc]
    exact isBlockedV4_iff a

theorem isBlockedIp_v6_iff (b : BitVec 128) :
    isBlockedIp (.v6 b) = true ↔ (∃ c ∈ blockedV6, c.Has b.toNat) ∨ mapped.Carries b.toNat := by
  have hmulti : (Ipv6Addr.segment b 0 &&& 0xff00 == 0xff00) = true ↔
      (Ipv6Addr.block 0xff00 8).Has b.toNat := Ipv6Addr.masked_iff_has b 0xff 8 8 rfl
  have hlocal : (Ipv6Addr.segment b 0 &&& 0xfe00 == 0xfc00) = true ↔
      (Ipv6Addr.block 0xfc00 7).Has b.toNat := Ipv6Addr.masked_iff_has b 0x7e 7 9 rfl
  have hlink : (Ipv6Addr.segment b 0 &&& 0xffc0 == 0xfe80) = true ↔
      (Ipv6Addr.block 0xfe80 10).Has b.toNat := Ipv6Addr.masked_iff_has b 0x3fa 10 6 rfl
  have hone : (b == Ipv6Addr.ofSegments [0, 0, 0, 0, 0, 0, 0, 1]) = true ↔
      Cidr.Has ⟨1, 0⟩ b.toNat := by
    rw [beq_iff_eq, ← BitVec.toNat_inj]
    simp [Cidr.Has, Ipv6Addr.ofSegments]
  have hzero : (b == Ipv6Addr.ofSegments [0, 0, 0, 0, 0, 0, 0, 0]) = true ↔
      Cidr.Has ⟨0, 0⟩ b.toNat := by
    rw [beq_iff_eq, ← BitVec.toNat_inj]
    simp [Cidr.Has, Ipv6Addr.ofSegments]
  simp only [isBlockedIp, Bool.or_eq_true, mapped_carries_iff, Ipv6Addr.isLoopback,
    Ipv6Addr.isUnspecified, Ipv6Addr.isMulticast, hone, hzero, hmulti, hlocal, hlink, blockedV6,
    List.mem_cons, List.not_mem_nil, or_false, exists_eq_or_imp, exists_eq_left, or_assoc]

/-- What the predicate misses is what the other embeddings carry. -/
theorem IpAddr.forbidden_iff (ip : IpAddr) :
    ip.Forbidden ↔ isBlockedIp ip = true ∨ ip.Tunnelled := by
  cases ip with
  | v4 b => simp [IpAddr.Forbidden, IpAddr.Tunnelled, isBlockedIp, isBlockedV4_iff]
  | v6 b =>
    rw [isBlockedIp_v6_iff]
    simp only [IpAddr.Forbidden, IpAddr.Tunnelled, List.mem_cons, exists_eq_or_imp, or_assoc]

/-- `64:ff9b::127.0.0.1` -/
example : isBlockedIp (.v6 0x64ff9b00000000000000007f000001#128) = false ∧
    (IpAddr.v6 0x64ff9b00000000000000007f000001#128).Tunnelled := by decide

/-! ## One delivery -/

structure Url where
  scheme : String
  hostStr : Option String
  portOrKnownDefault : Option ℕ

inductive CallbackUrlError where
  | notAUrl
  | notHttps
  | noHost
  | privateHost
  deriving DecidableEq, Repr

def CallbackUrlError.toString : CallbackUrlError → String
  | .notAUrl => "callbackUrl is not a valid URL"
  | .notHttps => "callbackUrl must use https"
  | .noHost => "callbackUrl has no host"
  | .privateHost => "callbackUrl must point at a public host"

/-- A delivery asks the resolver twice: to check the host and to connect to it. -/
inductive Asking where
  | check
  | connection
  deriving DecidableEq, Repr

/-- The URL parser, the resolver's answers, the outcome of `Client::build`, and the status that
an address answers. All but the parser may answer every delivery (counted by the first
argument) differently. -/
structure Egress where
  parse : String → Option Url
  lookup : ℕ → Asking → String → ℕ → Option (List IpAddr)
  build : ℕ → Except String Unit
  respond : ℕ → IpAddr → Except String ℕ

/-- The outcome of the connection of each delivery, which is made to one of the given addresses. -/
abbrev Connecting := ℕ → (addrs : List IpAddr) → Except String {ip // ip ∈ addrs}

structure DeliveryOutcome where
  delivered : Bool
  statusCode : Option ℕ
  error : Option String
  deriving DecidableEq, Repr

def DeliveryOutcome.failed (error : String) : DeliveryOutcome := ⟨false, none, some error⟩

/-- A delivery attempt: its outcome, and the address that the POST went to. -/
structure Posted where
  outcome : DeliveryOutcome
  sent : Option IpAddr

def trimMatches (c d : Char) (s : String) : String :=
  String.ofList ((s.toList.dropWhile (· == c)).reverse.dropWhile (· == d)).reverse

/-- The address that the text of a host is, with or without brackets. -/
def hostLiteral (host : String) : Option IpAddr := parseIpAddr (trimMatches '[' ']' host)

def endsWithLocalhost (host : String) : Bool :=
  ".localhost".toList.reverse.isPrefixOf host.toLower.toList.reverse

namespace Egress

variable (E : Egress)

def validateCallbackUrl (raw : String) : Except CallbackUrlError Unit :=
  match E.parse raw with
  | none => .error .notAUrl
  | some url =>
    if url.scheme ≠ "https" then .error .notHttps
    else match url.hostStr with
      | none => .error .noHost
      | some host =>
        if host.toLower = "localhost" ∨ endsWithLocalhost host then .error .privateHost
        else if (hostLiteral host).any isBlockedIp then .error .privateHost
        else .ok ()

def resolveIsPublic (n : ℕ) (url : Url) : Except CallbackUrlError Unit :=
  match url.hostStr with
  | none => .error .noHost
  | some host =>
    -- an IPv6 literal still has its brackets here, so it goes on to the resolver
    if (parseIpAddr host).isSome then .ok ()
    else match E.lookup n .check host (url.portOrKnownDefault.getD 443) with
      | none => .error .noHost
      | some addrs =>
        if addrs.any isBlockedIp then .error .privateHost
        else if addrs = [] then .error .noHost
        else .ok ()

/-- The client connects to a literal as it is, and asks the resolver for a name. -/
def clientAddrs (n : ℕ) (url : Url) : Option (List IpAddr) :=
  url.hostStr.bind fun host =>
    match hostLiteral host with
    | some ip => some [ip]
    | none => E.lookup n .connection host (url.portOrKnownDefault.getD 443)

def responseOutcome : Except String ℕ → DeliveryOutcome
  | .error e => .failed e
  | .ok status =>
    let delivered := decide (200 ≤ status ∧ status < 300)
    ⟨delivered, some status, if delivered then none else some s!"HTTP status {status}"⟩

/-- `client.post(url)`: one request, since redirects are not followed. -/
def post (connect : Connecting) (n : ℕ) (url : Url) : Posted :=
  match E.clientAddrs n url with
  | none => ⟨.failed "error sending request", none⟩
  | some addrs =>
    match connect n addrs with
    | .error e => ⟨.failed e, none⟩
    | .ok ip => ⟨responseOutcome (E.respond n ip), some ip⟩

def postSigned (connect : Connecting) (n : ℕ) (callbackUrl : String) : Posted :=
  match E.parse callbackUrl with
  | none => ⟨.failed CallbackUrlError.notAUrl.toString, none⟩
  | some url =>
    match E.validateCallbackUrl callbackUrl with
    | .error e => ⟨.failed e.toString, none⟩
    | .ok () =>
      match E.resolveIsPublic n url with
      | .error e => ⟨.failed e.toString, none⟩
      | .ok () =>
        match E.build n with
        | .error e => ⟨.failed e, none⟩
        | .ok () => E.post connect n url

end Egress

/-! ## The dispatcher -/

def maxWebhookAttempts : ℤ := 8

/-- In seconds: 30 s, 1 m, 2 m, …, with a ceiling of one hour. -/
def nextRetryDelay (attemptsSoFar : ℤ) : ℕ := min (30 <<< (min 8 (max 0 attemptsSoFar)).toNat) 3600

structure InvoiceWebhook where
  callbackUrl : String
  webhookDelivered : Bool
  webhookStatusCode : Option ℕ
  webhookAttempts : ℤ
  webhookLastError : Option String
  /-- In seconds. -/
  webhookNextRetryAt : Option ℤ
  deriving DecidableEq, Repr

namespace Egress

variable (E : Egress) (connect : Connecting)

def dispatchInvoiceWebhook (n : ℕ) (now : ℤ) (inv : InvoiceWebhook) : Posted × InvoiceWebhook :=
  let attempt := inv.webhookAttempts + 1
  let posted := E.postSigned connect n inv.callbackUrl
  let outcome := posted.outcome
  (posted,
    { inv with
      webhookDelivered := outcome.delivered
      webhookStatusCode := outcome.statusCode
      webhookAttempts := inv.webhookAttempts + 1
      webhookLastError := outcome.error
      webhookNextRetryAt :=
        if outcome.delivered || maxWebhookAttempts ≤ attempt then none
        else some (now + nextRetryDelay attempt) })

def dispatchAll : ℕ → List (ℤ × InvoiceWebhook) → List Posted
  | _, [] => []
  | n, (now, inv) :: rest =>
    (E.dispatchInvoiceWebhook connect n now inv).1 :: dispatchAll (n + 1) rest

/-! ## Where a POST may go -/

def judged (n : ℕ) (url : Url) : List IpAddr :=
  match url.hostStr with
  | none => []
  | some host =>
    (hostLiteral host).toList ++
      if (parseIpAddr host).isSome then []
      else (E.lookup n .check host (url.portOrKnownDefault.getD 443)).getD []

/-- Both checks and the client's construction succeed for the `n`-th delivery. -/
structure Passes (n : ℕ) (callbackUrl : String) (url : Url) : Prop where
  parsed : E.parse callbackUrl = some url
  valid : E.validateCallbackUrl callbackUrl = .ok ()
  resolved : E.resolveIsPublic n url = .ok ()
  built : E.build n = .ok ()

/-- The client of the `n`-th delivery is given a literal host, or no address that was not in the
answer to the check. -/
def ResolvesOnce (n : ℕ) (callbackUrl : String) : Prop :=
  ∀ url, E.Passes n callbackUrl url → ∀ addrs, E.clientAddrs n url = some addrs →
    addrs ⊆ E.judged n url

/-- No address that the client of the `n`-th delivery is given carries a blocked one. -/
def Untunnelled (n : ℕ) (callbackUrl : String) : Prop :=
  ∀ url, E.Passes n callbackUrl url → ∀ addrs, E.clientAddrs n url = some addrs →
    ∀ ip ∈ addrs, ¬ ip.Tunnelled

variable {E} {connect : Connecting}

theorem postSigned_sent_iff {n : ℕ} {callbackUrl : String} {ip : IpAddr} :
    (E.postSigned connect n callbackUrl).sent = some ip ↔
      ∃ url, E.Passes n callbackUrl url ∧ ∃ addrs, E.clientAddrs n url = some addrs ∧
        ∃ h, connect n addrs = .ok ⟨ip, h⟩ := by
  constructor
  · intro hs
    unfold postSigned at hs
    split at hs
    · cases hs
    rename_i url hp
    split at hs
    · cases hs
    rename_i hv
    split at hs
    · cases hs
    rename_i hr
    split at hs
    · cases hs
    rename_i hb
    unfold post at hs
    split at hs
    · cases hs
    rename_i addrs ha
    split at hs
    · cases hs
    rename_i x hc
    cases hs
    exact ⟨url, ⟨hp, hv, hr, hb⟩, addrs, ha, x.2, hc⟩
  · rintro ⟨url, hpass, addrs, ha, h, hc⟩
    simp only [postSigned, hpass.parsed, hpass.valid, hpass.resolved, hpass.built, post, ha, hc]

theorem validate_literal {callbackUrl host : String} {url : Url} {ip : IpAddr}
    (hp : E.parse callbackUrl = some url) (hh : url.hostStr = some host)
    (hv : E.validateCallbackUrl callbackUrl = .ok ()) (hl : hostLiteral host = some ip) :
    isBlockedIp ip = false := by
  simp only [validateCallbackUrl, hp, hh, hl, Option.any_some] at hv
  by_contra hb
  rw [Bool.not_eq_false] at hb
  rw [hb] at hv
  split at hv
  · cases hv
  · split at hv <;> cases hv

theorem resolve_answer {n : ℕ} {host : String} {url : Url} {addrs : List IpAddr} {ip : IpAddr}
    (hh : url.hostStr = some host) (hn : (parseIpAddr host).isSome = false)
    (ha : E.lookup n .check host (url.portOrKnownDefault.getD 443) = some addrs)
    (hr : E.resolveIsPublic n url = .ok ()) (hip : ip ∈ addrs) : isBlockedIp ip = false := by
  simp only [resolveIsPublic, hh, hn, ha, Bool.false_eq_true, if_false] at hr
  split at hr
  · cases hr
  · rename_i hany
    rw [Bool.not_eq_true, List.any_eq_false] at hany
    simpa using hany ip hip

/-- The checks let through no address that the predicate blocks. -/
theorem Passes.judged_free {n : ℕ} {callbackUrl : String} {url : Url} {ip : IpAddr}
    (hpass : E.Passes n callbackUrl url) (hip : ip ∈ E.judged n url) : isBlockedIp ip = false := by
  unfold judged at hip
  split at hip
  · cases hip
  rename_i host hh
  rcases List.mem_append.mp hip with hl | ha
  · exact validate_literal hpass.parsed hh hpass.valid (Option.mem_toList.mp hl)
  · split at ha
    · cases ha
    · rename_i hn
      obtain ⟨addrs, ha', hip'⟩ : ∃ addrs,
          E.lookup n .check host (url.portOrKnownDefault.getD 443) = some addrs ∧ ip ∈ addrs := by
        cases hc : E.lookup n .check host (url.portOrKnownDefault.getD 443) with
        | none => simp [hc] at ha
        | some addrs => exact ⟨addrs, rfl, by simpa [hc] using ha⟩
      exact resolve_answer hh (by simpa using hn) ha' hpass.resolved hip'

theorem Passes.postSigned_sent {n : ℕ} {callbackUrl : String} {url : Url} {addrs : List IpAddr}
    {ip : IpAddr} (hpass : E.Passes n callbackUrl url) (ha : E.clientAddrs n url = some addrs)
    (hip : ip ∈ addrs) : ∃ connect, (E.postSigned connect n callbackUrl).sent = some ip := by
  refine ⟨fun _ l => if h : ip ∈ l then .ok ⟨ip, h⟩ else .error "", ?_⟩
  exact postSigned_sent_iff.mpr ⟨url, hpass, addrs, ha, hip, dif_pos hip⟩

/-- One delivery. -/
theorem postSigned_public_iff {n : ℕ} {callbackUrl : String}
    (hone : E.ResolvesOnce n callbackUrl) :
    (∀ connect ip, (E.postSigned connect n callbackUrl).sent = some ip → ¬ ip.Forbidden) ↔
      E.Untunnelled n callbackUrl := by
  constructor
  · intro h url hpass addrs ha ip hip ht
    obtain ⟨connect, hs⟩ := hpass.postSigned_sent ha hip
    exact h connect ip hs (ip.forbidden_iff.mpr (.inr ht))
  · intro h connect ip hs
    obtain ⟨url, hpass, addrs, ha, hip, -⟩ := postSigned_sent_iff.mp hs
    have hb : isBlockedIp ip = false := hpass.judged_free (hone url hpass addrs ha hip)
    rw [IpAddr.forbidden_iff, hb]
    simpa using h url hpass addrs ha ip hip

theorem mem_dispatchAll {n : ℕ} {calls : List (ℤ × InvoiceWebhook)} {p : Posted} :
    p ∈ E.dispatchAll connect n calls ↔ ∃ i call, calls[i]? = some call ∧
      p = E.postSigned connect (n + i) call.2.callbackUrl := by
  induction calls generalizing n with
  | nil => simp [dispatchAll]
  | cons call rest ih =>
    rw [dispatchAll, List.mem_cons, ih]
    constructor
    · rintro (rfl | ⟨i, c, hc, rfl⟩)
      · exact ⟨0, call, rfl, rfl⟩
      · refine ⟨i + 1, c, hc, ?_⟩
        rw [← Nat.add_assoc, Nat.add_right_comm]
    · rintro ⟨i, c, hc, rfl⟩
      cases i with
      | zero =>
        cases hc
        exact .inl rfl
      | succ i =>
        refine .inr ⟨i, c, hc, ?_⟩
        rw [← Nat.add_assoc, Nat.add_right_comm]

/-- Where every attempt resolves its host once, no POST goes to a blocked range, whichever
addresses are connected to, if and only if none of them carries a blocked one in a form that the
check does not know. -/
theorem dispatchAll_public_iff {n : ℕ} {calls : List (ℤ × InvoiceWebhook)}
    (hone : ∀ i call, calls[i]? = some call → E.ResolvesOnce (n + i) call.2.callbackUrl) :
    (∀ connect, ∀ p ∈ E.dispatchAll connect n calls, ∀ ip, p.sent = some ip → ¬ ip.Forbidden) ↔
      ∀ i call, calls[i]? = some call → E.Untunnelled (n + i) call.2.callbackUrl := by
  constructor
  · intro h i call hc
    refine (postSigned_public_iff (hone i call hc)).mp fun connect ip hs => ?_
    exact h connect _ (mem_dispatchAll.mpr ⟨i, call, hc, rfl⟩) ip hs
  · intro h connect p hp ip hs
    obtain ⟨i, call, hc, rfl⟩ := mem_dispatchAll.mp hp
    exact (postSigned_public_iff (hone i call hc)).mpr (h i call hc) connect ip hs

def shopUrl : Url := ⟨"https", some "shop.example", some 443⟩

def shopEgress (answers : ℕ → Asking → List IpAddr) : Egress where
  parse s := if s = "https://shop.example/hook" then some shopUrl else none
  lookup n asking _ _ := some (answers n asking)
  build _ := .ok ()
  respond _ _ := .ok 200

def shopCall (now : ℤ) : ℤ × InvoiceWebhook :=
  (now, ⟨"https://shop.example/hook", false, none, 0, none, none⟩)

def firstAnswers : Connecting := fun _ addrs => match addrs with
  | [] => .error "error sending request"
  | ip :: _ => .ok ⟨ip, List.mem_cons_self⟩

theorem shop_clientAddrs {answers : ℕ → Asking → List IpAddr} {n : ℕ} {url : Url}
    {addrs : List IpAddr}
    (hpass : (shopEgress answers).Passes n "https://shop.example/hook" url)
    (ha : (shopEgress answers).clientAddrs n url = some addrs) :
    addrs = answers n .connection ∧ (shopEgress answers).judged n url = answers n .check := by
  obtain rfl : shopUrl = url := by
    have hp := hpass.parsed
    simp only [shopEgress, if_true] at hp
    exact Option.some.inj hp
  have hname : hostLiteral "shop.example" = none := by decide +kernel
  have hparse : (parseIpAddr "shop.example").isSome = false := by decide +kernel
  simp only [clientAddrs, shopUrl, Option.bind_some, hname, shopEgress, Option.some.injEq] at ha
  refine ⟨ha.symm, ?_⟩
  simp [judged, shopUrl, hname, hparse, shopEgress]

theorem shop_resolvesOnce {answers : ℕ → Asking → List IpAddr} {n : ℕ}
    (h : answers n .connection ⊆ answers n .check) :
    (shopEgress answers).ResolvesOnce n "https://shop.example/hook" := by
  intro url hpass addrs ha
  obtain ⟨rfl, hj⟩ := shop_clientAddrs hpass ha
  rwa [hj]

theorem shop_untunnelled {answers : ℕ → Asking → List IpAddr} {n : ℕ}
    (h : ∀ ip ∈ answers n .connection, ¬ ip.Tunnelled) :
    (shopEgress answers).Untunnelled n "https://shop.example/hook" := by
  intro url hpass addrs ha
  obtain ⟨rfl, -⟩ := shop_clientAddrs hpass ha
  exact h

def moving : ℕ → Asking → List IpAddr
  | 0, .check => [.v4 (Ipv4Addr.ofOctets 93 184 216 34), .v6 0x26062800000000000000000000000001#128]
  | 0, .connection => [.v6 0x26062800000000000000000000000001#128]
  | _, _ => [.v4 (Ipv4Addr.ofOctets 93 184 216 35)]

theorem dispatchAll_public_moving :
    (∀ connect, ∀ p ∈ (shopEgress moving).dispatchAll connect 0 [shopCall 0, shopCall 30],
      ∀ ip, p.sent = some ip → ¬ ip.Forbidden) ∧
    ((shopEgress moving).dispatchAll firstAnswers 0 [shopCall 0, shopCall 30]).map (·.sent) =
      [some (.v6 0x26062800000000000000000000000001#128),
        some (.v4 (Ipv4Addr.ofOctets 93 184 216 35))] := by
  have htwo : ∀ (i : ℕ) (call : ℤ × InvoiceWebhook), [shopCall 0, shopCall 30][i]? = some call →
      call.2.callbackUrl = "https://shop.example/hook" := by
    intro i call hc
    rcases List.mem_cons.mp (List.mem_of_getElem? hc) with rfl | hc
    · rfl
    · cases List.mem_singleton.mp hc
      rfl
  have hsame : ∀ n, moving n .connection ⊆ moving n .check ∧
      ∀ ip ∈ moving n .connection, ¬ ip.Tunnelled := by
    intro n
    cases n with
    | zero => decide
    | succ n => exact ⟨List.Subset.refl _, by simp only [moving]; decide⟩
  refine ⟨(dispatchAll_public_iff fun i call hc => ?_).mpr fun i call hc => ?_, by decide +kernel⟩
  · rw [htwo i call hc]
    exact shop_resolvesOnce (hsame _).1
  · rw [htwo i call hc]
    exact shop_untunnelled (hsame _).2

/-- The shop is public when it is checked and the metadata service when it is called. -/
def rebinding : ℕ → Asking → List IpAddr
  | _, .check => [.v4 (Ipv4Addr.ofOctets 93 184 216 34)]
  | _, .connection => [.v4 (Ipv4Addr.ofOctets 169 254 169 254)]

theorem dispatchAll_rebinding :
    ¬ ∀ connect, ∀ p ∈ (shopEgress rebinding).dispatchAll connect 0 [shopCall 0],
      ∀ ip, p.sent = some ip → ¬ ip.Forbidden := by
  intro h
  exact h firstAnswers _ (List.mem_singleton.mpr rfl) (.v4 (Ipv4Addr.ofOctets 169 254 169 254))
    (by decide +kernel) (by decide)

end Egress

end SatsPay
