import Mathlib.Data.List.AList
import SatsPay.FixedWindows
import SatsPay.IpAddresses

/-!
# Rate limits

Each request is counted for its class and its client, in the table that the replicas share or
in the counters of the replica, in windows of the class.
-/

namespace SatsPay

/-! ## Classes -/

inductive HttpMethod where
  | get
  | post
  | other
  deriving DecidableEq, Repr

/-- `Duration::from_secs`, in nanoseconds. -/
def fromSecs (n : ℕ) : ℕ := n * 10 ^ 9

structure Limit where
  max : ℕ
  window : ℕ

inductive RateClass where
  | authCredentials
  | faucetClaim
  | telemetryIngest
  | publicPayBalance
  | publicPaySelect
  | publicPayGet
  | api
  | withdrawalsPost
  | withdrawalsGet
  | authSession
  | other
  deriving DecidableEq, Repr

namespace RateClass

def name : RateClass → String
  | authCredentials => "auth-credentials"
  | faucetClaim => "faucet-claim"
  | telemetryIngest => "telemetry-ingest"
  | publicPayBalance => "public-pay-balance"
  | publicPaySelect => "public-pay-select"
  | publicPayGet => "public-pay-get"
  | api => "api"
  | withdrawalsPost => "withdrawals-post"
  | withdrawalsGet => "withdrawals-get"
  | authSession => "auth-session"
  | other => "other"

def limit : RateClass → Limit
  | authCredentials => ⟨10, fromSecs 300⟩
  | faucetClaim => ⟨20, fromSecs 300⟩
  | telemetryIngest => ⟨60, fromSecs 60⟩
  | publicPayBalance => ⟨10, fromSecs 60⟩
  | publicPaySelect => ⟨20, fromSecs 60⟩
  | publicPayGet => ⟨60, fromSecs 60⟩
  | api => ⟨2400, fromSecs 300⟩
  | withdrawalsPost => ⟨120, fromSecs 300⟩
  | withdrawalsGet => ⟨2400, fromSecs 300⟩
  | authSession => ⟨2400, fromSecs 300⟩
  | other => ⟨4800, fromSecs 300⟩

def usesSharedStore : RateClass → Bool
  | authCredentials | faucetClaim | telemetryIngest | withdrawalsPost | publicPaySelect
  | publicPayBalance => true
  | publicPayGet | api | withdrawalsGet | authSession | other => false

end RateClass

def startsWith (pat : String) (path : List Char) : Bool := pat.toList.isPrefixOf path

def endsWith (pat : String) (path : List Char) : Bool := pat.toList.isSuffixOf path

def publicPaySuffix (path : List Char) : Option (List Char) :=
  (path.dropPrefix? "/v1/public/pay".toList).orElse fun _ => path.dropPrefix? "/public/pay".toList

/-- `classify`, of which the limit is that of the class. -/
def classify (method : HttpMethod) (path : List Char) : RateClass :=
  if path = "/v1/auth/login".toList ∨ path = "/v1/auth/register".toList ∨
      path = "/v1/auth/admin/login".toList then .authCredentials
  else if startsWith "/v1/faucet" path ∧ method = .post then .faucetClaim
  else if (path = "/v1/telemetry/client-error".toList ∨
      path = "/v1/telemetry/client-errors".toList) ∧ method = .post then .telemetryIngest
  else match publicPaySuffix path with
    | some rest =>
      if method = .post ∧ endsWith "/balance" rest then .publicPayBalance
      else if method = .post ∧ endsWith "/select-coin" rest then .publicPaySelect
      else if method = .get then .publicPayGet
      else .api
    | none =>
      if startsWith "/v1/withdrawals" path ∧ method = .post then .withdrawalsPost
      else if startsWith "/v1/withdrawals" path then .withdrawalsGet
      else if startsWith "/v1/auth/" path then .authSession
      else if startsWith "/v1/" path then .api
      else .other

/-! ## Clients -/

structure Parts where
  headers : List (String × List UInt8)
  peer : Option String

def Parts.header (parts : Parts) (name : String) : Option (List UInt8) :=
  (parts.headers.find? (·.1 == name)).map Prod.snd

/-- `HeaderValue::to_str`, for what is visible ASCII or a tab. -/
def headerStr (value : List UInt8) : Option (List Char) :=
  if value.all fun b => (32 ≤ b && b < 127) || b == 9 then some (value.map fun b => Char.ofNat b.toNat)
  else none

def isInternalOrPrivate (ip : List Char) : Bool :=
  match parseIpAddr (String.ofList ip) with
  | some (.v4 b) => Ipv4Addr.isLoopback b || Ipv4Addr.isPrivate b || Ipv4Addr.isLinkLocal b
  | some (.v6 b) => Ipv6Addr.isLoopback b
  | none => false

/-- What a list of forwarding hops says, without the empty ones. -/
def hops (xff : List Char) : List (List Char) :=
  ((xff.splitOn ',').map trim).filter (!·.isEmpty)

def realIp (parts : Parts) : Option (List Char) :=
  ((parts.header "x-real-ip").bind headerStr).map trim |>.filter fun ip =>
    !ip.isEmpty && !isInternalOrPrivate ip

def forwardedFor (parts : Parts) : Option (List Char) :=
  ((parts.header "x-forwarded-for").bind headerStr).bind fun xff =>
    (hops xff).reverse.find? (!isInternalOrPrivate ·)

def resolveClientIp (parts : Parts) : Option String :=
  (((realIp parts).orElse fun _ => forwardedFor parts).map String.ofList).orElse fun _ => parts.peer

/-! ## Counters -/

abbrev Windows := AList fun _ : String => ℕ × ℕ

/-- `retain`, by the start of the window. -/
def Windows.retain (p : ℕ → Bool) (ws : Windows) : Windows :=
  ⟨ws.entries.filter fun e => p e.2.1, ws.nodupKeys.sublist List.filter_sublist⟩

structure Counters where
  hits : Windows
  lastPrune : ℕ

def maxTrackedKeys : ℕ := 100000

def pruneEvery : ℕ := fromSecs 60

/-- Windows that are over are dropped, by the measure of the request that comes by. -/
def Counters.prune (now window : ℕ) (c : Counters) : Counters :=
  if pruneEvery < now - c.lastPrune then ⟨c.hits.retain fun start => now - start < window, now⟩
  else c

def Counters.bound (c : Counters) : Counters :=
  if maxTrackedKeys < c.hits.keys.length then { c with hits := ∅ } else c

/-- The number is a `u32`. -/
def countLocal (old : Option (ℕ × ℕ)) (now window : ℕ) : ℕ × ℕ :=
  match old with
  | none => (now, 1)
  | some (start, n) => if window ≤ now - start then (now, 1) else (start, (n + 1) % 2 ^ 32)

def retryAfter (left : ℕ) : ℕ := max (left / fromSecs 1) 1

def Limit.verdict (limit : Limit) (n retry : ℕ) : Except ℕ Unit :=
  if limit.max < n then .error retry else .ok ()

def checkLocal (key : String) (limit : Limit) (now : ℕ) (c : Counters) :
    Hit × Except ℕ Unit × Counters :=
  let c := (c.prune now limit.window).bound
  let e := countLocal (c.hits.lookup key) now limit.window
  (⟨now, e.1, e.2⟩, limit.verdict e.2 (retryAfter (limit.window - (now - e.1))),
    { c with hits := c.hits.insert key e })

/-- The upsert of a bucket, of which the hits are an `int`. -/
def countShared (old : Option (ℕ × ℕ)) (now window : ℕ) : Option (ℕ × ℕ) :=
  match old with
  | none => some (now, 1)
  | some (start, n) =>
    if start + window < now then some (now, 1)
    else if n + 1 < 2 ^ 31 then some (start, n + 1)
    else none

def checkShared (key : String) (limit : Limit) (now : ℕ) (buckets : Windows) :
    Option (Hit × Except ℕ Unit × Windows) :=
  (countShared (buckets.lookup key) now limit.window).map fun e =>
    (⟨now, e.1, e.2⟩, limit.verdict e.2 (retryAfter limit.window), buckets.insert key e)

/-! ## Requests -/

/-- A request as it comes to a replica, by the clock of the replica and by that of the store,
and whether the store answers. -/
structure Arrival where
  replica : ℕ
  method : HttpMethod
  path : List Char
  parts : Parts
  instant : ℕ
  now : ℕ
  storeAnswers : Bool

def Arrival.rateClass (r : Arrival) : RateClass := classify r.method r.path

def RateClass.key (cls : RateClass) (ip : String) : String := cls.name ++ "|" ++ ip

def Arrival.client (r : Arrival) : String := (resolveClientIp r.parts).getD "unknown"

def Arrival.key (r : Arrival) : String := r.rateClass.key r.client

inductive CountedIn where
  | shared
  | replica (i : ℕ)
  deriving DecidableEq, Repr

structure Counted where
  arrival : Arrival
  countedIn : CountedIn
  hit : Hit
  verdict : Except ℕ Unit

def Counted.clock (x : Counted) : ℕ :=
  match x.countedIn with
  | .shared => x.arrival.now
  | .replica _ => x.arrival.instant

def Counted.accepted (x : Counted) : Bool := x.verdict.isOk

structure Limiter where
  counters : ℕ → Counters
  buckets : Windows

/-- No windows; the counters of a replica are made when it starts. -/
def Limiter.start (started : ℕ → ℕ) : Limiter := ⟨fun i => ⟨∅, started i⟩, ∅⟩

def countInReplica (r : Arrival) (st : Limiter) : Counted × Limiter :=
  let checked := checkLocal r.key r.rateClass.limit r.instant (st.counters r.replica)
  (⟨r, .replica r.replica, checked.1, checked.2.1⟩,
    { st with counters := Function.update st.counters r.replica checked.2.2 })

/-- `layer`, up to the response that a verdict is turned into. -/
def layer (r : Arrival) (st : Limiter) : Counted × Limiter :=
  if r.rateClass.usesSharedStore ∧ r.storeAnswers then
    match checkShared r.key r.rateClass.limit r.now st.buckets with
    | some (hit, verdict, buckets) => (⟨r, .shared, hit, verdict⟩, { st with buckets })
    | none => countInReplica r st
  else countInReplica r st

section
variable (started : ℕ → ℕ)

def limiterAfter : List Arrival → Limiter
  | [] => .start started
  | r :: rs => (layer r (limiterAfter rs)).2

def servedLog : List Arrival → List Counted
  | [] => []
  | r :: rs => (layer r (limiterAfter started rs)).1 :: servedLog rs

end

end SatsPay
