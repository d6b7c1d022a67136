import SatsPay.Faucet

/-!
# Runs of the faucet

However claims interleave, two of one user for one coin are at least the cooldown apart,
each takes from the house what it gives the user, and a claim that fails changes nothing.
What keeps two claims apart is the wallet's lock: while it is held, no claim can enter its
reward in the wallet, so the claims that were read stay all there are.
-/

namespace SatsPay

open Interleave ReadCommitted RowProtocol

abbrev FaucetHist := Hist (sig (satsPay faucetExt))
abbrev FaucetEvent := Event (sig (satsPay faucetExt))
abbrev FaucetView := RefView faucetTables

/-! ## The book of claims -/

def claimCredit (walletId id : Uuid) (c : FaucetClaim) : LedgerEntry :=
  (referenced walletId c.amount .faucet id "FaucetClaim"
    ("Faucet reward " ++ c.coin.asStr)).entry c.amount

def claimDebit (houseWalletId id : Uuid) (c : FaucetClaim) : LedgerEntry :=
  (referenced houseWalletId (-c.amount) .faucet id "FaucetClaim"
    ("Faucet payout " ++ c.coin.asStr)).entry (-c.amount)

def houseWalletIn (wallets : Table Wallet) (house : Option Uuid) (coin : Coin) : Option Uuid :=
  house.bind (walletIn wallets · coin .house)

/-- The entries of a claim are a credit of the user and a debit of the house, of one amount.
Of no claim there are none. -/
def ClaimPaid (wallets : Table Wallet) (house : Option Uuid) (id : Uuid) :
    Option FaucetClaim → List LedgerEntry → Prop
  | none, l => l = []
  | some c, l => ∃ w h, walletIn wallets c.userId c.coin .personal = some w ∧
      houseWalletIn wallets house c.coin = some h ∧ l = [claimCredit w id c, claimDebit h id c]

def FaucetDb.claimOf (db : FaucetDb) (id : Uuid) : Option FaucetClaim := db.claims.lookup id

structure FaucetBook (cooldown : ℤ) (v : FaucetView) : Prop where
  paid : Tallied FaucetDb.claimOf (ClaimPaid v.wallets v.part.house) v
  apart : ∀ i j c d, i ≠ j → v.part.claimOf i = some c → v.part.claimOf j = some d →
    c.userId = d.userId → c.coin = d.coin → cooldown ≤ |c.createdAt - d.createdAt|

abbrev faucetSee (db : Db faucetExt) : FaucetView := refSee "FaucetClaim" db

/-- A transaction's time is not before what its process has read of the clock. -/
def ClocksAgree (h : FaucetHist) (e : FaucetEvent) : Prop :=
  ∀ p (t now : ℤ), e = .did p (.call (.inl .transactionTimestamp)) t →
    .did p (.call (.inl .utcNow)) now ∈ h → now ≤ t

def claimFails : faucetExt.Call → Prop
  | .inl (.answer (.error _)) => True
  | _ => False

inductive Claims (faucetIpLockKey : String → Coin → ℤ) (cooldownMinutes : ℤ) :
    Faucet Empty Unit → Prop
  | claim (req : ClaimRequest) :
      Claims faucetIpLockKey cooldownMinutes (serveClaim faucetIpLockKey cooldownMinutes req)

structure FaucetLaw (faucetIpLockKey : String → Coin → ℤ) (cooldownMinutes : ℤ)
    (db : Db faucetExt) : Prop where
  book : ∀ w, Run (Claims faucetIpLockKey cooldownMinutes) (fun c e => ClocksAgree c.hist e) db w →
    FaucetBook (minutes cooldownMinutes) (faucetSee w.conf.s.db)
  failed : FailedAside (Claims faucetIpLockKey cooldownMinutes) (fun c e => ClocksAgree c.hist e)
    claimFails db

/-! ## The plan -/

section
variable (cooldown : ℤ) (wallets : Table Wallet) (house : Option Uuid)

/-- The book, with wallets and a house that stay. -/
structure FaucetInv (v : FaucetView) : Prop where
  wallets : v.wallets = wallets
  house : v.part.house = house
  book : FaucetBook cooldown v

def ClaimsStay (v v' : FaucetView) : Prop :=
  ∀ id c, v.part.claimOf id = some c → v'.part.claimOf id = some c

abbrev faucetFocus : Focus faucetExt := refFocus faucetTables airdropExt "FaucetClaim"

def faucetPlan : Plan faucetFocus fun _ h e => ClocksAgree h e :=
  .ofState _ (FaucetInv cooldown wallets house) ClaimsStay (fun _ _ _ h => h)
    fun _ _ _ h h' id c hc => h' id c (h id c hc)

end

section
variable {cooldown : ℤ} {wallets : Table Wallet} {house : Option Uuid} {p : Nat}

/-- Of an entry in a personal wallet that refers to a claim, the claim is its user's. -/
theorem claim_of_entry {v : FaucetView} (hv : FaucetInv cooldown wallets house v) {u w : Uuid}
    {coin : Coin} (hw : walletIn wallets u coin .personal = some w) {e : LedgerEntry}
    (he : e ∈ v.entries) (hew : e.walletId = w) {id : Uuid} (hid : e.referenceId = some id) :
    ∃ c, v.part.claimOf id = some c ∧ c.userId = u ∧ c.coin = coin := by
  have hmem : e ∈ v.entriesOf id := List.mem_filter.2 ⟨he, by simp [hid]⟩
  have hp := hv.book.paid id
  rw [hv.wallets, hv.house] at hp
  obtain ⟨row, hrow, hu, hc, hk⟩ := lookup_of_walletIn hw
  cases hc' : v.part.claimOf id with
  | none =>
    rw [hc'] at hp
    rw [hp] at hmem
    cases hmem
  | some c =>
    rw [hc'] at hp
    obtain ⟨w', h', hw', hh', hl⟩ := hp
    rw [hl] at hmem
    rcases List.mem_cons.1 hmem with rfl | hmem
    · -- the credit is in the wallet of the claim's user and coin
      obtain rfl : w' = w := hew
      obtain ⟨row', hrow', hu', hc'', -⟩ := lookup_of_walletIn hw'
      obtain rfl := Option.some.inj (hrow.symm.trans hrow')
      exact ⟨c, rfl, hu'.symm.trans hu, hc''.symm.trans hc⟩
    · -- the debit is in a wallet of another kind
      obtain rfl := List.mem_singleton.1 hmem
      obtain rfl : h' = w := hew
      obtain ⟨houseId, -, hh'⟩ := Option.bind_eq_some_iff.1 hh'
      obtain ⟨row', hrow', -, -, hk'⟩ := lookup_of_walletIn hh'
      obtain rfl := Option.some.inj (hrow.symm.trans hrow')
      rw [hk] at hk'
      cases hk'

/-- The claims of a user for a coin are entered in one wallet. -/
theorem entry_of_claim {v : FaucetView} (hv : FaucetInv cooldown wallets house v) {id w : Uuid}
    {c : FaucetClaim} (hc : v.part.claimOf id = some c)
    (hw : walletIn wallets c.userId c.coin .personal = some w) : claimCredit w id c ∈ v.entries := by
  have hp := hv.book.paid id
  rw [hv.wallets, hv.house, hc] at hp
  obtain ⟨w', h', hw', hh', hl⟩ := hp
  obtain rfl := Option.some.inj (hw.symm.trans hw')
  have : claimCredit w id c ∈ v.entriesOf id := by
    rw [hl]
    exact List.mem_cons_self
  exact (List.mem_filter.1 this).1

/-- What the entries of a locked wallet tell: each that refers to a claim refers to one made
no later than the last that was read. -/
def Watched (w : Uuid) (last : Option ℤ) (ks : List (Key faucetExt)) (db : Db faucetExt)
    (_ : FaucetHist) : Prop :=
  Key.core w ∈ ks ∧ ∀ e ∈ (Key.row (.core w) db).2, e.referenceType = some "FaucetClaim" →
    ∀ id, e.referenceId = some id → ∃ c t, (faucetSee db).part.claimOf id = some c ∧
      last = some t ∧ c.createdAt ≤ t

theorem keeps_watched (w : Uuid) (last : Option ℤ) :
    (faucetPlan cooldown wallets house).Keeps p (Watched w last) where
  framed :=
    { stable := fun ws ks db h db' h' hg hk hr _ _ => by
        refine ⟨hg.1, fun e he ht id hid => ?_⟩
        rw [show Key.row (.core w) db' = Key.row (.core w) db from hk _ hg.1] at he
        obtain ⟨c, t, hc, hl, hle⟩ := hg.2 e he ht id hid
        exact ⟨c, t, hr.2 id c hc, hl, hle⟩
      own := fun _ _ _ _ _ _ _ hg => hg }
  mono _ _ _ _ hg := ⟨List.mem_append_left _ hg.1, hg.2⟩

theorem mem_entries {db : Db faucetExt} {e : LedgerEntry} :
    e ∈ (faucetSee db).entries ↔ e ∈ db.core.ledger ∧ e.referenceType = some "FaucetClaim" := by
  simp [faucetSee, refSee, List.mem_filter]

theorem mem_row {db : Db faucetExt} {w : Uuid} {e : LedgerEntry} :
    e ∈ (Key.row (.core w) db).2 ↔ e ∈ db.core.ledger ∧ e.walletId = w := by
  show e ∈ db.core.ledger.filter _ ↔ _
  simp [List.mem_filter]

theorem mem_claimTimes {db : FaucetDb} {id : Uuid} {c : FaucetClaim} (hc : db.claimOf id = some c) :
    c.createdAt ∈ db.claimTimes c.userId c.coin :=
  List.mem_map.2 ⟨⟨id, c⟩, List.mem_filter.2 ⟨AList.mem_lookup_iff.1 hc, by simp⟩, rfl⟩

/-- The last claim, read under the wallet's lock. -/
theorem watched_of_inv {ks : List (Key faucetExt)} {db : Db faucetExt} {h : FaucetHist}
    (hv : FaucetInv cooldown wallets house (faucetSee db)) {u w : Uuid} {coin : Coin}
    (hw : walletIn wallets u coin .personal = some w) (hk : Key.core w ∈ ks) :
    Watched w ((db.ext.1.claimTimes u coin).max?) ks db h := by
  refine ⟨hk, fun e he ht id hid => ?_⟩
  obtain ⟨he, hew⟩ := mem_row.1 he
  obtain ⟨c, hc, rfl, rfl⟩ := claim_of_entry hv hw (mem_entries.2 ⟨he, ht⟩) hew hid
  have hm : c.createdAt ∈ db.ext.1.claimTimes c.userId c.coin := mem_claimTimes hc
  cases hmax : (db.ext.1.claimTimes c.userId c.coin).max? with
  | none =>
    rw [List.max?_eq_none_iff.1 hmax] at hm
    cases hm
  | some t => exact ⟨c, t, hc, rfl, (List.max?_eq_some_iff.1 hmax).2 _ hm⟩

/-! ## A claim -/

def pay (w h id : Uuid) (c : FaucetClaim) (v : FaucetView) : FaucetView :=
  ((RefView.write (A := faucetTables) (.putClaim id c) v).addEntry (claimDebit h id c)).addEntry
    (claimCredit w id c)

theorem claimOf_pay (w h id : Uuid) (c : FaucetClaim) (v : FaucetView) (j : Uuid) :
    (pay w h id c v).part.claimOf j = if j = id then some c else v.part.claimOf j := by
  have h₁ : (pay w h id c v).part.claimOf j = (v.part.claims.insert id c).lookup j := rfl
  rw [h₁]
  split
  · rename_i e
    rw [e, AList.lookup_insert]
  · rename_i e
    exact AList.lookup_insert_ne e

/-- A claim keeps the book, if every other of its user for the coin is old enough. -/
theorem faucetInv_pay {v : FaucetView} (hv : FaucetInv cooldown wallets house v) {w h id : Uuid}
    {c : FaucetClaim} (hw : walletIn wallets c.userId c.coin .personal = some w)
    (hh : houseWalletIn wallets house c.coin = some h) (hid : v.part.claimOf id = none)
    (hold : ∀ j d, v.part.claimOf j = some d → d.userId = c.userId → d.coin = c.coin →
      d.createdAt + cooldown ≤ c.createdAt) :
    FaucetInv cooldown wallets house (pay w h id c v) where
  wallets := hv.wallets
  house := hv.house
  book :=
    { paid := by
        have hnone : v.entriesOf id = [] := by
          have := hv.book.paid id
          rwa [hid] at this
        have hentries : (pay w h id c v).entries =
            [claimCredit w id c, claimDebit h id c] ++ v.entries := rfl
        refine Tallied.step hv.book.paid (fun j (hj : j ≠ id) => ?_) hentries
          (by simp [claimCredit, claimDebit, referenced, LedgerCreditInput.entry]) ?_
        · rw [claimOf_pay, if_neg hj]
        · rw [claimOf_pay, if_pos rfl, hnone, List.append_nil]
          refine ⟨w, h, ?_, ?_, rfl⟩
          · rw [show (pay w h id c v).wallets = wallets from hv.wallets]
            exact hw
          · rw [show (pay w h id c v).wallets = wallets from hv.wallets,
              show (pay w h id c v).part.house = house from hv.house]
            exact hh
      apart := by
        have old : ∀ j d, v.part.claimOf j = some d → d.userId = c.userId → d.coin = c.coin →
            cooldown ≤ |c.createdAt - d.createdAt| := fun j d hd hu hc =>
          le_trans (by have := hold j d hd hu hc; omega) (le_abs_self _)
        intro i j d d' hij hd hd' hu hc
        rw [claimOf_pay] at hd hd'
        split at hd <;> split at hd'
        · rename_i hi hj
          exact absurd (hi.trans hj.symm) hij
        · cases hd
          exact old j d' hd' hu.symm hc.symm
        · cases hd'
          rw [abs_sub_comm]
          exact old i d hd hu hc
        · exact hv.book.apart i j d d' hij hd hd' hu hc }

theorem claimsStay_pay {v : FaucetView} {w h id : Uuid} {c : FaucetClaim}
    (hid : v.part.claimOf id = none) : ClaimsStay v (pay w h id c v) := by
  intro j d hd
  rw [claimOf_pay, if_neg]
  · exact hd
  · rintro rfl
    rw [hid] at hd
    cases hd

/-! ## What a claim does -/

theorem learns_faucetHouse {f : FaucetView → FaucetView} (hf : ∀ v, (f v).part.house = v.part.house) :
    (faucetPlan cooldown wallets house).Learns p f faucetHouse fun a => a = house :=
  Plan.learns_left (P := faucetPlan cooldown wallets house) FaucetStmt.findHouse (fun _ _ => rfl) hf
    fun _ _ h => h.house

theorem numeric39_reward (coin : Coin) :
    numeric39 (faucetReward coin) = some (faucetReward coin) ∧
      numeric39 (-(faucetReward coin : ℚ)) = some (-faucetReward coin) := by
  constructor
  · exact numeric39_int_eq_some.2 ⟨rfl, by simp [faucetReward]⟩
  · rw [numeric39_neg, numeric39_int_eq_some.2 ⟨rfl, by simp [faucetReward]⟩]
    rfl

abbrev claimKey (id : Uuid) : Key faucetExt := .ext (Sum.inl (FaucetKey.claim id))

def Unclaimed (id : Uuid) (ks : List (Key faucetExt)) (db : Db faucetExt) (_ : FaucetHist) : Prop :=
  claimKey id ∈ ks ∧ (faucetSee db).part.claimOf id = none

theorem keeps_unclaimed (id : Uuid) :
    (faucetPlan cooldown wallets house).Keeps p (Unclaimed id) :=
  Plan.keeps_row (claimKey id) fun row => row = none

section
variable {w h i : Uuid} {now createdAt : ℤ} {last : Option ℤ} {req : ClaimRequest}
  (hw : walletIn wallets req.userId req.coin .personal = some w)
  (hlast : ∀ t, last = some t → t + cooldown ≤ now) (hnow : now ≤ createdAt)

abbrev ClaimRequest.row (req : ClaimRequest) (createdAt : ℤ) : FaucetClaim :=
  ⟨req.userId, req.coin, faucetReward req.coin, req.ip, createdAt⟩

include hw hlast hnow

theorem triple_commitClaim (hh : houseWalletIn wallets house req.coin = some h) (a : ClaimResult) :
    (faucetPlan cooldown wallets house).Keeping p
      (InTx p (Plan.Eff faucetFocus (pay w h i (req.row createdAt)) fun ks db l =>
        Watched w last ks db l ∧ Unclaimed i ks db l))
      (commit >>= fun _ => pure a : Faucet FaucetError ClaimResult) fun _ => Over fun _ _ => True := by
  refine Protocol.Triple.bind (Plan.triple_commit (B := fun _ _ => True) Plan.knows_true.stable
    Plan.knows_true ?_ fun _ _ _ _ => trivial) (fun _ => .ret fun _ _ _ => trivial) fun _ _ _ h => h
  rintro ks db l hi ⟨hwatch, -, hi'⟩ -
  refine ⟨⟨faucetInv_pay hi hw hh hi' fun j d hd hu hc => ?_, fun q _ => claimsStay_pay hi'⟩,
    fun _ _ => trivial⟩
  -- an older claim has its credit in the wallet that is locked
  have he : claimCredit w j d ∈ (faucetSee db).entries := entry_of_claim hi hd (by rw [hu, hc]; exact hw)
  obtain ⟨he, ht⟩ := mem_entries.1 he
  obtain ⟨d', t, hd', hl, hle⟩ := hwatch.2 _ (mem_row.2 ⟨he, rfl⟩) ht j rfl
  obtain rfl := Option.some.inj (hd.symm.trans hd')
  have := hlast t hl
  show d.createdAt + cooldown ≤ createdAt
  omega

theorem triple_payClaim :
    (faucetPlan cooldown wallets house).Keeping p (InTx p (Plan.Eff faucetFocus id (Watched w last)))
      (payClaim cooldown now createdAt req w) fun _ => Over fun _ _ => True := by
  have hA := @keeps_watched cooldown wallets house p w last
  refine Plan.bind_left (Plan.triple_call hA (.inl .newClaimId) fun _ => trivial) (fun i => ?_)
    fun _ _ _ _ => trivial
  have hA' : (faucetPlan cooldown wallets house).Keeps p fun ks db l =>
      Watched w last ks db l ∧ Unclaimed i ks db l := hA.and (keeps_unclaimed i)
  have insert : (faucetPlan cooldown wallets house).Keeping p
      (InTx p (Plan.Eff faucetFocus id (Watched w last)))
      (faucetQuery (.insertClaim i (req.row createdAt)) : Faucet FaucetError Unit)
      (outcome (fun _ c => ∃ _ : Unit, InTx p (Plan.Eff faucetFocus
        (RefView.write (A := faucetTables) (.putClaim i (req.row createdAt)) ∘ id)
        fun ks db l => Watched w last ks db l ∧ Unclaimed i ks db l) c) fun _ => InTx p fun _ => Watched w last) := by
    refine Plan.triple_effect (ε := FaucetError)
      (Stmt.ext (Sum.inl (FaucetStmt.insertClaim i (req.row createdAt))) : Stmt faucetExt)
      (by rintro input ⟨⟩) hA (fun _ _ => hA') ?_
    intro ws ks db l a ws' hi hg he
    obtain ⟨ws₁, h₁, rfl⟩ := ext_eval_ok he
    obtain ⟨ws₂, h₂, rfl⟩ := Ext.sumEval_inl h₁
    obtain ⟨hn, rfl⟩ := insertClaim_ok (c := (viewOf ws db).core) h₂
    have hv : (faucetSee (viewOf ws db)).part.claimOf i = (faucetSee db).part.claimOf i :=
      congrArg (fun v : FaucetView => v.part.claimOf i) hg.see
    exact ⟨(), rfl, hA.mono _ _ _ _ hg.left, List.mem_append_right _ (List.mem_singleton_self _),
      hv.symm.trans hn⟩
  refine Plan.bind_left insert (fun _ => Protocol.Triple.of_exists fun _ => ?_) fun _ _ _ _ => trivial
  have hr := numeric39_reward req.coin
  have houseWallet := Plan.learns_getHouseWalletId (P := faucetPlan cooldown wallets house) (p := p)
    (f := RefView.write (A := faucetTables) (.putClaim i (req.row createdAt)) ∘ id)
    (fun _ _ h => h.wallets) (fun _ => rfl) (learns_faucetHouse fun _ => rfl) req.coin
  refine Plan.bind_left (Plan.triple_debitHouse hA' houseWallet
    (show (faucetReward req.coin : ℚ) ≠ 0 by simp [faucetReward]) .faucet i
    ("Faucet payout " ++ req.coin.asStr)) (fun _ => Protocol.Triple.of_exists fun h =>
    Protocol.Triple.of_exists fun n => .of_pure fun hh => .of_pure fun hn => ?_) fun _ _ _ _ => trivial
  obtain rfl := Option.some.inj (hr.2.symm.trans hn)
  refine Plan.bind_left (Plan.triple_rowEntry hA' w _ .faucet i _) (fun _ =>
    Protocol.Triple.of_exists fun n => .of_pure fun hn => ?_) fun _ _ _ _ => trivial
  obtain rfl := Option.some.inj (hr.1.symm.trans hn)
  refine Plan.bind_left ((aloof_award (fun _ => Plan.aloof_right _) req.userId 50 0 "FAUCET_CLAIM").mapErr _ _ _ hA')
    (fun award => triple_commitClaim hw hlast hnow hh _) fun _ _ _ _ => trivial

end

theorem triple_claimTo {w : Uuid} {now createdAt : ℤ} {req : ClaimRequest}
    (hw : walletIn wallets req.userId req.coin .personal = some w) (hnow : now ≤ createdAt) :
    (faucetPlan cooldown wallets house).Keeping p
      (InTx p (Plan.Eff faucetFocus id fun _ _ _ => True)) (claimTo cooldown now createdAt req w)
      fun _ => Over fun _ _ => True := by
  have hT := Plan.keeps_fact (P := faucetPlan cooldown wallets house) (p := p) True
  refine Plan.bind_left (Plan.triple_lockWallet_held hT fun db l hi => ?_) (fun _ => ?_)
    fun _ _ _ _ => trivial
  · obtain ⟨row, hrow, -⟩ := lookup_of_walletIn hw
    rw [show db.core.wallets = wallets from hi.wallets, hrow]
    rfl
  have hA : (faucetPlan cooldown wallets house).Keeps p fun ks _ _ => True ∧ Key.core w ∈ ks :=
    { framed := ⟨fun _ _ _ _ _ _ hg _ _ _ _ => hg, fun _ _ _ _ _ _ _ hg => hg⟩
      mono := fun _ _ _ _ hg => ⟨trivial, List.mem_append_left _ hg.2⟩ }
  have read := Plan.triple_leftReading (P := faucetPlan cooldown wallets house) (ε := FaucetError)
    (f := id) (φ := fun last : Option ℤ => Watched w last)
    (FaucetStmt.lastClaim req.userId req.coin) (fun _ _ => rfl) (fun _ => rfl) hA
    (fun last => keeps_watched w last)
    fun ks ks' db l hi hg => watched_of_inv hi hw (List.mem_append_left _ hg.2)
  refine Plan.bind_left read (fun last => ?_) fun _ _ _ _ => trivial
  have pay (hlast : ∀ t, last = some t → t + cooldown ≤ now) :
      (faucetPlan cooldown wallets house).Keeping p
        (InTx p (Plan.Eff faucetFocus id fun ks db l =>
          (True ∧ Key.core w ∈ ks) ∧ Watched w last ks db l))
        (payClaim cooldown now createdAt req w) fun _ => Over fun _ _ => True :=
    .conseq (triple_payClaim hw hlast hnow) (fun _ _ h => Plan.inTx_imp (fun _ _ _ h => h.2) h)
      fun _ _ _ h => h
  cases last with
  | none => exact pay (by rintro t ⟨⟩)
  | some t =>
    dsimp only [checkCooldown]
    split
    · exact .throw fun _ _ _ => trivial
    · rename_i hle
      refine pay fun t' ht => ?_
      cases ht
      exact not_lt.1 hle

def HasSeen (p : Nat) (now : ℤ) (l : FaucetHist) : Prop := .did p (.call (.inl .utcNow)) now ∈ l

theorem knows_hasSeen (now : ℤ) : (faucetPlan cooldown wallets house).Knows p (HasSeen p now) :=
  Plan.knows_seen _

theorem triple_faucetClaim (faucetIpLockKey : String → Coin → ℤ) {cooldownMinutes : ℤ}
    (hm : minutes cooldownMinutes = cooldown) (req : ClaimRequest) :
    (faucetPlan cooldown wallets house).Calm p (fun _ => True)
      (claim faucetIpLockKey cooldownMinutes req) := by
  subst hm
  have read : (faucetPlan (minutes cooldownMinutes) wallets house).Keeping p
      (Idle p fun _ _ => True) (faucetCall .utcNow : Faucet FaucetError ℤ)
      (outcome (fun now => Idle p fun _ l => HasSeen p now l) fun _ _ => False) := by
    refine triple_invoke (S := satsPay faucetExt) (Sum.inl FaucetCall.utcNow)
      (fun now => (knows_hasSeen now).stable) fun db l now hi _ _ => ?_
    exact ⟨⟨hi, fun _ _ => ⟨fun _ => rfl, fun _ _ h => h⟩⟩, List.mem_cons_self⟩
  refine Protocol.Triple.bind read (fun now => ?_) fun _ _ _ h => h.elim
  have hK := @knows_hasSeen (minutes cooldownMinutes) wallets house p now
  refine .conseq (Plan.triple_scope (Q := fun _ _ _ => True) hK (fun _ => Plan.knows_true)
    (fun _ _ _ _ => trivial) ?_) (fun _ _ h => h) fun _ _ _ h => h
  have hA := Plan.keeps_of_framed hK
  have hT := Plan.keeps_fact (P := faucetPlan (minutes cooldownMinutes) wallets house) (p := p) True
  refine Plan.bind_left (Plan.triple_call_fact hA (Sum.inl FaucetCall.transactionTimestamp)
    (fun _ => trivial) (φ := fun createdAt : ℤ => now ≤ createdAt) ?_)
    (fun createdAt => Plan.of_fact fun hnow => ?_) fun _ _ _ _ => trivial
  · intro ks db l createdAt hk hc
    exact hc p createdAt now rfl hk
  refine .conseq (A := InTx p (Plan.Eff faucetFocus id fun _ _ _ => True)) ?_
    (fun _ _ h => Plan.inTx_imp (fun _ _ _ _ => trivial) h) fun _ _ _ h => h
  refine Plan.bind_left (Plan.aloof_left (FaucetStmt.lockIp (faucetIpLockKey req.ip req.coin))
    (fun c db a ws h => by cases List.mem_singleton.1 h; rfl) _ _ hT) (fun _ => ?_)
    fun _ _ _ _ => trivial
  refine (Plan.learns_walletOf (P := faucetPlan (minutes cooldownMinutes) wallets house) (f := id)
    (fun _ _ h => h.wallets) (fun _ => rfl) req.userId req.coin .personal).over hT (fun _ _ _ _ => trivial) fun walletId hw => ?_
  cases walletId with
  | none => exact .throw fun _ _ _ => trivial
  | some w => exact triple_claimTo hw.symm hnow

theorem triple_serveClaim (faucetIpLockKey : String → Coin → ℤ) {cooldownMinutes : ℤ}
    (hm : minutes cooldownMinutes = cooldown) (req : ClaimRequest) :
    (faucetPlan cooldown wallets house).Calm p (fun _ => True)
      (serveClaim faucetIpLockKey cooldownMinutes req) :=
  (triple_faucetClaim faucetIpLockKey hm req).attempt.bind fun _ =>
    (Plan.calm_invoke Plan.knows_true _ fun _ => trivial).bind fun _ => .ret _

end

/-! ## Requests that fail -/

theorem atomic_claim (faucetIpLockKey : String → Coin → ℤ) (cooldownMinutes : ℤ)
    (req : ClaimRequest) :
    Atomic (S := satsPay faucetExt) claimFails (fun _ => False)
      (claim faucetIpLockKey cooldownMinutes req) := by
  have call {ε : Type} (c : FaucetCall) (hc : ¬ claimFails (.inl c)) :
      Tentative (S := satsPay faucetExt) claimFails (fun _ => False)
        (faucetCall c : Faucet ε _) := .invoke hc
  have pay (now createdAt : ℤ) (w : Uuid) :
      Atomic (S := satsPay faucetExt) claimFails (fun _ => False)
        (payClaim (minutes cooldownMinutes) now createdAt req w) := by
    refine .bind (call .newClaimId (fun h => h)) fun i => .bind (.query _) fun _ => ?_
    refine .bind ((tentative_debitHouse (.query _) _ _ _ _ _ _).mapErr _) fun _ => ?_
    refine .bind ((tentative_applyLedgerEntry _).mapErr _) fun _ => ?_
    exact .bind ((tentative_award (fun _ => .query _) _ _ _ _).mapErr _) fun _ => .commit_then _
  have check (now : ℤ) (last : Option ℤ) :
      Tentative (S := satsPay faucetExt) claimFails (fun _ => False)
        (checkCooldown (minutes cooldownMinutes) now last) := by
    cases last with
    | none => exact .ret _
    | some t =>
      dsimp only [checkCooldown]
      split
      · exact .throw _
      · exact .ret _
  refine .bind (call .utcNow (fun h => h)) fun now => .transaction ?_
  refine .bind (call .transactionTimestamp (fun h => h)) fun createdAt => ?_
  refine .bind (.query _) fun _ => .bind (tentative_core _) fun walletId => ?_
  cases walletId with
  | none => exact .throw _
  | some w =>
    exact .bind ((tentative_lockWallet w).mapErr _) fun _ => .bind (.query _) fun last =>
      .bind (check now last) fun _ => pay now createdAt w

/-- Claims of one user for one coin are at least the cooldown apart, each is paid by the
house, and one that fails changes nothing. -/
theorem faucetLaw_of_book (faucetIpLockKey : String → Coin → ℤ) {cooldownMinutes : ℤ}
    {db : Db faucetExt} (hb : FaucetBook (minutes cooldownMinutes) (faucetSee db)) :
    FaucetLaw faucetIpLockKey cooldownMinutes db where
  book w hw := by
    have hi : FaucetInv (minutes cooldownMinutes) db.core.wallets db.ext.1.house
        (faucetSee w.conf.s.db) := by
      refine RowProtocol.inv_of_steps
        (R := (faucetPlan (minutes cooldownMinutes) db.core.wallets db.ext.1.house).rows) ?_
        ⟨rfl, rfl, hb⟩ hw
      rintro c ⟨req⟩ p
      exact .conseq (triple_serveClaim faucetIpLockKey rfl req) (fun _ _ h => ⟨h.1, trivial⟩)
        fun _ _ _ _ => trivial
    exact hi.book
  failed := by
    have hmain : ∀ c, Claims faucetIpLockKey cooldownMinutes c →
        c.Heeds (ReadCommitted.Orderly (S := satsPay faucetExt) claimFails fun _ => False) [] := by
      rintro c ⟨req⟩
      exact heeds_request (atomic_claim faucetIpLockKey cooldownMinutes req) fun _ h => h
    exact failedAside hmain fun _ _ _ _ h => h.elim

def faucetStart : Db faucetExt where
  core := {
    now := 0
    wallets := ((∅ : Table Wallet).insert 1 ⟨1, .btc, .personal, none⟩).insert 2
      ⟨9, .btc, .house, none⟩
    ledger := [⟨2, 5, .adjustment, none, none, none, none⟩]
    jobs := ∅
    outbox := []
    auditLogs := [] }
  ext := (⟨∅, some 9⟩, ⟨∅, [], ∅⟩)

def bitcoinClaim : ClaimRequest := ⟨1, .btc, "192.0.2.1"⟩

def faucetReplies (now : ℤ) (id : Uuid) : (c : faucetExt.Call) → faucetExt.Reply c
  | .inl .utcNow => now
  | .inl .transactionTimestamp => now
  | .inl .newClaimId => id
  | .inl (.answer _) => ()

def atMost (t now : ℤ) : Bool := decide (now ≤ t)

/-- The event is no reading of the clock after this time. -/
def readsBefore (t : ℤ) : FaucetEvent → Bool
  | .did _ (.call (.inl .utcNow)) now => atMost t now
  | _ => true

def faucetRunner : Runner (satsPay faucetExt) where
  bound := 3
  progs := [serveClaim (fun _ _ => 0) 60 bitcoinClaim]
  tick := Db.wait
  allow c e := match e with
    | .did _ (.call (.inl .transactionTimestamp)) t => c.hist.all (readsBefore t)
    | _ => true

/-- A claim, another one too soon, whose clock is read while the first is under way, and a third
an hour after the first. -/
def faucetScript : List (Act (satsPay faucetExt)) :=
  let first : Act (satsPay faucetExt) := .op 0 (.answer (faucetReplies 100 7))
  let second : Act (satsPay faucetExt) := .op 1 (.answer (faucetReplies 200 8))
  let third : Act (satsPay faucetExt) := .op 2 (.answer (faucetReplies (minutes 60 + 100) 8))
  [.start 0 0, first] ++ proceed 0 1 ++ [first] ++ proceed 0 4 ++ [first, .start 1 0, second] ++
    proceed 0 13 ++ [first, .finish 0] ++ proceed 1 1 ++ [second] ++ proceed 1 5 ++
    [second, .finish 1, .start 2 0, third] ++ proceed 2 1 ++ [third] ++ proceed 2 4 ++ [third] ++
    proceed 2 13 ++ [third, .finish 2]

def waits (nextClaimAt : ℤ) : FaucetEvent → Bool
  | .did _ (.call (.inl (.answer (.error (.cooldown t))))) _ => t == nextClaimAt
  | _ => false

theorem clocksAgree_of_allow (c : Conf (machine (satsPay faucetExt))) (e : FaucetEvent)
    (h : faucetRunner.allow c e = true) : ClocksAgree c.hist e := by
  rintro p t now rfl hm
  exact of_decide_eq_true (List.all_eq_true.1 h _ hm)

theorem faucetLaw_bitcoin : FaucetLaw (fun _ _ => 0) 60 faucetStart ∧
    ∃ w, Run (Claims (fun _ _ => 0) 60) (fun c e => ClocksAgree c.hist e) faucetStart w ∧
      w.conf.s.db.ext.1.claimTimes 1 .btc = [minutes 60 + 100, 100] ∧
      w.conf.hist.any (waits (minutes 60 + 100)) = true ∧
      w.conf.s.db.core.balance 1 = 2 ∧ w.conf.s.db.core.balance 2 = 3 := by
  refine ⟨faucetLaw_of_book _ ⟨fun id => ?_, ?_⟩, ?_⟩
  · rfl
  · rintro i j c d - ⟨⟩
  · have hrun : (faucetRunner.run faucetScript (.init _ (.start faucetStart))).map
        (fun w => (w.conf.s.db.ext.1.claimTimes 1 .btc, w.conf.hist.any (waits (minutes 60 + 100)),
          w.conf.s.db.core.balance 1, w.conf.s.db.core.balance 2)) =
        some ([minutes 60 + 100, 100], true, 2, 3) := by
      decide +kernel
    obtain ⟨w, hw, hl⟩ := Option.map_eq_some_iff.1 hrun
    refine ⟨w, Runner.steps_of_run (R := faucetRunner) ?_ Db.tick_wait clocksAgree_of_allow
      (fun _ _ => rfl) hw, by simpa only [Prod.mk.injEq] using hl⟩
    simpa [faucetRunner] using Claims.claim bitcoinClaim

end SatsPay
