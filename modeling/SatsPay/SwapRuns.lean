import SatsPay.StakeRuns
import SatsPay.Swaps
import SatsPay.TxWrites

/-!
# Runs of the swaps

However swaps of the same keys interleave, each key swaps once. A swap has four entries, which
come to nothing in each coin, at prices that were read when they were fresh; nobody's swap is
changed, and nobody is answered the swap of another.
-/

namespace SatsPay

open Interleave ReadCommitted RowProtocol

abbrev SwapHist := Hist (sig (satsPay swapExt))
abbrev SwapEvent := Event (sig (satsPay swapExt))
abbrev SwapView := RefView swapTables

/-! ## The book of swaps -/

/-- The entries of a swap, newest first: in the wallets of its user, and in those of the house. -/
def SwapRecord.lines (fromW toW fromH toH : Uuid) (r : SwapRecord) : List EntryLine :=
  [(toW, r.toAmount, .swapIn), (toH, -r.toAmount, .swapOut), (fromH, r.fromAmount, .swapIn),
    (fromW, -r.fromAmount, .swapOut)]

def SwapKept (wallets : Table Wallet) (house : Option Uuid) : Uuid → Option SwapRecord →
    List LedgerEntry → Prop
  | _, none, l => l = []
  | _, some r, l => ∃ fromW toW fromH toH,
      walletIn wallets r.userId r.fromCoin .personal = some fromW ∧
      walletIn wallets r.userId r.toCoin .personal = some toW ∧
      house.bind (walletIn wallets · r.fromCoin .house) = some fromH ∧
      house.bind (walletIn wallets · r.toCoin .house) = some toH ∧
      l.map LedgerEntry.line = r.lines fromW toW fromH toH

def SwapBook (v : SwapView) : Prop := Tallied SwapDb.swapOf (SwapKept v.wallets v.part.house) v

abbrev swapSee (db : Db swapExt) : SwapView := refSee "Swap" db

def netOf (wallets : Table Wallet) (coin : Coin) (lines : List EntryLine) : ℤ :=
  ((lines.filter fun x => (wallets.lookup x.1).any (·.coin == coin)).map fun x => x.2.1).sum

def SwapView.net (v : SwapView) (coin : Coin) : ℤ :=
  netOf v.wallets coin (v.entries.map LedgerEntry.line)

def SwapDb.Distinct (db : SwapDb) : Prop :=
  db.swaps.Pairwise fun a b => a.1 ≠ b.1 ∧
    ∀ key, a.2.idempotencyKey = some key → b.2.idempotencyKey ≠ some key

def SwapRecord.Scoped (r : SwapRecord) : Prop :=
  ∀ key, r.idempotencyKey = some key → ∃ k, key = scopedKey r.userId k

/-! ## The law -/

/-- Someone has read the price, and a clock at which it was not older than `maxStale`. -/
def PriceSeen (maxStale : ℕ) (h : SwapHist) (coin : Coin) (price : ℕ × ℕ) : Prop :=
  ∃ p r now, .did p (.pool (.ext (.inl (.price coin)))) (.ok (some r)) ∈ h ∧
    .did p (.call (.inl .utcNow)) now ∈ h ∧ openPrice coin maxStale now r = .ok price

def Quoted (maxStale : ℕ) (fromCoin toCoin : Coin) (fromAmount : ℕ) (q : SwapQuote)
    (h : SwapHist) : Prop :=
  fromCoin ≠ toCoin ∧ PriceSeen maxStale h fromCoin (q.priceFrom, q.priceDecimals) ∧
    (∃ d, PriceSeen maxStale h toCoin (q.priceTo, d)) ∧
    computeSwap fromCoin toCoin fromAmount q.priceFrom q.priceTo swapFeeBps q.priceDecimals =
      some (.ok q)

def SwapRecord.quote (r : SwapRecord) : SwapQuote :=
  ⟨r.fromAmount, r.toAmount, r.feeAmount, r.feeBps, r.priceFrom, r.priceTo, r.priceDecimals⟩

def SwapPriced (maxStale : ℕ) (r : SwapRecord) (h : SwapHist) : Prop :=
  0 < r.toAmount ∧ Quoted maxStale r.fromCoin r.toCoin r.fromAmount r.quote h

/-- The answer is the swap of the request's key, as it is read back, or as it was asked for. -/
structure Answers (req : SwapRequest) (row : SwapRow) (fresh : Bool) (r : SwapRecord) : Prop where
  user : r.userId = req.userId
  key : r.idempotencyKey = some req.scopedKey
  replayed : fresh = false → row = readSwap (row.id, r)
  asked : fresh = true → row = ⟨row.id, r.fromAmount, r.toAmount, r.feeAmount⟩ ∧
    r.fromCoin = req.fromCoin ∧ r.toCoin = req.toCoin ∧ r.fromAmount = req.fromAmount ∧
    ∀ least, req.minToAmount = some least → least ≤ r.toAmount

def swapFails : swapExt.Call → Prop
  | .inl (.answer _ (.error _)) => True
  | _ => False

section
variable (maxStale : ℕ)

abbrev SwapRun (db : Db swapExt) (w : World (machine (satsPay swapExt))) : Prop :=
  Run (SwapProcess maxStale) (anyStep _) db w

abbrev SwapSteps : World (machine (satsPay swapExt)) → World (machine (satsPay swapExt)) → Prop :=
  Steps (machine (satsPay swapExt)) (SwapProcess maxStale) (anyStep _)

structure SwapLaw (db : Db swapExt) : Prop where
  /-- Every swap has its four entries, and there are no others. -/
  settled : ∀ w, SwapRun maxStale db w → SwapBook (swapSee w.conf.s.db)
  /-- Of no coin is there more for all the swaps, or less. -/
  conserved : ∀ w coin, SwapRun maxStale db w →
    (swapSee w.conf.s.db).net coin = (swapSee db).net coin
  /-- A key swaps once. -/
  once : ∀ w i j r s key, SwapRun maxStale db w → w.conf.s.db.ext.1.swapOf i = some r →
    w.conf.s.db.ext.1.swapOf j = some s → r.idempotencyKey = some key →
    s.idempotencyKey = some key → i = j
  kept : ∀ w w' id r, SwapRun maxStale db w → SwapSteps maxStale w w' →
    w.conf.s.db.ext.1.swapOf id = some r → w'.conf.s.db.ext.1.swapOf id = some r
  /-- A new swap is quoted at prices that were seen, at which what it takes from the house, with
  the fee, is worth no more than what it brings. -/
  priced : ∀ w id r, SwapRun maxStale db w → w.conf.s.db.ext.1.swapOf id = some r →
    db.ext.1.swapOf id = some r ∨ (SwapPriced maxStale r w.conf.hist ∧
      (r.toAmount + r.feeAmount) * (r.priceTo * 10 ^ r.fromCoin.decimals) ≤
        r.fromAmount * r.priceFrom * 10 ^ r.toCoin.decimals)
  answered : ∀ w p req row fresh, SwapRun maxStale db w →
    .did p (.call (.inl (.answer req (.ok (row, fresh))))) () ∈ w.conf.hist →
    ∃ r, w.conf.s.db.ext.1.swapOf row.id = some r ∧ Answers req row fresh r
  /-- Whoever asks twice under a key is answered the same swap. -/
  same : ∀ w p p' req req' row row' fresh fresh', SwapRun maxStale db w →
    .did p (.call (.inl (.answer req (.ok (row, fresh))))) () ∈ w.conf.hist →
    .did p' (.call (.inl (.answer req' (.ok (row', fresh'))))) () ∈ w.conf.hist →
    req.userId = req'.userId → req.idempotencyKey = req'.idempotencyKey → row.id = row'.id
  failed : FailedAside (SwapProcess maxStale) (anyStep _) swapFails db

end

/-! ## Rules -/

namespace Plan

section
variable {X : Ext} {F : Focus X}
variable {cond : Db X → Hist (sig (satsPay X)) → Event (sig (satsPay X)) → Prop}
variable {P : Plan F cond} {p : Nat} {f : F.View → F.View} {A : KeyAssertion X} {B : Assertion X}
variable {ε α β : Type}

theorem knows_of_mono {K : Hist (sig (satsPay X)) → Prop} (hK : ∀ h l, K h → K (l ++ h)) :
    P.Knows p K where
  stable := by
    rintro db h db' _ hk - ⟨l, rfl, -⟩ -
    exact hK h l hk
  own _ h e _ _ hk := hK h [e] hk

/-- A call outside of a transaction, which is remembered. -/
theorem triple_invoke_seen (hB : P.rows.Framed p B) (cl : X.Call)
    (hq : ∀ r, P.quiet (.did p (.call cl) r)) :
    P.Keeping p (Idle p B) (invoke (S := satsPay X) cl : Code (satsPay X) ε _)
      (outcome (fun r => Idle p fun db h =>
        B db h ∧ (Event.did p (.call cl) r : Event (sig (satsPay X))) ∈ h) fun _ => Idle p B) := by
  refine .conseq (triple_invoke (S := satsPay X) cl
    (fun r => (hB.and (knows_seen (P := P) (.did p (.call cl) r))).stable) ?_)
    (fun _ _ h => h) fun r _ _ h => ?_
  · intro db h r hi hb _
    exact ⟨⟨P.inv_quiet (hq r) hi, fun q hne => ⟨fun _ => rfl,
      P.rel_quiet (hq r) hi (by simpa using Ne.symm hne)⟩⟩, hB.own _ _ _ (hq r) rfl hb,
      List.mem_cons_self⟩
  · cases r with
    | ok a => exact h
    | error e => exact h.elim

/-- A step of a transaction, where what holds after it depends on its result. -/
theorem bind_to {x : Code (satsPay X) ε α} {g : α → Code (satsPay X) ε β}
    {S : Conf (machine (satsPay X)) → Prop} {T : α → Conf (machine (satsPay X)) → Prop}
    {Q : Except ε β → Assertion X}
    (hx : P.Keeping p S x (outcome T fun _ => InTx p fun _ => A))
    (hg : ∀ a, P.Keeping p (T a) (g a) fun r => Over (Q r))
    (hA : ∀ e ks db h, A ks db h → Q (.error e) db h) :
    P.Keeping p S (x >>= g) fun r => Over (Q r) :=
  Protocol.Triple.bind hx hg fun e _ _ ⟨_, _, h⟩ => hA e _ _ _ h

theorem Learns.to {x : Code (satsPay X) ε α} {φ : α → Prop} {g : α → Code (satsPay X) ε β}
    {Q : Except ε β → Assertion X} (hx : P.Learns p f x φ) (hA : P.Keeps p A)
    (hAQ : ∀ e ks db h, A ks db h → Q (.error e) db h)
    (hg : ∀ a, φ a → P.Keeping p (InTx p (Eff F f A)) (g a) fun r => Over (Q r)) :
    P.Keeping p (InTx p (Eff F f A)) (x >>= g) fun r => Over (Q r) :=
  bind_to (hx A hA) (fun a => of_fact (hg a)) hAQ

variable [FromErr DbError ε]

/-- A statement of its own that only reads: its answer is remembered, with what it says. -/
theorem triple_pool_seen (st : Stmt X) (hst : ∀ input, st ≠ .core (.insertLedgerEntry input))
    (hr : ∀ db a ws, .ok (a, ws) ∈ (satsPay X).eval st db → ws = [])
    (hq : ∀ r, P.quiet (.did p (.pool st) r)) (hB : P.rows.Framed p B) {φ : st.Ans → Assertion X}
    (hφ : ∀ a, P.rows.Framed p (φ a))
    (hok : ∀ db h a, P.inv (F.see db) h → .ok (a, []) ∈ (satsPay X).eval st db → φ a db h) :
    P.Keeping p (Idle p B) (poolQuery st : Code (satsPay X) ε _)
      (outcome (fun a => Idle p fun db h =>
        (B db h ∧ φ a db h) ∧ (Event.did p (.pool st) (.ok a) : Event (sig (satsPay X))) ∈ h)
        fun _ => Idle p B) := by
  refine triple_pool st hst
    (fun a => ((hB.and (hφ a)).and (knows_seen (P := P) (.did p (.pool st) (.ok a)))).stable)
    hB.stable ?_ ?_
  · intro db h a ws hi hb he _
    obtain rfl := hr db a ws he
    exact ⟨⟨P.inv_quiet (hq _) hi, fun q hne => P.rel_quiet (hq _) hi (by simpa using Ne.symm hne)⟩,
      ⟨hB.own _ _ _ (hq _) rfl hb, (hφ a).own _ _ _ (hq _) rfl (hok db h a hi he)⟩,
      List.mem_cons_self⟩
  · intro db h e hi hb _
    exact ⟨⟨P.inv_quiet (hq _) hi, fun q hne => P.rel_quiet (hq _) hi
      (by simpa using Ne.symm hne)⟩, hB.own db _ _ (hq _) rfl hb⟩

end

end Plan

/-! ## The plan -/

section
variable (maxStale : ℕ) (old : SwapView)

structure SwapInv (v : SwapView) (h : SwapHist) : Prop where
  wallets : v.wallets = old.wallets
  house : v.part.house = old.part.house
  book : SwapBook v
  distinct : v.part.Distinct
  owned : ∀ id r, v.part.swapOf id = some r → r.Scoped
  net : ∀ coin, v.net coin = old.net coin
  priced : ∀ id r, v.part.swapOf id = some r → old.part.swapOf id = some r ∨ SwapPriced maxStale r h
  answered : ∀ p req row fresh, .did p (.call (.inl (.answer req (.ok (row, fresh))))) () ∈ h →
    ∃ r, v.part.swapOf row.id = some r ∧ Answers req row fresh r

def SwapRel (v v' : SwapView) : Prop := ∀ id r, v.part.swapOf id = some r → v'.part.swapOf id = some r

def SwapQuiet : SwapEvent → Prop
  | .did _ (.call (.inl (.answer _ (.ok _)))) _ => False
  | _ => True

variable {maxStale old}

theorem PriceSeen.mono {h : SwapHist} {coin : Coin} {price : ℕ × ℕ} (l : SwapHist) :
    PriceSeen maxStale h coin price → PriceSeen maxStale (l ++ h) coin price := by
  rintro ⟨p, r, now, hr, hn, ho⟩
  exact ⟨p, r, now, List.mem_append_right _ hr, List.mem_append_right _ hn, ho⟩

theorem Quoted.mono {fromCoin toCoin : Coin} {fromAmount : ℕ} {q : SwapQuote} {h : SwapHist}
    (l : SwapHist) (hq : Quoted maxStale fromCoin toCoin fromAmount q h) :
    Quoted maxStale fromCoin toCoin fromAmount q (l ++ h) := by
  obtain ⟨hne, hf, ⟨d, ht⟩, hc⟩ := hq
  exact ⟨hne, hf.mono l, ⟨d, ht.mono l⟩, hc⟩

theorem SwapPriced.mono {r : SwapRecord} {h : SwapHist} (l : SwapHist) (hr : SwapPriced maxStale r h) :
    SwapPriced maxStale r (l ++ h) := ⟨hr.1, hr.2.mono l⟩

theorem SwapInv.quiet {v : SwapView} {h : SwapHist} {e : SwapEvent} (he : SwapQuiet e)
    (hv : SwapInv maxStale old v h) : SwapInv maxStale old v (e :: h) where
  wallets := hv.wallets
  house := hv.house
  book := hv.book
  distinct := hv.distinct
  owned := hv.owned
  net := hv.net
  priced id r hr := (hv.priced id r hr).imp_right (·.mono [e])
  answered p req row fresh hm := by
    rcases List.mem_cons.1 hm with hm | hm
    · subst hm
      exact he.elim
    · exact hv.answered p req row fresh hm

abbrev swapFocus : Focus swapExt := refFocus swapTables noExt "Swap"

variable (maxStale old)

def swapPlan : Plan swapFocus fun _ _ _ => True where
  inv := SwapInv maxStale old
  rel _ v _ v' _ := SwapRel v v'
  done _ _ _ := True
  quiet := SwapQuiet
  rel_refl _ _ _ _ _ h := h
  rel_trans _ _ _ _ _ _ _ a b id r h := b id r (a id r h)
  quiet_begin _ _ := trivial
  quiet_rollback _ := trivial
  quiet_tx _ _ _ := trivial
  quiet_commit _ _ := trivial
  inv_quiet := SwapInv.quiet
  rel_quiet _ _ _ _ _ h := h
  finish h _ _ := ⟨h.quiet trivial, fun _ _ _ _ h => h⟩
  crash h _ := ⟨h.quiet trivial, fun _ _ _ _ h => h⟩
  tick h _ := ⟨h.quiet trivial, fun _ _ _ h => h⟩

end

/-! ## Rows -/

theorem SwapDb.Distinct.swapOf_iff {db : SwapDb} (h : db.Distinct) {id : Uuid} {r : SwapRecord} :
    db.swapOf id = some r ↔ (id, r) ∈ db.swaps := by
  unfold SwapDb.Distinct at h
  unfold SwapDb.swapOf
  generalize db.swaps = rows at h ⊢
  induction rows with
  | nil => simp
  | cons a l ih =>
    obtain ⟨ha, hl⟩ := List.pairwise_cons.1 h
    obtain ⟨i, s⟩ := a
    by_cases e : i = id
    · subst e
      rw [List.find?_cons_of_pos (by simp)]
      constructor
      · intro hr
        obtain rfl := Option.some.inj hr
        exact List.mem_cons_self
      · intro hm
        rcases List.mem_cons.1 hm with hm | hm
        · exact congrArg (some ∘ Prod.snd) hm.symm
        · exact absurd rfl (ha _ hm).1
    · rw [List.find?_cons_of_neg (by simpa using e), ih hl]
      refine ⟨List.mem_cons_of_mem _, fun hm => ?_⟩
      rcases List.mem_cons.1 hm with hm | hm
      · exact absurd (congrArg Prod.fst hm).symm e
      · exact hm

theorem SwapDb.Distinct.once {db : SwapDb} (h : db.Distinct) {i j : Uuid} {r s : SwapRecord}
    {key : String} (hi : db.swapOf i = some r) (hj : db.swapOf j = some s)
    (hr : r.idempotencyKey = some key) (hs : s.idempotencyKey = some key) : i = j := by
  have hi := h.swapOf_iff.1 hi
  have hj := h.swapOf_iff.1 hj
  by_contra hne
  refine List.Pairwise.forall_of_forall_of_flip (R := fun a b : Uuid × SwapRecord => a ≠ b →
    ∀ key, a.2.idempotencyKey = some key → b.2.idempotencyKey ≠ some key) (by simp)
    (h.imp fun hab _ => hab.2) (h.imp fun hab _ key hb ha => hab.2 key ha hb) hi hj
    (fun e => hne (congrArg Prod.fst e)) key hr hs

theorem byKey_spec {db : SwapDb} (h : db.Distinct) {key : String} {row : Uuid × SwapRecord}
    (hk : db.byKey key = some row) :
    db.swapOf row.1 = some row.2 ∧ row.2.idempotencyKey = some key :=
  ⟨h.swapOf_iff.2 (List.mem_of_find?_eq_some hk), by simpa using List.find?_some hk⟩

theorem SwapDb.Distinct.add {db : SwapDb} (h : db.Distinct) {id : Uuid} {r : SwapRecord}
    (hid : db.swapOf id = none) (hkey : r.idempotencyKey.bind db.byKey = none) :
    ((SwapWrite.addSwap id r).apply db).Distinct := by
  refine List.pairwise_cons.2 ⟨fun b hb => ⟨?_, fun key hr hs => ?_⟩, h⟩
  · rintro rfl
    rw [h.swapOf_iff.2 hb] at hid
    cases hid
  · rw [hr] at hkey
    have hnone := List.find?_eq_none.1 hkey b hb
    simp [hs] at hnone

/-! ## One swap -/

section
variable {maxStale : ℕ} {old : SwapView} {p : Nat}

def putSwap (id : Uuid) (r : SwapRecord) (v : SwapView) : SwapView :=
  RefView.write (A := swapTables) (.addSwap id r) v

theorem swapOf_put (id : Uuid) (r : SwapRecord) (v : SwapView) (j : Uuid) :
    (putSwap id r v).part.swapOf j = if j = id then some r else v.part.swapOf j :=
  swapOf_add id r v.part j

theorem netOf_append (wallets : Table Wallet) (coin : Coin) (l l' : List EntryLine) :
    netOf wallets coin (l ++ l') = netOf wallets coin l + netOf wallets coin l' := by
  simp [netOf]

/-- In no coin does a swap come to anything. -/
theorem netOf_lines {wallets : Table Wallet} {house : Option Uuid} {id : Uuid} {r : SwapRecord}
    {l : List LedgerEntry} (h : SwapKept wallets house id (some r) l) (coin : Coin) :
    netOf wallets coin (l.map LedgerEntry.line) = 0 := by
  obtain ⟨fromW, toW, fromH, toH, hfw, htw, hfh, hth, hl⟩ := h
  obtain ⟨_, -, hfh⟩ := Option.bind_eq_some_iff.1 hfh
  obtain ⟨_, -, hth⟩ := Option.bind_eq_some_iff.1 hth
  obtain ⟨w₁, h₁, -, c₁, -⟩ := lookup_of_walletIn hfw
  obtain ⟨w₂, h₂, -, c₂, -⟩ := lookup_of_walletIn htw
  obtain ⟨w₃, h₃, -, c₃, -⟩ := lookup_of_walletIn hfh
  obtain ⟨w₄, h₄, -, c₄, -⟩ := lookup_of_walletIn hth
  rw [hl]
  by_cases hf : r.fromCoin = coin <;> by_cases ht : r.toCoin = coin <;>
    simp [netOf, SwapRecord.lines, h₁, h₂, h₃, h₄, c₁, c₂, c₃, c₄, hf, ht]

/-- A swap that is new, with its entries. -/
theorem swapInv_put {v v' : SwapView} {h : SwapHist} (hv : SwapInv maxStale old v h) {id : Uuid}
    {r : SwapRecord} {added : List LedgerEntry} (hid : v.part.swapOf id = none)
    (hkey : r.idempotencyKey.bind v.part.byKey = none) (howned : r.Scoped)
    (hpriced : SwapPriced maxStale r h) (hwallets : v'.wallets = v.wallets)
    (hpart : v'.part = (putSwap id r v).part) (hentries : v'.entries = added ++ v.entries)
    (hadded : ∀ e ∈ added, e.referenceId = some id)
    (hkept : SwapKept old.wallets old.part.house id (some r) added) :
    SwapInv maxStale old v' h where
  wallets := hwallets.trans hv.wallets
  house := by rw [hpart]; exact hv.house
  book := by
    have hbook := hv.book
    have hnone := hbook id
    have hhouse : v'.part.house = v.part.house := by rw [hpart]; rfl
    unfold SwapBook at hbook ⊢
    rw [hwallets, hhouse]
    refine hbook.step (fun j hj => ?_) hentries hadded ?_
    · rw [hpart, swapOf_put, if_neg hj]
    · rw [hid] at hnone
      rw [hpart, swapOf_put, if_pos rfl, hv.wallets, hv.house, hnone, List.append_nil]
      exact hkept
  distinct := by rw [hpart]; exact hv.distinct.add hid hkey
  owned j s hs := by
    rw [hpart, swapOf_put] at hs
    split at hs
    · cases hs
      exact howned
    · exact hv.owned j s hs
  net coin := by
    have hnet := hv.net coin
    unfold SwapView.net at hnet ⊢
    rw [hv.wallets] at hnet
    rw [hwallets, hentries, List.map_append, netOf_append, hv.wallets, netOf_lines hkept,
      Int.zero_add]
    exact hnet
  priced j s hs := by
    rw [hpart, swapOf_put] at hs
    split at hs
    · cases hs
      exact .inr hpriced
    · exact hv.priced j s hs
  answered q req row fresh hm := by
    obtain ⟨s, hs, ha⟩ := hv.answered q req row fresh hm
    refine ⟨s, ?_, ha⟩
    rw [hpart, swapOf_put, if_neg ?_]
    · exact hs
    · rintro rfl
      rw [hid] at hs
      cases hs

theorem swapRel_put {v v' : SwapView} {id : Uuid} {r : SwapRecord} (hid : v.part.swapOf id = none)
    (hpart : v'.part = (putSwap id r v).part) : SwapRel v v' := by
  intro j s hs
  rw [hpart, swapOf_put, if_neg ?_]
  · exact hs
  · rintro rfl
    rw [hid] at hs
    cases hs

theorem swapRel_rows {v v' : SwapView} (hrows : v'.part.swaps = v.part.swaps) : SwapRel v v' := by
  intro id r hr
  simpa only [SwapDb.swapOf, hrows] using hr

/-- What the prices are is of no account. -/
theorem swapInv_prices {v v' : SwapView} {h : SwapHist} (hv : SwapInv maxStale old v h)
    (hwallets : v'.wallets = v.wallets) (hhouse : v'.part.house = v.part.house)
    (hrows : v'.part.swaps = v.part.swaps) (hentries : v'.entries = v.entries) :
    SwapInv maxStale old v' h where
  wallets := hwallets.trans hv.wallets
  house := hhouse.trans hv.house
  book id := by
    have h := hv.book id
    simp only [SwapDb.swapOf, RefView.entriesOf] at h ⊢
    rw [hrows, hentries, hwallets, hhouse]
    exact h
  distinct := by unfold SwapDb.Distinct; rw [hrows]; exact hv.distinct
  owned id r hr := hv.owned id r (by simpa only [SwapDb.swapOf, hrows] using hr)
  net coin := by unfold SwapView.net; rw [hentries, hwallets]; exact hv.net coin
  priced id r hr := hv.priced id r (by simpa only [SwapDb.swapOf, hrows] using hr)
  answered q req row fresh hm := by
    simpa only [SwapDb.swapOf, hrows] using hv.answered q req row fresh hm

/-! ## Quotes -/

abbrev SwapAssertion := SwapDb → SwapHist → Prop

theorem knows_priceSeen (coin : Coin) (price : ℕ × ℕ) :
    (swapPlan maxStale old).Knows p fun h => PriceSeen maxStale h coin price :=
  Plan.knows_of_mono fun _ l h => h.mono l

theorem knows_quoted (fromCoin toCoin : Coin) (fromAmount : ℕ) (q : SwapQuote) :
    (swapPlan maxStale old).Knows p (Quoted maxStale fromCoin toCoin fromAmount q) :=
  Plan.knows_of_mono fun _ l h => h.mono l

theorem swapEval_one (st : SwapStmt) {a b : st.Ans} {db : Db swapExt} {ws : List (Write swapExt)}
    (h : st.eval db.core db.ext.1 = [.ok (a, [])])
    (he : .ok (b, ws) ∈ (satsPay swapExt).eval (.ext (.inl st)) db) : b = a ∧ ws = [] := by
  obtain ⟨ws₁, h₁, rfl⟩ := ext_eval_ok he
  obtain ⟨ws₂, h₂, rfl⟩ := Ext.sumEval_inl h₁
  replace h₂ : .ok (b, ws₂) ∈ st.eval db.core db.ext.1 := h₂
  rw [h] at h₂
  cases List.mem_singleton.1 h₂
  exact ⟨rfl, rfl⟩

theorem triple_getSwapPrice (coin : Coin) {B : Assertion swapExt}
    (hB : (swapPlan maxStale old).rows.Framed p B) :
    (swapPlan maxStale old).Keeping p (Idle p B) (getSwapPrice coin maxStale)
      (outcome (fun price => Idle p fun db h => B db h ∧ PriceSeen maxStale h coin price)
        fun _ => Idle p B) := by
  have read := Plan.triple_pool_seen (P := swapPlan maxStale old) (p := p) (ε := PricingDbError)
    (φ := fun _ _ _ => True) (.ext (.inl (.price coin))) (by rintro input ⟨⟩)
    (fun db a ws h => (swapEval_one (.price coin) rfl h).2) (fun _ => trivial) hB
    (fun _ => framed_true) fun _ _ _ _ _ => trivial
  refine Protocol.Triple.bind read (fun row => ?_) fun _ _ _ h => h
  cases row with
  | none => exact .throw fun _ _ h => ⟨h.1, h.2.1.1⟩
  | some r =>
    have hseen := hB.and (Plan.knows_seen (P := swapPlan maxStale old) (p := p)
      (.did p (.pool (.ext (.inl (.price coin)))) (.ok (some r))))
    have clock := Plan.triple_invoke_seen (ε := PricingDbError) hseen (.inl .utcNow)
      fun _ => trivial
    refine Protocol.Triple.bind (.conseq clock (fun _ _ h => ⟨h.1, h.2.1.1, h.2.2⟩)
      fun _ _ _ h => h) (fun (now : Instant) => ?_) fun _ _ _ h => ?_
    · cases ho : openPrice coin maxStale now r with
      | error e => exact .throw fun _ _ h => ⟨h.1, h.2.1.1⟩
      | ok price => exact .ret fun _ _ h => ⟨h.1, h.2.1.1, p, r, now, h.2.1.2, h.2.2, ho⟩
    · exact ⟨h.1, h.2.1⟩

theorem computeSwap_fields {fromCoin toCoin : Coin} {fromAmount priceFrom priceTo feeBps d : ℕ}
    {q : SwapQuote}
    (h : computeSwap fromCoin toCoin fromAmount priceFrom priceTo feeBps d = some (.ok q)) :
    fromAmount ≠ 0 ∧ q.fromAmount = fromAmount ∧ q.priceFrom = priceFrom ∧ q.priceTo = priceTo ∧
      q.priceDecimals = d ∧
      q.feeAmount = saturate128 (swapFee fromCoin toCoin fromAmount priceFrom priceTo feeBps) ∧
      swapFee fromCoin toCoin fromAmount priceFrom priceTo feeBps ≤
        grossOutput fromCoin toCoin fromAmount priceFrom priceTo := by
  unfold computeSwap at h
  split at h
  · cases h
  rename_i ha
  split at h
  · cases h
  dsimp only at h
  split at h
  · cases h
  rename_i hle
  cases h
  exact ⟨ha, rfl, rfl, rfl, rfl, rfl, not_lt.1 hle⟩

/-- What is paid out, with the fee, is worth no more than what comes in. -/
theorem computeSwap_value {fromCoin toCoin : Coin} {fromAmount priceFrom priceTo feeBps d : ℕ}
    {q : SwapQuote}
    (h : computeSwap fromCoin toCoin fromAmount priceFrom priceTo feeBps d = some (.ok q)) :
    (q.toAmount + q.feeAmount) * (priceTo * 10 ^ fromCoin.decimals) ≤
      fromAmount * priceFrom * 10 ^ toCoin.decimals := by
  obtain ⟨-, -, -, -, -, hfee, hle⟩ := computeSwap_fields h
  have hto := (computeSwap_ok h).2
  refine (Nat.mul_le_mul_right _ ?_).trans grossOutput_value_le
  have h₁ := saturate128_le (grossOutput fromCoin toCoin fromAmount priceFrom priceTo -
    swapFee fromCoin toCoin fromAmount priceFrom priceTo feeBps)
  have h₂ := saturate128_le (swapFee fromCoin toCoin fromAmount priceFrom priceTo feeBps)
  omega

theorem triple_swapQuote (fromCoin toCoin : Coin) (fromAmount : ℕ) {B : Assertion swapExt}
    (hB : (swapPlan maxStale old).rows.Framed p B) :
    (swapPlan maxStale old).Keeping p (Idle p B) (swapQuote fromCoin toCoin fromAmount maxStale)
      (outcome (fun q => Idle p fun db h => B db h ∧ Quoted maxStale fromCoin toCoin fromAmount q h)
        fun _ => Idle p B) := by
  unfold swapQuote
  split
  · exact .throw fun _ _ h => h
  rename_i hne
  refine Protocol.Triple.bind (triple_mapErr (triple_getSwapPrice fromCoin hB) fun _ _ h => h)
    (fun from_ => ?_) fun _ _ _ h => h
  have second : (swapPlan maxStale old).Keeping p
      (Idle p fun db h => B db h ∧ PriceSeen maxStale h fromCoin from_)
      ((getSwapPrice toCoin maxStale).mapErr SwapServiceError.pricing)
      (outcome (fun to_ => Idle p fun db h =>
        (B db h ∧ PriceSeen maxStale h fromCoin from_) ∧ PriceSeen maxStale h toCoin to_)
        fun _ => Idle p B) :=
    triple_mapErr (triple_getSwapPrice toCoin (hB.and (knows_priceSeen fromCoin from_)))
      fun _ _ h => ⟨h.1, h.2.1⟩
  refine Protocol.Triple.bind second (fun to_ => ?_) fun _ _ _ h => h
  split
  · exact .throw fun _ _ h => ⟨h.1, h.2.1.1⟩
  · exact .throw fun _ _ h => ⟨h.1, h.2.1.1⟩
  · rename_i q hq
    obtain ⟨-, -, hf, ht, hd, -⟩ := computeSwap_fields hq
    refine .ret fun _ _ h => ⟨h.1, h.2.1.1, hne, ?_, ⟨to_.2, ?_⟩, ?_⟩
    · rw [hf, hd]
      exact h.2.1.2
    · rw [ht]
      exact h.2.2
    · rw [hf, ht, hd]
      exact hq

/-! ## What is answered -/

def AnsweredBy (req : SwapRequest) (row : SwapRow) (fresh : Bool) : Assertion swapExt :=
  fun db _ => ∃ r, (swapSee db).part.swapOf row.id = some r ∧ Answers req row fresh r

def SwapMade {ε : Type} (req : SwapRequest) (r : Except ε (Option (SwapRow × Bool))) :
    Assertion swapExt :=
  fun db h => ∀ row fresh, r = .ok (some (row, fresh)) → AnsweredBy req row fresh db h

theorem framed_answeredBy (req : SwapRequest) (row : SwapRow) (fresh : Bool) :
    (swapPlan maxStale old).rows.Framed p (AnsweredBy req row fresh) where
  stable _ _ _ _ ha hr _ _ := by
    obtain ⟨r, hs, ha⟩ := ha
    exact ⟨r, hr.2 _ _ hs, ha⟩
  own _ _ _ _ _ ha := ha

theorem framed_made {ε : Type} (req : SwapRequest) (r : Except ε (Option (SwapRow × Bool))) :
    (swapPlan maxStale old).rows.Framed p (SwapMade req r) where
  stable db h db' h' ha hr he hi row fresh hrow :=
    (framed_answeredBy req row fresh).stable db h db' h' (ha row fresh hrow) hr he hi
  own _ _ _ _ _ ha := ha

theorem made_error {ε : Type} {req : SwapRequest} {e : ε} {db : Db swapExt} {h : SwapHist} :
    SwapMade req (.error e) db h := by
  intro row fresh he
  cases he

theorem made_none {ε : Type} {req : SwapRequest} {db : Db swapExt} {h : SwapHist} :
    SwapMade req (.ok none : Except ε _) db h := by
  intro row fresh he
  cases he

theorem made_some {ε : Type} {req : SwapRequest} {row : SwapRow} {fresh : Bool} {db : Db swapExt}
    {h : SwapHist} (ha : AnsweredBy req row fresh db h) :
    SwapMade req (.ok (some (row, fresh)) : Except ε _) db h := by
  intro row' fresh' he
  cases he
  exact ha

/-- The row of a key is its user's. -/
theorem answers_byKey {v : SwapView} {h : SwapHist} (hv : SwapInv maxStale old v h)
    {req : SwapRequest} {found : Uuid × SwapRecord}
    (hk : v.part.byKey req.scopedKey = some found) :
    v.part.swapOf found.1 = some found.2 ∧ Answers req (readSwap found) false found.2 := by
  obtain ⟨hrow, hkey⟩ := byKey_spec hv.distinct hk
  obtain ⟨k, hk'⟩ := hv.owned _ _ hrow _ hkey
  exact ⟨hrow, (scopedKey_inj hk').symm, hkey, fun _ => rfl, fun h => absurd h (by simp)⟩

theorem made_byKey {ε : Type} {req : SwapRequest} {db : Db swapExt} {h : SwapHist}
    (hv : SwapInv maxStale old (swapSee db) h) :
    SwapMade req (.ok (((swapSee db).part.byKey req.scopedKey).map fun row => (readSwap row, false)) :
      Except ε _) db h := by
  intro row fresh he
  obtain ⟨found, hk, hf⟩ := Option.map_eq_some_iff.1 (Except.ok.inj he)
  cases hf
  exact ⟨found.2, answers_byKey hv hk⟩

theorem triple_replaySwap (req : SwapRequest) {B : Assertion swapExt}
    (hB : (swapPlan maxStale old).rows.Framed p B) :
    (swapPlan maxStale old).Keeping p (Idle p B) (replaySwap req.scopedKey)
      (outcome (fun a => Idle p fun db h =>
        B db h ∧ SwapMade req (.ok a : Except SwapServiceError _) db h) fun _ => Idle p B) := by
  have read := Plan.triple_pool_seen (P := swapPlan maxStale old) (p := p) (ε := SwapServiceError)
    (φ := fun a => SwapMade req
      (.ok (Option.map (fun row => (readSwap row, false)) a) : Except SwapServiceError _))
    (.ext (.inl (.findByIdempotencyKey req.scopedKey))) (by rintro input ⟨⟩)
    (fun db a ws h => (swapEval_one (.findByIdempotencyKey _) rfl h).2) (fun _ => trivial) hB
    (fun a => framed_made req _) fun db h a hi he => by
      obtain ⟨rfl, -⟩ := swapEval_one (.findByIdempotencyKey _) rfl he
      exact made_byKey hi
  exact Protocol.Triple.bind read (fun _ => .ret fun _ _ h => ⟨h.1, h.2.1⟩) fun _ _ _ h => h

/-! ## The transaction of a swap -/

abbrev swapKey (k : SwapKey) : Key swapExt := .ext (Sum.inl k)

/-- While its id and its key are locked there is no other swap of them. -/
def Unswapped (id : Uuid) (key : String) (ks : List (Key swapExt)) (db : Db swapExt)
    (_ : SwapHist) : Prop :=
  (swapKey (.row id) ∈ ks ∧ (swapSee db).part.swapOf id = none) ∧
    swapKey (.idempotencyKey key) ∈ ks ∧ (swapSee db).part.byKey key = none

theorem keeps_unswapped (id : Uuid) (key : String) :
    (swapPlan maxStale old).Keeps p (Unswapped id key) :=
  (Plan.keeps_row (swapKey (.row id)) fun row => row = none).and
    (Plan.keeps_row (swapKey (.idempotencyKey key)) fun row => row = none)

theorem learns_swapHouse {f : SwapView → SwapView} (hf : ∀ v, (f v).part.house = v.part.house) :
    (swapPlan maxStale old).Learns p f swapHouse fun a => a = old.part.house :=
  Plan.learns_left (P := swapPlan maxStale old) SwapStmt.findHouse (fun _ _ => rfl) hf
    fun _ _ h => h.house

theorem learns_swapWallet {f : SwapView → SwapView} (hf : ∀ v, (f v).wallets = v.wallets)
    (userId : Uuid) (coin : Coin) :
    (swapPlan maxStale old).Learns p f
      (coreQuery (.walletOf userId coin .personal) : Swapping SwapServiceError _)
      fun a => a = walletIn old.wallets userId coin .personal :=
  Plan.learns_walletOf (P := swapPlan maxStale old) (fun _ _ h => h.wallets) hf userId coin .personal

theorem learns_houseWallet {f : SwapView → SwapView} (hw : ∀ v, (f v).wallets = v.wallets)
    (hf : ∀ v, (f v).part.house = v.part.house) (coin : Coin) :
    (swapPlan maxStale old).Learns p f (getHouseWalletId swapHouse coin)
      fun id => old.part.house.bind (walletIn old.wallets · coin .house) = some id :=
  Plan.learns_getHouseWalletId (P := swapPlan maxStale old) (fun _ _ h => h.wallets) hw
    (learns_swapHouse hf) coin

theorem triple_insertSwap {A : Plan.KeyAssertion swapExt} (hA : (swapPlan maxStale old).Keeps p A)
    {i : Uuid} {r : SwapRecord} {key : String} (hkey : r.idempotencyKey = some key) :
    (swapPlan maxStale old).Keeping p (InTx p (Plan.Eff swapFocus id A))
      (swapQuery (.insertSwap i r) : Swapping DbError Unit)
      (outcome (fun _ => InTx p (Plan.Eff swapFocus (putSwap i r) fun ks db h =>
        A ks db h ∧ Unswapped i key ks db h)) fun _ => InTx p fun _ => A) := by
  have run : (swapPlan maxStale old).Keeping p (InTx p (Plan.Eff swapFocus id A))
      (swapQuery (.insertSwap i r) : Swapping DbError Unit)
      (outcome (fun _ c => ∃ _ : Unit, InTx p (Plan.Eff swapFocus (putSwap i r ∘ id) fun ks db h =>
        A ks db h ∧ Unswapped i key ks db h) c) fun _ => InTx p fun _ => A) := by
    refine Plan.triple_effect (ε := DbError)
      (Stmt.ext (Sum.inl (SwapStmt.insertSwap i r)) : Stmt swapExt) (by rintro input ⟨⟩) hA
      (fun _ _ => hA.and (keeps_unswapped i key)) ?_
    intro ws ks db h a ws' hi hg he
    obtain ⟨ws₁, h₁, rfl⟩ := ext_eval_ok he
    obtain ⟨ws₂, h₂, rfl⟩ := Ext.sumEval_inl h₁
    obtain ⟨hn, hk, rfl⟩ := insertSwap_ok (c := (viewOf ws db).core) h₂
    have hv : (viewOf ws db).ext.1 = (swapSee db).part := congrArg RefView.part hg.see
    rw [hv] at hn hk
    rw [hkey] at hk
    have locks : (Stmt.ext (Sum.inl (SwapStmt.insertSwap i r)) : Stmt swapExt).locks (viewOf ws db) =
        (SwapKey.row i :: r.idempotencyKey.toList.map .idempotencyKey).map swapKey := List.map_map
    refine ⟨(), rfl, hA.mono _ _ _ _ hg.left, ⟨?_, hn⟩, ?_, hk⟩
    · rw [locks]; simp
    · rw [locks, hkey]; simp
  refine .conseq run (fun _ _ h => h) fun r _ _ h => ?_
  cases r with
  | ok _ =>
    obtain ⟨-, h⟩ := h
    exact h
  | error _ => exact h

/-- The four entries. -/
theorem triple_swapEntries {A : Plan.KeyAssertion swapExt} (hA : (swapPlan maxStale old).Keeps p A)
    {i fromW toW : Uuid} {r : SwapRecord} (hf : r.fromAmount ≠ 0) (ht : r.toAmount ≠ 0)
    (hfw : walletIn old.wallets r.userId r.fromCoin .personal = some fromW)
    (htw : walletIn old.wallets r.userId r.toCoin .personal = some toW) :
    (swapPlan maxStale old).Keeping p (InTx p (Plan.Eff swapFocus (putSwap i r) A))
      (swapEntries i fromW toW r)
      (outcome (fun _ c => ∃ added : List LedgerEntry, ((∀ e ∈ added, e.referenceId = some i) ∧
        SwapKept old.wallets old.part.house i (some r) added) ∧
        InTx p (Plan.Eff swapFocus (fun v =>
          { putSwap i r v with entries := added ++ v.entries }) A) c) fun _ => InTx p fun _ => A) := by
  refine Protocol.Triple.bind (Plan.triple_rowEntry hA fromW _ .swapOut i _) (fun _ =>
    Protocol.Triple.of_exists fun n₁ => .of_pure fun h₁ => ?_) fun _ _ _ h => h
  refine Protocol.Triple.bind (Plan.triple_creditHouse hA
    (learns_houseWallet (by intro v; rfl) (by intro v; rfl) r.fromCoin) (by simpa using hf) .swapIn i _)
    (fun _ => Protocol.Triple.of_exists fun fromH => Protocol.Triple.of_exists fun n₂ =>
      .of_pure fun hfh => .of_pure fun h₂ => ?_) fun _ _ _ h => h
  refine Protocol.Triple.bind (Plan.triple_debitHouse hA
    (learns_houseWallet (by intro v; rfl) (by intro v; rfl) r.toCoin) (by simpa using ht) .swapOut i _)
    (fun _ => Protocol.Triple.of_exists fun toH => Protocol.Triple.of_exists fun n₃ =>
      .of_pure fun hth => .of_pure fun h₃ => ?_) fun _ _ _ h => h
  refine .conseq (Plan.triple_rowEntry hA toW _ .swapIn i _) (fun _ _ h => h) fun res c _ h => ?_
  cases res with
  | error _ => exact h
  | ok _ =>
    obtain ⟨n₄, h₄, h⟩ := h
    obtain rfl := numeric39_of_int (m := -(r.fromAmount : ℤ)) (by push_cast; rfl) h₁
    obtain rfl := numeric39_of_int (m := (r.fromAmount : ℤ)) (by push_cast; rfl) h₂
    obtain rfl := numeric39_of_int (m := -(r.toAmount : ℤ)) (by push_cast; rfl) h₃
    obtain rfl := numeric39_of_int (m := (r.toAmount : ℤ)) (by push_cast; rfl) h₄
    refine ⟨[_, _, _, _], ⟨?_, fromW, toW, fromH, toH, hfw, htw, hfh, hth, rfl⟩, h⟩
    simp [referenced, LedgerCreditInput.entry]

structure Agreed (req : SwapRequest) (q : SwapQuote) : Prop where
  from_ne : q.fromAmount ≠ 0
  from_eq : q.fromAmount = req.fromAmount
  to_ne : q.toAmount ≠ 0
  least : ∀ least, req.minToAmount = some least → least ≤ q.toAmount

abbrev QuotedFor (maxStale : ℕ) (req : SwapRequest) (q : SwapQuote) : SwapHist → Prop :=
  Quoted maxStale req.fromCoin req.toCoin req.fromAmount q

theorem priced_record {req : SwapRequest} {q : SwapQuote} {h : SwapHist} (hq : Agreed req q)
    (hh : QuotedFor maxStale req q h) : SwapPriced maxStale (req.record q) h := by
  refine ⟨Nat.pos_of_ne_zero hq.to_ne, ?_⟩
  show Quoted maxStale req.fromCoin req.toCoin q.fromAmount q h
  rw [hq.from_eq]
  exact hh

theorem answers_record {req : SwapRequest} {q : SwapQuote} (hq : Agreed req q) (i : Uuid) :
    Answers req ⟨i, q.fromAmount, q.toAmount, q.feeAmount⟩ true (req.record q) where
  user := rfl
  key := rfl
  replayed h := absurd h (by simp)
  asked _ := ⟨rfl, rfl, rfl, hq.from_eq, hq.least⟩

theorem keeps_quoted (req : SwapRequest) (q : SwapQuote) :
    (swapPlan maxStale old).Keeps p fun _ _ h => QuotedFor maxStale req q h :=
  Plan.keeps_of_framed (knows_quoted _ _ _ q)

/-- The commit of a swap with its entries. -/
theorem triple_commitSwap {req : SwapRequest} {q : SwapQuote} (hq : Agreed req q) {i : Uuid}
    {added : List LedgerEntry} (hadded : ∀ e ∈ added, e.referenceId = some i)
    (hkept : SwapKept old.wallets old.part.house i (some (req.record q)) added) :
    (swapPlan maxStale old).Keeping p
      (InTx p (Plan.Eff swapFocus (fun v => { putSwap i (req.record q) v with
          entries := added ++ v.entries }) fun ks db h =>
        QuotedFor maxStale req q h ∧ Unswapped i req.scopedKey ks db h))
      (commit : Swapping SwapServiceError Unit)
      (outcome (fun _ => Idle p (AnsweredBy req ⟨i, q.fromAmount, q.toAmount, q.feeAmount⟩ true))
        fun _ => Over fun _ _ => True) := by
  refine Plan.triple_commit (framed_answeredBy _ _ _).stable framed_true ?_ fun _ _ _ _ => trivial
  intro ks db h hi hA _
  obtain ⟨hh, ⟨-, hid⟩, -, hkey⟩ := hA
  have hnew : SwapInv maxStale old { putSwap i (req.record q) (swapSee db) with
      entries := added ++ (swapSee db).entries } h :=
    swapInv_put hi hid (r := req.record q) hkey
      (fun key hk => ⟨req.idempotencyKey, (Option.some.inj hk).symm⟩) (priced_record hq hh)
      rfl rfl rfl hadded hkept
  refine ⟨⟨hnew.quiet trivial, fun _ _ => swapRel_put hid rfl⟩, fun db' hs => ?_⟩
  refine ⟨req.record q, ?_, answers_record hq i⟩
  have hpart : (swapSee db').part = (putSwap i (req.record q) (swapSee db)).part :=
    (congrArg (fun v : SwapView => v.part) hs).trans rfl
  rw [hpart, swapOf_put, if_pos rfl]

theorem triple_insertAndSettle {req : SwapRequest} {q : SwapQuote} (hq : Agreed req q)
    {fromW toW : Uuid} (hfw : walletIn old.wallets req.userId req.fromCoin .personal = some fromW)
    (htw : walletIn old.wallets req.userId req.toCoin .personal = some toW) :
    (swapPlan maxStale old).Keeping p
      (InTx p (Plan.Eff swapFocus id fun _ _ h => QuotedFor maxStale req q h))
      (insertAndSettle fromW toW (req.record q)) fun r => Over (SwapMade req r) := by
  have hA := @keeps_quoted maxStale old p req q
  refine Plan.bind_to (Plan.triple_call hA (.inl .newSwapId) fun _ => trivial)
    (fun (i : Uuid) => ?_) fun _ _ _ _ _ => made_error
  have insert : (swapPlan maxStale old).Keeping p
      (InTx p (Plan.Eff swapFocus id fun _ _ h => QuotedFor maxStale req q h))
      ((swapQuery (.insertSwap i (req.record q)) : Swapping DbError Unit).attempt :
        Swapping SwapServiceError _)
      (outcome (outcome (fun _ => InTx p (Plan.Eff swapFocus (putSwap i (req.record q))
        fun ks db h => QuotedFor maxStale req q h ∧ Unswapped i req.scopedKey ks db h))
        fun _ => InTx p fun _ _ _ h => QuotedFor maxStale req q h) fun _ _ => False) :=
    Protocol.Triple.attempt (.conseq (triple_insertSwap hA rfl) (fun _ _ h => h) fun _ _ _ h => h)
  refine Protocol.Triple.bind insert (fun inserted => ?_) fun _ _ _ h => h.elim
  cases inserted with
  | error e =>
    cases e with
    | uniqueViolation => exact .ret fun _ _ _ => made_none
    | _ => exact .throw fun _ _ _ => made_error
  | ok _ =>
    have hA' := hA.and (@keeps_unswapped maxStale old p i req.scopedKey)
    refine Plan.bind_to (triple_swapEntries hA' hq.from_ne hq.to_ne hfw htw) (fun _ =>
      Protocol.Triple.of_exists fun added => .of_pure fun ⟨hadded, hkept⟩ => ?_)
      fun _ _ _ _ _ => made_error
    refine Plan.bind_to (triple_mapErr (Plan.triple_aside (.core (.insertOutbox _))
      (by rintro input ⟨⟩) (Focus.aside_core _ refFocus_ignoresQueue (by rintro input ⟨⟩)
        (by rintro i ⟨⟩)) hA') fun _ _ h => h) (fun _ => ?_) fun _ _ _ _ _ => made_error
    exact Protocol.Triple.bind (triple_commitSwap hq hadded hkept)
      (fun _ => .ret fun _ _ h => made_some h.2) fun _ _ _ _ => made_error

theorem triple_executeTx {req : SwapRequest} {q : SwapQuote} (hq : Agreed req q) :
    (swapPlan maxStale old).Keeping p
      (InTx p (Plan.Eff swapFocus id fun _ _ h => QuotedFor maxStale req q h))
      (executeTx (req.record q) req.scopedKey) fun r => Over (SwapMade req r) := by
  have hA := @keeps_quoted maxStale old p req q
  have find := Plan.triple_leftReading (P := swapPlan maxStale old) (p := p)
    (ε := SwapServiceError) (f := id) (SwapStmt.findByIdempotencyKey req.scopedKey)
    (fun _ _ => rfl) (fun _ => rfl) hA
    (φ := fun a _ => SwapMade req (.ok (Option.map (fun row => (readSwap row, false)) a) :
      Except SwapServiceError _))
    (fun a => Plan.keeps_of_framed (framed_made req _)) fun _ _ _ _ hi _ => made_byKey hi
  refine Plan.bind_to find (fun existing => ?_) fun _ _ _ _ _ => made_error
  cases existing with
  | some row =>
    refine Protocol.Triple.bind (Plan.triple_commit_aside trivial
      (framed_answeredBy req (readSwap row) false) (fun _ _ _ h => h.2 _ _ rfl) ?_)
      (fun _ => .ret fun _ _ h => made_some h.2) fun _ _ _ _ => made_error
    intro db db' h hs ha
    obtain ⟨r, hr, ha⟩ := ha
    exact ⟨r, (congrArg (fun v : SwapView => v.part.swapOf _) hs).trans hr, ha⟩
  | none =>
    refine .conseq (Q := fun r => Over (SwapMade req r)) ?_
      (fun c _ h => Plan.inTx_imp (fun _ _ _ h => h.1) h) fun _ _ _ h => h
    refine (learns_swapWallet (fun _ => rfl) req.userId req.fromCoin).to hA
      (fun _ _ _ _ _ => made_error) fun fromWallet hfw => ?_
    refine (learns_swapWallet (fun _ => rfl) req.userId req.toCoin).to hA
      (fun _ _ _ _ _ => made_error) fun toWallet htw => ?_
    cases fromWallet with
    | none => exact .throw fun _ _ _ => made_error
    | some fromW =>
      cases toWallet with
      | none => exact .throw fun _ _ _ => made_error
      | some toW =>
        refine ((learns_houseWallet (fun _ => rfl) (fun _ => rfl) req.fromCoin).mapErr _).to hA
          (fun _ _ _ _ _ => made_error) fun fromH _ => ?_
        refine ((learns_houseWallet (fun _ => rfl) (fun _ => rfl) req.toCoin).mapErr _).to hA
          (fun _ _ _ _ _ => made_error) fun toH _ => ?_
        exact Plan.bind_to (Plan.triple_lockWallets hA _)
          (fun _ => triple_insertAndSettle hq hfw.symm htw.symm) fun _ _ _ _ _ => made_error

/-! ## Requests -/

theorem agreed_of_quoted {req : SwapRequest} {q : SwapQuote} {h : SwapHist}
    (hh : QuotedFor maxStale req q h) (ht : q.toAmount ≠ 0)
    (hm : ¬ req.minToAmount.any (q.toAmount < ·)) : Agreed req q := by
  obtain ⟨ha, hf, -⟩ := computeSwap_fields hh.2.2.2
  refine ⟨hf ▸ ha, hf, ht, fun least hl => ?_⟩
  rw [hl] at hm
  simpa using hm

theorem triple_executeSwap (req : SwapRequest) :
    (swapPlan maxStale old).Keeping p (Idle p fun _ _ => True) (executeSwap maxStale req)
      (outcome (fun a => Idle p (AnsweredBy req a.1 a.2)) fun _ => Idle p fun _ _ => True) := by
  refine Protocol.Triple.bind (triple_swapQuote _ _ _ framed_true) (fun q => ?_) fun _ _ _ h => h
  split
  · exact .throw fun _ _ h => ⟨h.1, trivial⟩
  split
  · exact .throw fun _ _ h => ⟨h.1, trivial⟩
  rename_i ht hm
  have hB := @knows_quoted maxStale old p req.fromCoin req.toCoin req.fromAmount q
  refine .conseq (A := fun c => Agreed req q ∧ Idle p (fun _ h => QuotedFor maxStale req q h) c)
    (.of_pure fun hq => ?_) (fun c _ h => ⟨agreed_of_quoted h.2.2 ht hm, h.1, h.2.2⟩)
    fun _ _ _ h => h
  refine Protocol.Triple.bind (triple_replaySwap req hB) (fun existing => ?_)
    fun _ _ _ h => ⟨h.1, trivial⟩
  cases existing with
  | some found => exact .ret fun _ _ h => ⟨h.1, h.2.2 _ _ rfl⟩
  | none =>
    have tx := Plan.triple_scope hB (framed_made req) (fun _ _ _ _ => made_error)
      (triple_executeTx (p := p) hq)
    refine Protocol.Triple.bind (.conseq tx (fun _ _ h => ⟨h.1, h.2.1⟩) fun _ _ _ h => h)
      (fun made => ?_) fun _ _ _ h => ⟨h.1, trivial⟩
    cases made with
    | some done => exact .ret fun _ _ h => ⟨h.1, h.2 _ _ rfl⟩
    | none =>
      refine .conseq (Q := outcome (fun a => Idle p (AnsweredBy req a.1 a.2))
        fun _ => Idle p fun _ _ => True) ?_ (fun _ _ h => (⟨h.1, trivial⟩ : Idle p (fun _ _ => True) _))
        fun _ _ _ h => h
      refine Protocol.Triple.bind (triple_replaySwap req framed_true) (fun winner => ?_)
        fun _ _ _ h => h
      cases winner with
      | some found => exact .ret fun _ _ h => ⟨h.1, h.2.2 _ _ rfl⟩
      | none => exact .throw fun _ _ h => ⟨h.1, trivial⟩

theorem swapInv_answer {v : SwapView} {h : SwapHist} (hv : SwapInv maxStale old v h)
    {req : SwapRequest} {row : SwapRow} {fresh : Bool} {r : SwapRecord}
    (hr : v.part.swapOf row.id = some r) (ha : Answers req row fresh r) :
    SwapInv maxStale old v (.did p (.call (.inl (.answer req (.ok (row, fresh))))) () :: h) where
  wallets := hv.wallets
  house := hv.house
  book := hv.book
  distinct := hv.distinct
  owned := hv.owned
  net := hv.net
  priced id r hr := (hv.priced id r hr).imp_right (·.mono [_])
  answered p' req' row' fresh' hm := by
    rcases List.mem_cons.1 hm with hm | hm
    · cases hm
      exact ⟨r, hr, ha⟩
    · exact hv.answered p' req' row' fresh' hm

theorem triple_serveSwap (req : SwapRequest) :
    (swapPlan maxStale old).Keeping p (Idle p fun _ _ => True) (serveSwap maxStale req)
      fun _ => Over fun _ _ => True := by
  have work : (swapPlan maxStale old).Keeping p (Idle p fun _ _ => True)
      ((executeSwap maxStale req).attempt : Swapping Empty _)
      (outcome (outcome (fun a => Idle p (AnsweredBy req a.1 a.2)) fun _ => Idle p fun _ _ => True)
        fun _ _ => True) :=
    Protocol.Triple.attempt (.conseq (triple_executeSwap req) (fun _ _ h => h) fun _ _ _ h => h)
  refine Protocol.Triple.bind work (fun r => ?_) fun _ _ _ _ => trivial
  have last {α : Type} {x : Swapping Empty α} {A : Conf (machine (satsPay swapExt)) → Prop}
      {B : Except Empty α → Conf (machine (satsPay swapExt)) → Prop}
      (hx : (swapPlan maxStale old).Keeping p A x B) : (swapPlan maxStale old).Keeping p A
        (x >>= fun _ => pure ()) fun _ => Over fun _ _ => True :=
    Protocol.Triple.bind hx (fun _ => .ret fun _ _ _ => trivial) fun _ _ _ _ => trivial
  cases r with
  | error e =>
    exact last (Plan.triple_invoke_seen (P := swapPlan maxStale old) framed_true
      (Sum.inl (SwapCall.answer req (.error e))) fun _ => trivial)
  | ok a =>
    refine last (triple_invoke (S := satsPay swapExt) (B := fun _ _ _ => True)
      (.inl (.answer req (.ok a))) (fun _ => stable_true) ?_)
    intro db h _ hi hans _
    obtain ⟨r, hr, ha⟩ := hans
    exact ⟨⟨swapInv_answer hi hr ha, fun _ _ => ⟨fun _ => rfl, fun _ _ h => h⟩⟩, trivial⟩

/-! ## Prices, and entries of others -/

structure Reprices (f : SwapView → SwapView) : Prop where
  wallets : ∀ v, (f v).wallets = v.wallets
  house : ∀ v, (f v).part.house = v.part.house
  rows : ∀ v, (f v).part.swaps = v.part.swaps
  entries : ∀ v, (f v).entries = v.entries

theorem triple_putPrices (now : Instant) (priceDecimals : ℕ) :
    ∀ (prices : List (Coin × ℤ)) (f : SwapView → SwapView), Reprices f →
      (swapPlan maxStale old).Keeping p (InTx p (Plan.Eff swapFocus f fun _ _ _ => True))
        (putPrices now priceDecimals prices)
        (outcome (fun _ c => ∃ f', Reprices f' ∧
          InTx p (Plan.Eff swapFocus f' fun _ _ _ => True) c) fun _ => InTx p fun _ _ _ _ => True)
  | [], f, hf => .ret fun _ _ h => ⟨f, hf, h⟩
  | x :: prices, f, hf => by
    have hT := Plan.keeps_fact (P := swapPlan maxStale old) (p := p) True
    have put := Plan.triple_effect (P := swapPlan maxStale old) (p := p) (ε := PricingDbError) (f := f)
      (ι := Unit) (g := fun _ _ => RefView.write (A := swapTables) (.putPrice x.1 ⟨x.2, priceDecimals, now⟩))
      (C := fun _ _ _ _ _ => True)
      (Stmt.ext (Sum.inl (SwapStmt.putPrice x.1 ⟨x.2, priceDecimals, now⟩)) : Stmt swapExt)
      (by rintro input ⟨⟩) hT (fun _ _ => hT) fun ws ks db h a ws' hi hg he => by
        obtain ⟨ws₁, h₁, rfl⟩ := ext_eval_ok he
        obtain ⟨ws₂, h₂, rfl⟩ := Ext.sumEval_inl h₁
        cases List.mem_singleton.1 h₂
        exact ⟨(), rfl, trivial⟩
    refine Protocol.Triple.bind put (fun _ => Protocol.Triple.of_exists fun _ => ?_) fun _ _ _ h => h
    exact triple_putPrices now priceDecimals prices _
      ⟨hf.wallets, hf.house, hf.rows, hf.entries⟩

theorem triple_refreshAll (priceDecimals : ℕ) :
    (swapPlan maxStale old).Calm p (fun _ => True) (refreshAll priceDecimals) := by
  have hT : (swapPlan maxStale old).Knows p fun _ => True := framed_true
  refine (Plan.calm_invoke hT (.inl .fetchUsdPrices) fun _ => trivial).bind fun fetched => ?_
  cases fetched with
  | none => exact .ret _
  | some prices =>
    refine (Plan.calm_invoke hT (.inl .utcNow) fun _ => trivial).bind fun now => ?_
    refine Plan.Calm.transaction hT ?_
    refine Plan.bind_left (triple_putPrices now priceDecimals prices id
      ⟨fun _ => rfl, fun _ => rfl, fun _ => rfl, fun _ => rfl⟩)
      (fun _ => Protocol.Triple.of_exists fun f => .of_pure fun hf => ?_) fun _ _ _ _ => trivial
    refine .conseq (Plan.triple_commit (B := fun _ _ => True) stable_true framed_true
      (fun ks db h hi _ _ => ⟨⟨?_, fun _ _ => swapRel_rows (hf.rows _)⟩, fun _ _ => trivial⟩)
      fun _ _ _ _ => trivial) (fun _ _ h => h) fun _ _ _ _ => trivial
    exact (swapInv_prices hi (hf.wallets _) (hf.house _) (hf.rows _) (hf.entries _)).quiet trivial

theorem triple_postEntries {inputs : List LedgerCreditInput}
    (h : ∀ input ∈ inputs, input.referenceType ≠ some "Swap") :
    (swapPlan maxStale old).Calm p (fun _ => True) (postEntries inputs) := by
  have hT : (swapPlan maxStale old).Knows p fun _ => True := framed_true
  refine Plan.Calm.transaction hT (.step ?_ fun _ => .commit_end hT trivial)
  induction inputs with
  | nil => exact .ret _
  | cons input inputs ih =>
    obtain ⟨hi, h⟩ := List.forall_mem_cons.1 h
    refine Plan.Steady.bind (Plan.triple_apply_aside (Plan.keeps_of_framed hT) fun n => ?_)
      fun _ => ih h
    exact funext fun v => if_neg (by simpa [LedgerCreditInput.entry] using hi)

end

/-! ## Requests that fail -/

section
variable {maxStale : ℕ} {ε α β : Type}

def swapReads : Stmt swapExt → Prop
  | .ext (.inl (.price _)) => True
  | .ext (.inl (.findByIdempotencyKey _)) => True
  | _ => False

theorem swapReads_nothing (st : Stmt swapExt) (db : Db swapExt) (a : st.Ans)
    (ws : List (Write swapExt)) (hst : swapReads st) (h : .ok (a, ws) ∈ (satsPay swapExt).eval st db) :
    ws = [] := by
  cases st with
  | core st => exact hst.elim
  | ext st =>
    cases st with
    | inr st => exact hst.elim
    | inl st =>
      cases st with
      | price coin => exact (swapEval_one (.price coin) rfl h).2
      | findByIdempotencyKey key => exact (swapEval_one (.findByIdempotencyKey key) rfl h).2
      | _ => exact hst.elim

abbrev SwapTentative (c : Swapping ε α) : Prop :=
  Tentative (S := satsPay swapExt) swapFails swapReads c

theorem tentative_swapCall {c : SwapCall} (hc : ¬ swapFails (.inl c)) :
    SwapTentative (swapCall c : Swapping ε _) := .invoke hc

theorem tentative_getSwapPrice (coin : Coin) : SwapTentative (getSwapPrice coin maxStale) := by
  refine .bind (.poolQuery trivial) fun row => ?_
  cases row with
  | none => exact .throw _
  | some r => exact .bind (tentative_swapCall fun h => h) fun _ => .ofExcept _

theorem tentative_swapQuote (fromCoin toCoin : Coin) (fromAmount : ℕ) :
    SwapTentative (swapQuote fromCoin toCoin fromAmount maxStale) := by
  unfold swapQuote
  split
  · exact .throw _
  · refine .bind ((tentative_getSwapPrice _).mapErr _) fun _ => ?_
    refine .bind ((tentative_getSwapPrice _).mapErr _) fun _ => ?_
    split
    · exact .throw _
    · exact .throw _
    · exact .ret _

theorem tentative_replaySwap (key : String) : SwapTentative (replaySwap key) :=
  .bind (.poolQuery trivial) fun _ => .ret _

theorem tentative_swapEntries (i fromW toW : Uuid) (r : SwapRecord) :
    SwapTentative (swapEntries i fromW toW r) :=
  .bind ((tentative_applyLedgerEntry _).mapErr _) fun _ =>
    .bind ((tentative_creditHouse (.query _) _ _ _ _ _ _).mapErr _) fun _ =>
      .bind ((tentative_debitHouse (.query _) _ _ _ _ _ _).mapErr _) fun _ =>
        (tentative_applyLedgerEntry _).mapErr _

/-- Nothing is committed where there is no row. -/
def SwapLeft (t : List (Did (sig (satsPay swapExt)))) :
    Except SwapServiceError (Option (SwapRow × Bool)) → Prop
  | .ok none => Unfailed swapFails t ∧ Uncommitted t
  | .ok (some _) => True
  | .error _ => Uncommitted t

def SwapLeaves (c : Swapping SwapServiceError (Option (SwapRow × Bool))) : Prop :=
  ∀ t, Unfailed swapFails t → Uncommitted t →
    c.Leads (ReadCommitted.Orderly swapFails swapReads) SwapLeft t

theorem SwapLeaves.bind {c : Swapping SwapServiceError α}
    {f : α → Swapping SwapServiceError (Option (SwapRow × Bool))} (hc : SwapTentative c)
    (hf : ∀ a, SwapLeaves (f a)) : SwapLeaves (c >>= f) :=
  fun t h h' => (hc t h h').bind (fun a t ht => hf a t ht.1 ht.2) fun _ _ ht => ht.2

theorem SwapLeaves.throw (e : SwapServiceError) : SwapLeaves (.throw e) := fun _ _ h => h

theorem SwapLeaves.commit (done : SwapRow × Bool) :
    SwapLeaves (ReadCommitted.commit >>= fun _ => pure (some done)) := by
  refine fun t h h' => ⟨h, fun r => ?_⟩
  cases r with
  | ok _ => exact trivial
  | error e => exact uncommitted_error h' e

theorem swapLeaves_insertAndSettle (fromW toW : Uuid) (r : SwapRecord) :
    SwapLeaves (insertAndSettle fromW toW r) := by
  refine .bind (tentative_swapCall fun h => h) fun i => .bind (Tentative.query _).attempt fun inserted => ?_
  cases inserted with
  | error e =>
    cases e with
    | uniqueViolation => exact fun _ h h' => ⟨h, h'⟩
    | _ => exact .throw _
  | ok _ =>
    exact .bind (tentative_swapEntries i fromW toW r) fun _ =>
      .bind ((tentative_core _).mapErr _) fun _ => .commit _

theorem swapLeaves_executeTx (r : SwapRecord) (key : String) : SwapLeaves (executeTx r key) := by
  refine .bind (.query _) fun existing => ?_
  cases existing with
  | some row => exact .commit _
  | none =>
    refine .bind (tentative_core _) fun fromWallet => .bind (tentative_core _) fun toWallet => ?_
    cases fromWallet with
    | none => exact .throw _
    | some fromW =>
      cases toWallet with
      | none => exact .throw _
      | some toW =>
        refine .bind ((tentative_getHouseWalletId (.query _) _).mapErr _) fun _ => ?_
        refine .bind ((tentative_getHouseWalletId (.query _) _).mapErr _) fun _ => ?_
        exact .bind ((tentative_lockWallets _).mapErr _) fun _ => swapLeaves_insertAndSettle _ _ _

theorem atomic_executeSwap (req : SwapRequest) :
    Atomic (S := satsPay swapExt) swapFails swapReads (executeSwap maxStale req) := by
  refine .bind (tentative_swapQuote _ _ _) fun q => ?_
  split
  · exact .throw _
  split
  · exact .throw _
  refine .bind (tentative_replaySwap _) fun existing => ?_
  cases existing with
  | some found => exact .of_tentative (.ret _)
  | none =>
    intro t h h'
    have begun : Unfailed swapFails (⟨.begin, .ok ()⟩ :: t : List (Did (sig (satsPay swapExt)))) :=
      unfailed_cons h (by simp) _
    refine Prog.Leads.bind (Q := SwapLeft) (fun made t ht => ?_) (fun e t ht _ _ => ht)
      (leads_transaction trivial (fun _ => trivial)
        (swapLeaves_executeTx _ _ _ begun (uncommitted_cons h' (by simp))) (fun t r ht => ?_) fun e => ?_)
    · cases made with
      | some done =>
        rintro e ⟨⟩
      | none =>
        refine Atomic.bind (tentative_replaySwap _) (fun winner => ?_) t ht.1 ht.2
        cases winner with
        | some found => exact .of_tentative (.ret _)
        | none => exact .throw _
    · cases r with
      | error e => exact uncommitted_cons ht (by simp)
      | ok made =>
        cases made with
        | none => exact ⟨unfailed_cons ht.1 (by simp) _, uncommitted_cons ht.2 (by simp)⟩
        | some done => exact trivial
    · exact uncommitted_cons h' (by simp)

theorem heeds_spawn {c : Swapping ε α}
    (hc : Atomic (S := satsPay swapExt) swapFails swapReads c) :
    c.spawn.Heeds (ReadCommitted.Orderly swapFails swapReads) [] :=
  (Prog.Leads.spawn (hc [] (by simp [Unfailed]) (by simp [Uncommitted]))).heeds

theorem tentative_putPrices (now : Instant) (priceDecimals : ℕ) :
    ∀ prices, SwapTentative (putPrices now priceDecimals prices)
  | [] => .ret _
  | _ :: prices => .bind (.query _) fun _ => tentative_putPrices now priceDecimals prices

theorem heeds_swapProcess {c : Swapping Empty Unit} (hc : SwapProcess maxStale c) :
    c.Heeds (ReadCommitted.Orderly (S := satsPay swapExt) swapFails swapReads) [] := by
  cases hc with
  | serve req => exact heeds_request (atomic_executeSwap req) fun _ h => h
  | refresh d =>
    refine heeds_spawn (.bind (tentative_swapCall fun h => h) fun fetched => ?_)
    cases fetched with
    | none => exact .of_tentative (.ret _)
    | some prices =>
      refine .bind (tentative_swapCall fun h => h) fun now => .transaction ?_
      exact .bind (tentative_putPrices _ _ _) fun _ => .commit
  | post inputs h =>
    refine heeds_spawn (.transaction (.bind ?_ fun _ => .commit))
    clear h
    induction inputs with
    | nil => exact .ret _
    | cons input inputs ih => exact .bind ((tentative_applyLedgerEntry _).mapErr _) fun _ => ih

end

/-! ## The runs -/

structure SwapSound (v : SwapView) : Prop where
  book : SwapBook v
  distinct : v.part.Distinct
  owned : ∀ id r, v.part.swapOf id = some r → r.Scoped

section
variable {maxStale : ℕ} {db : Db swapExt} {w w' : World (machine (satsPay swapExt))}

theorem serves_swaps (old : SwapView) (c : Swapping Empty Unit) (hc : SwapProcess maxStale c)
    (p : Nat) : (swapPlan maxStale old).Keeping p (Idle p (Unborn p)) c
      fun _ => Over ((swapPlan maxStale old).rows.done p) := by
  have idle : ∀ c : Conf (machine (satsPay swapExt)), Idle p (Unborn p) c →
      Idle p (fun _ _ => True) c := fun _ h => ⟨h.1, trivial⟩
  cases hc with
  | serve req => exact .conseq (triple_serveSwap req) (fun c _ => idle c) fun _ _ _ _ => trivial
  | refresh d =>
    exact .spawn (.conseq (triple_refreshAll d) (fun c _ => idle c) fun _ _ _ _ => trivial)
  | post inputs h =>
    exact .spawn (.conseq (triple_postEntries h) (fun c _ => idle c) fun _ _ _ _ => trivial)

theorem swapInv_start (hb : SwapSound (swapSee db)) :
    SwapInv maxStale (swapSee db) (swapSee db) [] where
  wallets := rfl
  house := rfl
  book := hb.book
  distinct := hb.distinct
  owned := hb.owned
  net _ := rfl
  priced _ _ h := .inl h
  answered _ _ _ _ h := absurd h List.not_mem_nil

theorem swapInv_of_run (hb : SwapSound (swapSee db)) (hw : SwapRun maxStale db w) :
    SwapInv maxStale (swapSee db) (swapSee w.conf.s.db) w.conf.hist :=
  RowProtocol.inv_of_steps (R := (swapPlan maxStale (swapSee db)).rows) (serves_swaps _)
    (swapInv_start hb) hw

theorem swapRel_of_steps (hb : SwapSound (swapSee db)) (hw : SwapRun maxStale db w)
    (hs : SwapSteps maxStale w w') : SwapRel (swapSee w.conf.s.db) (swapSee w'.conf.s.db) :=
  RowProtocol.rel_of_steps (R := (swapPlan maxStale (swapSee db)).rows) (serves_swaps _)
    (swapInv_start hb) (T := fun db _ db' _ => SwapRel (swapSee db) (swapSee db'))
    (fun _ _ _ _ _ h => h.2) (fun _ _ _ _ h => h)
    (fun _ _ _ _ _ _ a b i r h => b i r (a i r h)) hw hs

end

/-- However swaps interleave, each key of a user swaps once, and whoever asks again is answered
that swap. Its four entries come to nothing in each coin, at prices that were fresh when they were
read, and a request that fails changes nothing. -/
theorem swapLaw_of_sound {maxStale : ℕ} {db : Db swapExt} (hb : SwapSound (swapSee db)) :
    SwapLaw maxStale db where
  settled w hw := (swapInv_of_run hb hw).book
  conserved w coin hw := (swapInv_of_run hb hw).net coin
  once w i j r s key hw hi hj hr hs := (swapInv_of_run hb hw).distinct.once hi hj hr hs
  kept w w' i r hw hs hi := swapRel_of_steps hb hw hs i r hi
  priced w i r hw hi := by
    refine ((swapInv_of_run hb hw).priced i r hi).imp_right fun h => ⟨h, ?_⟩
    exact computeSwap_value h.2.2.2.2
  answered w p req row fresh hw h := (swapInv_of_run hb hw).answered p req row fresh h
  same w p p' req req' row row' fresh fresh' hw h h' hu hk := by
    have hv := swapInv_of_run hb hw
    obtain ⟨r, hr, ha⟩ := hv.answered p req row fresh h
    obtain ⟨r', hr', ha'⟩ := hv.answered p' req' row' fresh' h'
    refine hv.distinct.once hr hr' ha.key ?_
    rw [ha'.key]
    simp [SwapRequest.scopedKey, hu, hk]
  failed := failedAside (fun _ h => heeds_swapProcess h) swapReads_nothing

def swapStart : Db swapExt where
  core := {
    now := 0
    wallets := ((((∅ : Table Wallet).insert 1 ⟨1, .btc, .personal, none⟩).insert 2
      ⟨1, .ltc, .personal, none⟩).insert 3 ⟨9, .btc, .house, none⟩).insert 4 ⟨9, .ltc, .house, none⟩
    ledger := [⟨1, 1000, .adjustment, none, none, none, none⟩,
      ⟨4, 2000, .adjustment, none, none, none, none⟩]
    jobs := ∅
    outbox := []
    auditLogs := [] }
  ext := (⟨[], fun coin => some ⟨if coin = .btc then 300 else 100, 2, 0⟩, some 9⟩, ())

def swapReplies (id : ℕ) : (c : swapExt.Call) → swapExt.Reply c
  | .inl .utcNow => (30 : ℤ)
  | .inl .newSwapId => id
  | .inl .fetchUsdPrices => none
  | .inl (.answer _ _) => ()

def swapTwice : SwapRequest := ⟨1, .btc, .ltc, 400, some 1000, "k", by decide⟩

def keyRunner : Runner (satsPay swapExt) where
  bound := 2
  progs := [serveSwap 60 swapTwice]
  tick := Db.wait
  allow _ _ := true

/-- A request that is sent twice: both find no swap of the key, and one makes it. -/
def keyScript : List (Act (satsPay swapExt)) :=
  let reply p id : Act (satsPay swapExt) := .op p (.answer (swapReplies id))
  let quote p := proceed p 1 ++ [reply p 0] ++ proceed p 1 ++ [reply p 0] ++ proceed p 1
  .start 0 0 :: quote 0 ++ proceed 0 2 ++ .start 1 0 :: quote 1 ++ proceed 1 2 ++ proceed 0 10 ++
    [reply 0 7] ++ proceed 0 22 ++ [reply 0 0, Act.finish 0] ++ proceed 1 10 ++ [reply 1 8] ++
    proceed 1 3 ++ [reply 1 0, Act.finish 1]

theorem swapLaw_twice : SwapLaw 60 swapStart ∧ ∃ w, SwapRun 60 swapStart w ∧
    w.conf.s.db.ext.1.swaps.map (fun r => (r.1, r.2.toAmount, r.2.feeAmount)) = [(7, 1197, 3)] := by
  refine ⟨swapLaw_of_sound ⟨fun _ => rfl, .nil, fun _ _ h => by cases h⟩, ?_⟩
  have hrun : (keyRunner.run keyScript (.init _ (.start swapStart))).map
      (fun w => w.conf.s.db.ext.1.swaps.map fun r => (r.1, r.2.toAmount, r.2.feeAmount)) =
        some [(7, 1197, 3)] := by
    decide +kernel
  obtain ⟨w, hw, hl⟩ := Option.map_eq_some_iff.1 hrun
  refine ⟨w, Runner.steps_of_run (R := keyRunner) ?_ Db.tick_wait (fun _ _ _ => trivial)
    (fun _ _ => rfl) hw, hl⟩
  simp only [keyRunner, List.forall_mem_cons]
  exact ⟨.serve _, by simp⟩

end SatsPay
