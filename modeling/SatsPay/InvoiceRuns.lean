import SatsPay.Invoices
import SatsPay.StakeRuns
import SatsPay.WalletPlans

/-!
# Runs of the invoices

Whoever pays an invoice, and however often the watcher finds it paid, its merchant is credited
once, and it is nobody's twice to pay. What a payer gives is what the merchant gets and the fee.
-/

namespace SatsPay

open Interleave ReadCommitted RowProtocol

abbrev InvoiceHist := Hist (sig (walletStore invoiceTables))
abbrev InvoiceEvent := Event (sig (walletStore invoiceTables))

/-! ## What is seen -/

def settles (e : LedgerEntry) : Bool :=
  e.referenceType == some "MERCHANT_DEPOSIT" || e.referenceType == some "MERCHANT_CHECKOUT"

structure InvoiceView where
  part : InvoiceDb
  entries : List LedgerEntry

namespace InvoiceView

def row (v : InvoiceView) (i : Uuid) : Option Invoice := v.part.invoices.lookup i

def entriesOf (v : InvoiceView) (i : Uuid) : List LedgerEntry :=
  v.entries.filter fun e => e.referenceId == some i

def write (w : InvoiceWrite) (v : InvoiceView) : InvoiceView := { v with part := w.apply v.part }

def addEntry (e : LedgerEntry) (v : InvoiceView) : InvoiceView :=
  if settles e then { v with entries := e :: v.entries } else v

@[simp] theorem part_addEntry (e : LedgerEntry) (v : InvoiceView) : (v.addEntry e).part = v.part := by
  unfold addEntry
  split <;> rfl

@[simp] theorem entries_write (w : InvoiceWrite) (v : InvoiceView) :
    (v.write w).entries = v.entries := rfl

@[simp] theorem addresses_put (i : Uuid) (r : Invoice) (v : InvoiceView) :
    (v.write (.putInvoice i r)).part.addresses = v.part.addresses := rfl

theorem row_put (i : Uuid) (r : Invoice) (v : InvoiceView) (j : Uuid) :
    (v.write (.putInvoice i r)).row j = if j = i then some r else v.row j := by
  by_cases h : j = i
  · rw [if_pos h, h]
    exact AList.lookup_insert _
  · rw [if_neg h]
    exact AList.lookup_insert_ne h

end InvoiceView

def invoiceSee (db : Db invoiceTables) : InvoiceView := ⟨db.ext, db.core.ledger.filter settles⟩

def invoiceAct : Write invoiceTables → InvoiceView → InvoiceView
  | .ext w => InvoiceView.write w
  | .core (.addEntry e) => InvoiceView.addEntry e
  | .core _ => id

theorem invoiceSee_apply (w : Write invoiceTables) (db : Db invoiceTables) :
    invoiceSee (w.apply db) = invoiceAct w (invoiceSee db) := by
  cases w with
  | ext w => rfl
  | core w =>
    cases w with
    | addEntry e =>
      show InvoiceView.mk db.ext ((e :: db.core.ledger).filter settles) =
        InvoiceView.addEntry e (invoiceSee db)
      unfold InvoiceView.addEntry
      by_cases h : settles e
      · rw [List.filter_cons_of_pos h, if_pos h]
        rfl
      · rw [List.filter_cons_of_neg h, if_neg h]
        rfl
    | putWallet i u | putJob i j | addOutbox event | addAudit log => rfl

def invoiceFocus : Focus invoiceTables where
  View := InvoiceView
  see := invoiceSee
  act := invoiceAct
  see_apply := invoiceSee_apply
  see_tick db db' h := by
    obtain ⟨t, -, rfl⟩ := h
    rfl

theorem invoiceFocus_ignoresQueue : invoiceFocus.IgnoresQueue :=
  ⟨fun _ _ => rfl, fun _ => rfl, fun _ => rfl⟩

theorem invoiceFocus_ignoresWallets : invoiceFocus.IgnoresWallets := fun _ _ => rfl

theorem aside_invoiceCore (st : CoreStmt) (hentry : ∀ input, st ≠ .insertLedgerEntry input)
    (hhold : ∀ i, st ≠ .setReorgHold i) : invoiceFocus.Aside (.core st) :=
  Focus.aside_core _ invoiceFocus_ignoresQueue hentry hhold

/-! ## The book of invoices -/

section
variable (own : Uuid → Option Owner)

def PaidOnChain (r : Invoice) (l : List LedgerEntry) : Prop :=
  ∃ w n, own w = some (r.merchantId, r.coin, .merchant) ∧ numeric39 r.netAmount = some n ∧
    l.map LedgerEntry.line = [(w, n, .merchantDeposit)]

structure PaidBy (payer : Uuid) (r : Invoice) (l : List LedgerEntry) : Prop where
  txHash : r.txHash = some "internal_satspay"
  received : r.receivedAmount = r.amount
  other : payer ≠ r.merchantId
  lines : ∃ w v n m, own w = some (r.merchantId, r.coin, .merchant) ∧
    own v = some (payer, r.coin, .personal) ∧ numeric39 r.netAmount = some n ∧
    numeric39 (-r.amount) = some m ∧
    l.map LedgerEntry.line = [(w, n, .merchantDeposit), (v, m, .merchantCheckout)]

def InvoiceKept : Option Invoice → List LedgerEntry → Prop
  | none, l => l = []
  | some r, l => if r.status = .confirmed then PaidOnChain own r l ∨ ∃ payer, PaidBy own payer r l
      else l = []

structure InvoiceBook (v : InvoiceView) : Prop where
  kept : ∀ i, InvoiceKept own (v.row i) (v.entriesOf i)
  referenced : ∀ e ∈ v.entries, ∃ i, e.referenceId = some i

end

/-- The fee is whole, of the sign of the amount, and with the net amount it is the amount. -/
structure Invoice.Exact (r : Invoice) : Prop where
  sum : r.feeAmount + r.netAmount = r.amount
  whole : ∃ f : ℤ, r.feeAmount = f
  between : (0 ≤ r.feeAmount ∧ r.feeAmount ≤ r.amount) ∨ (r.amount ≤ r.feeAmount ∧ r.feeAmount ≤ 0)

def InvoiceView.Distinct (v : InvoiceView) : Prop :=
  ∀ i j r s, v.row i = some r → v.row j = some s → r.merchantId = s.merchantId →
    r.orderId = s.orderId → i = j

def InvoiceStatus.Leads (s s' : InvoiceStatus) : Prop :=
  s' = s ∨ (s = .pending ∧ s' ≠ .cancelled) ∨ (s = .detected ∧ (s' = .confirmed ∨ s' = .expired))

/-- What is left of a row when it can no more be seen whether it is swept or locked. -/
def Invoice.receipt (r : Invoice) : Invoice := { r with hdIndex := none, coinLockedAt := none }

structure Invoice.Moves (r r' : Invoice) : Prop where
  merchantId : r'.merchantId = r.merchantId
  orderId : r'.orderId = r.orderId
  expiresAt : r'.expiresAt = r.expiresAt
  acceptedCoins : r'.acceptedCoins = r.acceptedCoins
  status : r.status.Leads r'.status
  final : r.status = .confirmed → r'.receipt = r.receipt

theorem InvoiceStatus.Leads.refl (s : InvoiceStatus) : s.Leads s := .inl rfl

theorem InvoiceStatus.Leads.trans {s s' s'' : InvoiceStatus} (h : s.Leads s') (h' : s'.Leads s'') :
    s.Leads s'' := by
  unfold InvoiceStatus.Leads at *
  cases s <;> cases s' <;> cases s'' <;> simp_all

theorem Invoice.Moves.refl (r : Invoice) : r.Moves r := ⟨rfl, rfl, rfl, rfl, .refl _, fun _ => rfl⟩

theorem Invoice.Moves.confirmed {r s : Invoice} (h : r.Moves s) (hr : r.status = .confirmed) :
    s.status = .confirmed := by
  have hs : s.receipt.status = r.receipt.status := congrArg Invoice.status (h.final hr)
  exact hs.trans hr

theorem Invoice.Moves.trans {r r' r'' : Invoice} (h : r.Moves r') (h' : r'.Moves r'') :
    r.Moves r'' where
  merchantId := h'.merchantId.trans h.merchantId
  orderId := h'.orderId.trans h.orderId
  expiresAt := h'.expiresAt.trans h.expiresAt
  acceptedCoins := h'.acceptedCoins.trans h.acceptedCoins
  status := h.status.trans h'.status
  final hr := (h'.final (h.confirmed hr)).trans (h.final hr)

/-! ## Fees -/

theorem roundHalfAway_sub_int {q : ℚ} {f : ℤ} (h : (0 ≤ (f : ℚ) ∧ (f : ℚ) ≤ q) ∨ (q ≤ f ∧ (f : ℚ) ≤ 0)) :
    roundHalfAway (q - f) = roundHalfAway q - f := by
  unfold roundHalfAway
  rcases h with ⟨h₀, h₁⟩ | ⟨h₁, h₀⟩
  · rw [if_pos (by linarith), if_pos (by linarith), show q - f + 1 / 2 = q + 1 / 2 - f by ring,
      Int.floor_sub_intCast]
  · by_cases hq : q = f
    · by_cases hz : (f : ℚ) = 0
      · have hf : f = 0 := by exact_mod_cast hz
        subst hf
        simp
      · have hneg : (f : ℚ) < 0 := lt_of_le_of_ne h₀ hz
        rw [if_pos (by linarith), if_neg (by linarith), hq, sub_self, zero_add,
          show -(f : ℚ) + 1 / 2 = 1 / 2 + ((-f : ℤ) : ℚ) by push_cast; ring, Int.floor_add_intCast]
        norm_num
    · have hlt : q < f := lt_of_le_of_ne h₁ hq
      rw [if_neg (by linarith), if_neg (by linarith),
        show -(q - f) + 1 / 2 = -q + 1 / 2 + f by ring, Int.floor_add_intCast]
      omega

/-- What the payer gives is what the merchant gets and the fee, in whole units. -/
theorem Invoice.Exact.conserves {r : Invoice} (hr : r.Exact) {n m : ℤ}
    (hn : numeric39 r.netAmount = some n) (hm : numeric39 (-r.amount) = some m) :
    ((n + m : ℤ) : ℚ) = -r.feeAmount := by
  obtain ⟨f, hf⟩ := hr.whole
  have hnet : r.netAmount = r.amount - f := by linarith [hr.sum]
  have hbetween := hr.between
  rw [hf] at hbetween
  have hround := roundHalfAway_sub_int hbetween
  rw [← hnet, (numeric39_eq_some.1 hn).1] at hround
  have hm' := (numeric39_eq_some.1 hm).1
  rw [roundHalfAway_neg] at hm'
  rw [hf, show n + m = -f by omega]
  push_cast
  rfl

theorem truncate_between (q : ℚ) :
    (0 ≤ (truncate q : ℚ) ∧ (truncate q : ℚ) ≤ q) ∨ (q ≤ truncate q ∧ (truncate q : ℚ) ≤ 0) := by
  unfold truncate
  by_cases h : 0 ≤ q
  · rw [if_pos h]
    exact .inl ⟨by exact_mod_cast Int.floor_nonneg.2 h, Int.floor_le q⟩
  · rw [if_neg h]
    refine .inr ⟨Int.le_ceil q, ?_⟩
    exact_mod_cast Int.ceil_le.2 (by push_cast; linarith)

theorem numeric38_ok {q x : ℚ} (h : numeric38 q = .ok x) : x = roundHalfAway (q * 10 ^ 18) / 10 ^ 18 := by
  unfold numeric38 at h
  dsimp only at h
  split at h
  · exact (Except.ok.inj h).symm
  · cases h

theorem cast_scaled (f : ℤ) : ((f * 10 ^ 18 : ℤ) : ℚ) = f * 10 ^ 18 := by norm_num

theorem numeric38_int {f : ℤ} {x : ℚ} (h : numeric38 f = .ok x) : x = f := by
  rw [numeric38_ok h, ← cast_scaled, roundHalfAway_int, cast_scaled]
  field_simp

theorem roundHalfAway_le {m : ℤ} {q : ℚ} (h : q ≤ m) : roundHalfAway q ≤ m := by
  have hneg := le_roundHalfAway (m := -m) (q := -q) (by push_cast; linarith)
  rw [roundHalfAway_neg] at hneg
  omega

/-- The fee is whole, and between nothing and the amount. -/
theorem splitFee_between (amount : ℚ) : ∃ f : ℤ, splitFee amount = ((f : ℚ), amount - f) ∧
    ((0 ≤ (f : ℚ) ∧ (f : ℚ) ≤ amount) ∨ (amount ≤ f ∧ (f : ℚ) ≤ 0)) := by
  refine ⟨_, rfl, ?_⟩
  have hg : amount * gatewayFeeBps / 10000 = amount / 400 := by
    unfold gatewayFeeBps
    push_cast
    ring
  rcases truncate_between (amount * gatewayFeeBps / 10000) with ⟨h₀, h₁⟩ | ⟨h₁, h₀⟩
  · exact .inl ⟨h₀, by linarith⟩
  · exact .inr ⟨by linarith, h₀⟩

/-- What is stored of an amount and its fee is as exact as they were. -/
theorem exact_of_split {r : Invoice} {amount : ℚ} (ha : numeric38 amount = .ok r.amount)
    (hf : numeric38 (splitFee amount).1 = .ok r.feeAmount)
    (hn : numeric38 (splitFee amount).2 = .ok r.netAmount) : r.Exact := by
  obtain ⟨f, hsplit, hbetween⟩ := splitFee_between amount
  rw [hsplit] at hf hn
  have hfee : r.feeAmount = f := numeric38_int hf
  have hamount := numeric38_ok ha
  have scale : (0 : ℚ) < 10 ^ 18 := by norm_num
  have scaled : (0 ≤ ((f * 10 ^ 18 : ℤ) : ℚ) ∧ ((f * 10 ^ 18 : ℤ) : ℚ) ≤ amount * 10 ^ 18) ∨
      (amount * 10 ^ 18 ≤ (f * 10 ^ 18 : ℤ) ∧ ((f * 10 ^ 18 : ℤ) : ℚ) ≤ 0) := by
    rw [cast_scaled]
    rcases hbetween with ⟨h₀, h₁⟩ | ⟨h₁, h₀⟩
    · exact .inl ⟨by positivity, by gcongr⟩
    · exact .inr ⟨by gcongr, mul_nonpos_of_nonpos_of_nonneg h₀ scale.le⟩
  have hnet : r.netAmount = r.amount - f := by
    rw [numeric38_ok hn, hamount, sub_mul, ← cast_scaled, roundHalfAway_sub_int scaled,
      Int.cast_sub, cast_scaled]
    field_simp
  refine ⟨by rw [hfee, hnet]; ring, ⟨f, hfee⟩, ?_⟩
  rw [hfee, hamount]
  rcases hbetween with ⟨h₀, h₁⟩ | ⟨h₁, h₀⟩
  · refine .inl ⟨h₀, (le_div_iff₀ scale).2 ?_⟩
    have hle : f * 10 ^ 18 ≤ roundHalfAway (amount * 10 ^ 18) :=
      le_roundHalfAway (by rw [cast_scaled]; gcongr)
    exact_mod_cast hle
  · refine .inr ⟨(div_le_iff₀ scale).2 ?_, h₀⟩
    have hle : roundHalfAway (amount * 10 ^ 18) ≤ f * 10 ^ 18 :=
      roundHalfAway_le (by rw [cast_scaled]; gcongr)
    exact_mod_cast hle

/-! ## What becomes of the book -/

section
variable {own new : Uuid → Option Owner} {r s : Invoice} {l : List LedgerEntry} {payer : Uuid}

theorem PaidOnChain.mono (ho : ∀ i o, own i = some o → new i = some o)
    (hr : s.receipt = r.receipt) (h : PaidOnChain own r l) : PaidOnChain new s l := by
  have h : PaidOnChain own r.receipt l := h
  rw [← hr] at h
  obtain ⟨w, n, hw, hn, hl⟩ := h
  exact ⟨w, n, ho _ _ hw, hn, hl⟩

theorem PaidBy.mono (ho : ∀ i o, own i = some o → new i = some o) (hr : s.receipt = r.receipt)
    (h : PaidBy own payer r l) : PaidBy new payer s l := by
  have h : PaidBy own payer r.receipt l := ⟨h.txHash, h.received, h.other, h.lines⟩
  rw [← hr] at h
  obtain ⟨w, v, n, m, hw, hv, hn, hm, hl⟩ := h.lines
  exact ⟨h.txHash, h.received, h.other, w, v, n, m, ho _ _ hw, ho _ _ hv, hn, hm, hl⟩

/-- One has paid it, and no other. -/
theorem PaidBy.unique {other : Uuid} (h : PaidBy own payer r l) (h' : PaidBy own other r l) :
    payer = other := by
  obtain ⟨w, v, n, m, -, hv, -, -, hl⟩ := h.lines
  obtain ⟨w', v', n', m', -, hv', -, -, hl'⟩ := h'.lines
  rw [hl] at hl'
  simp only [List.cons.injEq, Prod.mk.injEq] at hl'
  obtain ⟨-, ⟨rfl, -⟩, -⟩ := hl'
  exact congrArg Prod.fst (Option.some.inj (hv.symm.trans hv'))

theorem invoiceKept_confirmed (hr : r.status = .confirmed) :
    InvoiceKept own (some r) l ↔ PaidOnChain own r l ∨ ∃ payer, PaidBy own payer r l := by
  simp [InvoiceKept, hr]

theorem invoiceKept_unpaid (hr : r.status ≠ .confirmed) : InvoiceKept own (some r) l ↔ l = [] := by
  simp [InvoiceKept, hr]

inductive RowTends : Option Invoice → Option Invoice → Prop
  | same (o : Option Invoice) : RowTends o o
  | made (r : Invoice) (h : r.status ≠ .confirmed) (hx : r.Exact) : RowTends none (some r)
  | moved (r s : Invoice) (h : r.Moves s) (hx : r.Exact → s.Exact)
      (hc : s.status = .confirmed → r.status = .confirmed) : RowTends (some r) (some s)

theorem InvoiceKept.tends {o o₁ : Option Invoice} (ho : ∀ i o, own i = some o → new i = some o)
    (ht : RowTends o o₁) (h : InvoiceKept own o l) : InvoiceKept new o₁ l := by
  have kept : ∀ {r s : Invoice}, r.Moves s → (s.status = .confirmed → r.status = .confirmed) →
      InvoiceKept own (some r) l → InvoiceKept new (some s) l := by
    intro r s hm hc h
    by_cases hr : r.status = .confirmed
    · refine (invoiceKept_confirmed (hm.confirmed hr)).2 ?_
      refine ((invoiceKept_confirmed hr).1 h).imp (·.mono ho (hm.final hr)) ?_
      rintro ⟨payer, hp⟩
      exact ⟨payer, hp.mono ho (hm.final hr)⟩
    · exact (invoiceKept_unpaid fun hs => hr (hc hs)).2 ((invoiceKept_unpaid hr).1 h)
  cases ht with
  | same =>
    cases o with
    | none => exact h
    | some r => exact kept (.refl r) id h
  | made r hr hx => exact (invoiceKept_unpaid hr).2 h
  | moved r s hm hx hc => exact kept hm hc h

end

structure InvoiceView.Tends (v v' : InvoiceView) : Prop where
  entries : v'.entries = v.entries
  addresses : v.part.addresses ⊆ v'.part.addresses
  rows : ∀ i, RowTends (v.row i) (v'.row i)
  distinct : v.Distinct → v'.Distinct

theorem InvoiceView.Tends.entriesOf {v v' : InvoiceView} (h : v.Tends v') (i : Uuid) :
    v'.entriesOf i = v.entriesOf i := by
  unfold InvoiceView.entriesOf
  rw [h.entries]

theorem InvoiceView.Tends.refl (v : InvoiceView) : v.Tends v :=
  ⟨rfl, List.Subset.refl _, fun _ => .same _, id⟩

/-! ## The invariant -/

/-- Someone has seen at an address that the invoice has shown what is asked for there. -/
def Observed (h : InvoiceHist) (v : InvoiceView) (i : Uuid) : Prop :=
  ∃ q a deposits, a ∈ v.part.addresses ∧ a.invoiceId = i ∧
    .did q (.call (.fetchDeposits a.coin a.address)) (.ok deposits) ∈ h ∧
    a.amount ≤ (scan a.coin.minConfirmations deposits).confirmed

/-- What a payer is told is that he has paid, and how the invoice stands. -/
def Paid (own : Uuid → Option Owner) (v : InvoiceView) (i user : Uuid) (inv : Invoice) : Prop :=
  ∃ r, v.row i = some r ∧ r.status = .confirmed ∧ r.receipt = inv.receipt ∧
    PaidBy own user r (v.entriesOf i)

structure InvoiceInv (old : InvoiceView) (own : Uuid → Option Owner) (v : InvoiceView)
    (h : InvoiceHist) : Prop where
  book : InvoiceBook own v
  exact : ∀ i r, v.row i = some r → r.Exact
  distinct : v.Distinct
  paid : ∀ i r, v.row i = some r → r.status = .confirmed →
    (∃ o, old.row i = some o ∧ o.status = .confirmed) ∨
      (∃ payer, PaidBy own payer r (v.entriesOf i)) ∨ Observed h v i
  answered : ∀ p i user inv, .did p (.call (.answer i user (.ok inv))) () ∈ h →
    Paid own v i user inv

structure InvoiceRel (v v' : InvoiceView) : Prop where
  addresses : v.part.addresses ⊆ v'.part.addresses
  rows : ∀ i r, v.row i = some r → ∃ s, v'.row i = some s ∧ r.Moves s ∧
    (r.status = .confirmed → v'.entriesOf i = v.entriesOf i)

def InvoiceQuiet : InvoiceEvent → Prop
  | .did _ (.call (.answer _ _ (.ok _))) _ => False
  | _ => True

section
variable {old v v' : InvoiceView} {own new : Uuid → Option Owner} {h : InvoiceHist}

theorem Observed.mono {i : Uuid} (hv : v.part.addresses ⊆ v'.part.addresses) (l : InvoiceHist)
    (ho : Observed h v i) : Observed (l ++ h) v' i := by
  obtain ⟨q, a, deposits, ha, hi, hd, hs⟩ := ho
  exact ⟨q, a, deposits, hv ha, hi, List.mem_append_right _ hd, hs⟩

theorem InvoiceRel.refl (v : InvoiceView) : InvoiceRel v v :=
  ⟨List.Subset.refl _, fun _ r hr => ⟨r, hr, .refl r, fun _ => rfl⟩⟩

theorem InvoiceRel.trans {v'' : InvoiceView} (a : InvoiceRel v v') (b : InvoiceRel v' v'') :
    InvoiceRel v v'' where
  addresses := List.Subset.trans a.addresses b.addresses
  rows i r hr := by
    obtain ⟨s, hs, hm, he⟩ := a.rows i r hr
    obtain ⟨t, ht, hm', he'⟩ := b.rows i s hs
    exact ⟨t, ht, hm.trans hm', fun hc => (he' (hm.confirmed hc)).trans (he hc)⟩

theorem Paid.mono {i user : Uuid} {inv : Invoice} (ho : ∀ i o, own i = some o → new i = some o)
    (hr : InvoiceRel v v') (hp : Paid own v i user inv) : Paid new v' i user inv := by
  obtain ⟨r, hrow, hc, hi, hp⟩ := hp
  obtain ⟨s, hs, hm, he⟩ := hr.rows i r hrow
  refine ⟨s, hs, hm.confirmed hc, (hm.final hc).trans hi, ?_⟩
  rw [he hc]
  exact hp.mono ho (hm.final hc)

theorem InvoiceInv.quiet {e : InvoiceEvent} (he : InvoiceQuiet e) (hv : InvoiceInv old own v h) :
    InvoiceInv old own v (e :: h) where
  book := hv.book
  exact := hv.exact
  distinct := hv.distinct
  paid i r hr hc := (hv.paid i r hr hc).imp_right
    (·.imp_right (·.mono (List.Subset.refl _) [e]))
  answered p i user inv hm := by
    rcases List.mem_cons.1 hm with hm | hm
    · subst hm
      exact he.elim
    · exact hv.answered p i user inv hm

theorem InvoiceInv.answer {p : Nat} {i user : Uuid} {inv : Invoice} {r : Unit}
    (hv : InvoiceInv old own v h) (hp : Paid own v i user inv) :
    InvoiceInv old own v (.did p (.call (.answer i user (.ok inv))) r :: h) where
  book := hv.book
  exact := hv.exact
  distinct := hv.distinct
  paid j s hs hc := (hv.paid j s hs hc).imp_right (·.imp_right (·.mono (List.Subset.refl _) [_]))
  answered q j other seen hm := by
    rcases List.mem_cons.1 hm with hm | hm
    · cases hm
      exact hp
    · exact hv.answered q j other seen hm

theorem invoiceRel_tends (ht : v.Tends v') : InvoiceRel v v' where
  addresses := ht.addresses
  rows i r hr := by
    have hrow := ht.rows i
    rw [hr] at hrow
    generalize v'.row i = o at hrow
    cases hrow with
    | same => exact ⟨r, rfl, .refl r, fun _ => ht.entriesOf i⟩
    | moved _ s hm hx hc => exact ⟨s, rfl, hm, fun _ => ht.entriesOf i⟩

theorem invoiceInv_tends (ho : ∀ i o, own i = some o → new i = some o) (ht : v.Tends v')
    (hv : InvoiceInv old own v h) : InvoiceInv old new v' h where
  book :=
    { kept := fun i => by
        rw [ht.entriesOf]
        exact (hv.book.kept i).tends ho (ht.rows i)
      referenced := by
        rw [ht.entries]
        exact hv.book.referenced }
  exact i s hs := by
    have hrow := ht.rows i
    rw [hs] at hrow
    cases hr : v.row i with
    | none =>
      rw [hr] at hrow
      cases hrow with
      | made _ _ hx => exact hx
    | some r =>
      rw [hr] at hrow
      cases hrow with
      | same => exact hv.exact i _ hr
      | moved _ _ hm hx hc => exact hx (hv.exact i r hr)
  distinct := ht.distinct hv.distinct
  paid i s hs hc := by
    have hrow := ht.rows i
    rw [hs] at hrow
    have settled : ∀ r, v.row i = some r → r.status = .confirmed → s.receipt = r.receipt →
        (∃ o, old.row i = some o ∧ o.status = .confirmed) ∨
          (∃ payer, PaidBy new payer s (v'.entriesOf i)) ∨ Observed h v' i := by
      intro r hr hrc hreceipt
      rcases hv.paid i r hr hrc with hold | ⟨payer, hp⟩ | hob
      · exact .inl hold
      · refine .inr (.inl ⟨payer, ?_⟩)
        rw [ht.entriesOf]
        exact hp.mono ho hreceipt
      · exact .inr (.inr (hob.mono ht.addresses []))
    cases hr : v.row i with
    | none =>
      rw [hr] at hrow
      cases hrow with
      | made _ hn _ => exact absurd hc hn
    | some r =>
      rw [hr] at hrow
      cases hrow with
      | same => exact settled _ hr hc rfl
      | moved _ _ hm hx hmc => exact settled r hr (hmc hc) (hm.final (hmc hc))
  answered p i user inv hm := (hv.answered p i user inv hm).mono ho (invoiceRel_tends ht)

theorem InvoiceView.Distinct.of_rows (hrows : ∀ i s, v'.row i = some s →
    ∃ r, v.row i = some r ∧ s.merchantId = r.merchantId ∧ s.orderId = r.orderId)
    (hv : v.Distinct) : v'.Distinct := by
  intro i j s t hs ht hm ho
  obtain ⟨r, hr, hrm, hro⟩ := hrows i s hs
  obtain ⟨q, hq, hqm, hqo⟩ := hrows j t ht
  exact hv i j r q hr hq (by rw [← hrm, hm, hqm]) (by rw [← hro, ho, hqo])

theorem row_settled {i : Uuid} {s : Invoice} (hpart : v'.part = (v.write (.putInvoice i s)).part)
    (j : Uuid) : v'.row j = if j = i then some s else v.row j := by
  have h := InvoiceView.row_put i s v j
  unfold InvoiceView.row at h ⊢
  rw [hpart]
  exact h

theorem entriesOf_settled {i j : Uuid} {added : List LedgerEntry}
    (hentries : v'.entries = added ++ v.entries) (hadded : ∀ e ∈ added, e.referenceId = some i)
    (hj : j ≠ i) : v'.entriesOf j = v.entriesOf j := by
  unfold InvoiceView.entriesOf
  rw [hentries, List.filter_append, List.filter_eq_nil_iff.2, List.nil_append]
  intro e he
  simpa [hadded e he] using Ne.symm hj

/-- An invoice that is open is settled, with its entries. -/
theorem invoiceRel_settle {i : Uuid} {r s : Invoice} {added : List LedgerEntry}
    (hr : v.row i = some r) (hn : r.status ≠ .confirmed) (hm : r.Moves s)
    (hpart : v'.part = (v.write (.putInvoice i s)).part) (hentries : v'.entries = added ++ v.entries)
    (hadded : ∀ e ∈ added, e.referenceId = some i) : InvoiceRel v v' where
  addresses := by rw [hpart]; exact List.Subset.refl _
  rows j t ht := by
    by_cases hj : j = i
    · subst hj
      obtain rfl := Option.some.inj (hr.symm.trans ht)
      exact ⟨s, by rw [row_settled hpart, if_pos rfl], hm, fun hc => absurd hc hn⟩
    · exact ⟨t, by rw [row_settled hpart, if_neg hj]; exact ht, .refl t,
        fun _ => entriesOf_settled hentries hadded hj⟩

/-- What is open has no entries, and so only those that are added. -/
theorem entriesOf_new {i : Uuid} {r : Invoice} {added : List LedgerEntry}
    (hv : InvoiceInv old own v h) (hr : v.row i = some r) (hn : r.status ≠ .confirmed)
    (hentries : v'.entries = added ++ v.entries) (hadded : ∀ e ∈ added, e.referenceId = some i) :
    v'.entriesOf i = added := by
  have hnone : v.entriesOf i = [] := by
    have hkept := hv.book.kept i
    rw [hr] at hkept
    exact (invoiceKept_unpaid hn).1 hkept
  unfold InvoiceView.entriesOf at hnone ⊢
  rw [hentries, List.filter_append, hnone, List.append_nil, List.filter_eq_self.2]
  intro e he
  simp [hadded e he]

theorem invoiceInv_settle {i : Uuid} {r s : Invoice} {added : List LedgerEntry}
    (hv : InvoiceInv old own v h) (ho : ∀ i o, own i = some o → new i = some o)
    (hr : v.row i = some r) (hn : r.status ≠ .confirmed) (hm : r.Moves s) (hx : s.Exact)
    (hc : s.status = .confirmed)
    (hpart : v'.part = (v.write (.putInvoice i s)).part) (hentries : v'.entries = added ++ v.entries)
    (hadded : ∀ e ∈ added, e.referenceId = some i)
    (hpaid : (PaidOnChain new s added ∧ Observed h v i) ∨ ∃ payer, PaidBy new payer s added) :
    InvoiceInv old new v' h := by
  have hrel := invoiceRel_settle hr hn hm hpart hentries hadded
  have entries := entriesOf_new hv hr hn hentries hadded
  refine
    { book := ⟨fun j => ?_, fun e he => ?_⟩
      exact := fun j t ht => ?_
      distinct := hv.distinct.of_rows fun j t ht => ?_
      paid := fun j t ht htc => ?_
      answered := fun p j user inv hj => (hv.answered p j user inv hj).mono ho hrel }
  · rw [row_settled hpart]
    by_cases hj : j = i
    · subst hj
      rw [if_pos rfl, entries]
      exact (invoiceKept_confirmed hc).2 (hpaid.imp_left And.left)
    · rw [if_neg hj, entriesOf_settled hentries hadded hj]
      exact (hv.book.kept j).tends ho (.same _)
  · rw [hentries] at he
    rcases List.mem_append.1 he with he | he
    · exact ⟨i, hadded e he⟩
    · exact hv.book.referenced e he
  · rw [row_settled hpart] at ht
    by_cases hj : j = i
    · rw [if_pos hj] at ht
      exact Option.some.inj ht ▸ hx
    · rw [if_neg hj] at ht
      exact hv.exact j t ht
  · rw [row_settled hpart] at ht
    by_cases hj : j = i
    · rw [if_pos hj] at ht
      obtain rfl := Option.some.inj ht
      exact ⟨r, hj ▸ hr, hm.merchantId, hm.orderId⟩
    · rw [if_neg hj] at ht
      exact ⟨t, ht, rfl, rfl⟩
  · rw [row_settled hpart] at ht
    by_cases hj : j = i
    · rw [if_pos hj] at ht
      obtain rfl := Option.some.inj ht
      subst hj
      rw [entries]
      exact .inr (hpaid.symm.imp_right fun hp => hp.2.mono hrel.addresses [])
    · rw [if_neg hj] at ht
      rw [entriesOf_settled hentries hadded hj]
      refine (hv.paid j t ht htc).imp_right (.imp ?_ (·.mono hrel.addresses []))
      rintro ⟨payer, hp⟩
      exact ⟨payer, hp.mono ho rfl⟩

end

/-! ## Statements that settle nothing -/

inductive InvoiceUpdate.Gentle : InvoiceUpdate → Prop
  | markDetected (received : ℚ) (confirmations : ℤ) (txHash : Option String) :
      Gentle (.markDetected received confirmations txHash)
  | select (coin : Coin) (addr : InvoiceAddressRow) (lock : Bool) :
      Gentle (.select coin addr (splitFee addr.amount).1 (splitFee addr.amount).2 lock)
  | lockCoin : Gentle .lockCoin
  | pointSelectionAt (coin : Coin) (addr : InvoiceAddressRow) :
      Gentle (.pointSelectionAt coin addr (splitFee addr.amount).1 (splitFee addr.amount).2)
  | markSwept : Gentle .markSwept

inductive InvoiceStmt.Gentle : InvoiceStmt → Prop
  | insertInvoice (input : CreateDepositInvoiceInput) (now : Time) (lockedAt : Option Time) :
      Gentle (.insertInvoice (input.invoice now lockedAt))
  | upsertAddress (a : InvoiceAddressRow) : Gentle (.upsertAddress a)
  | findAddress (i : Uuid) (coin : Coin) : Gentle (.findAddress i coin)
  | listAddresses (i : Uuid) : Gentle (.listAddresses i)
  | lockInvoice (i : Uuid) : Gentle (.lockInvoice i)
  | invoiceById (i : Uuid) : Gentle (.invoiceById i)
  | openInvoices (limit : ℕ) : Gentle (.openInvoices limit)
  | countAtAddress (address : String) : Gentle (.countAtAddress address)
  | update (i : Uuid) {u : InvoiceUpdate} (h : u.Gentle) : Gentle (.update i u)
  | expireDue : Gentle .expireDue

section
variable {r s : Invoice} {now : Time}

theorem selected_ok {coin : Coin} {addr : InvoiceAddressRow}
    (h : r.selected coin addr (splitFee addr.amount).1 (splitFee addr.amount).2 = .ok s) :
    s.Exact ∧ s.merchantId = r.merchantId ∧ s.orderId = r.orderId ∧ s.expiresAt = r.expiresAt ∧
      s.acceptedCoins = r.acceptedCoins ∧ s.status = r.status := by
  unfold Invoice.selected at h
  obtain ⟨amount, ha, h⟩ := Fallible.bind_eq_ok h
  obtain ⟨fee, hf, h⟩ := Fallible.bind_eq_ok h
  obtain ⟨net, hn, h⟩ := Fallible.bind_eq_ok h
  obtain ⟨quote, -, h⟩ := Fallible.bind_eq_ok h
  cases h
  exact ⟨exact_of_split ha hf hn, rfl, rfl, rfl, rfl, rfl⟩

theorem map_ok {α β : Type} {g : α → β} {x : Except DbError α} {b : β} (h : x.map g = .ok b) :
    ∃ a, x = .ok a ∧ g a = b := by
  cases x with
  | error e => cases h
  | ok a => exact ⟨a, rfl, Except.ok.inj h⟩

/-- An update that settles nothing. -/
theorem moves_of_update {u : InvoiceUpdate} (hu : u.Gentle) (h : u.row now r = .ok (some s)) :
    r.Moves s ∧ (r.Exact → s.Exact) ∧ (s.status = .confirmed → r.status = .confirmed) := by
  cases hu with
  | markDetected received confirmations txHash =>
    simp only [InvoiceUpdate.row] at h
    split at h
    · rename_i hopen
      obtain ⟨received, -, h⟩ := map_ok h
      obtain rfl := Option.some.inj h
      have hst : r.status = .pending ∨ r.status = .detected := by simpa [Invoice.isOpen] using hopen
      refine ⟨⟨rfl, rfl, rfl, rfl, ?_, fun hc => ?_⟩, fun hx => ⟨hx.sum, hx.whole, hx.between⟩, ?_⟩
      · rcases hst with hst | hst
        · exact .inr (.inl ⟨hst, by simp⟩)
        · exact .inl hst.symm
      · simp [hc] at hst
      · simp
    · cases h
  | select coin addr lock =>
    simp only [InvoiceUpdate.row] at h
    split at h
    · rename_i hsel
      obtain ⟨t, ht, h⟩ := map_ok h
      obtain rfl := Option.some.inj h
      obtain ⟨hx, hm, ho, he, ha, hst⟩ := selected_ok ht
      refine ⟨⟨hm, ho, he, ha, .inl hst, fun hc => ?_⟩, fun _ => ⟨hx.sum, hx.whole, hx.between⟩,
        fun hc => hst.symm.trans hc⟩
      rw [hsel.2.1] at hc
      cases hc
    · cases h
  | lockCoin =>
    simp only [InvoiceUpdate.row] at h
    split at h
    · cases h
      exact ⟨⟨rfl, rfl, rfl, rfl, .refl _, fun _ => rfl⟩,
        fun hx => ⟨hx.sum, hx.whole, hx.between⟩, id⟩
    · cases h
  | pointSelectionAt coin addr =>
    simp only [InvoiceUpdate.row] at h
    split at h
    · rename_i hne
      obtain ⟨t, ht, h⟩ := map_ok h
      obtain rfl := Option.some.inj h
      obtain ⟨hx, hm, ho, he, ha, hst⟩ := selected_ok ht
      exact ⟨⟨hm, ho, he, ha, .inl hst, fun hc => absurd hc hne⟩, fun _ => hx,
        fun hc => hst.symm.trans hc⟩
    · cases h
  | markSwept =>
    cases h
    exact ⟨⟨rfl, rfl, rfl, rfl, .refl _, fun _ => rfl⟩,
      fun hx => ⟨hx.sum, hx.whole, hx.between⟩, id⟩

end

section
variable {v : InvoiceView}

theorem mem_entries_of_row {i : Uuid} {r : Invoice} (h : v.row i = some r) :
    (⟨i, r⟩ : Σ _ : Uuid, Invoice) ∈ v.part.invoices.entries := AList.mem_lookup_iff.1 h

theorem row_newId : v.row v.part.newId = none := by
  by_contra hne
  obtain ⟨r, hr⟩ := Option.ne_none_iff_exists'.1 hne
  have hk : v.part.newId ∈ v.part.invoices.keys := List.mem_keys_of_mem (mem_entries_of_row hr)
  have hle : v.part.newId ≤ v.part.invoices.keys.foldr max 0 := List.le_max_of_le' 0 hk le_rfl
  exact absurd hle (Nat.not_succ_le_self _)

theorem tends_put {i : Uuid} {r s : Invoice} (hr : v.row i = some r) (hm : r.Moves s)
    (hx : r.Exact → s.Exact) (hc : s.status = .confirmed → r.status = .confirmed) :
    v.Tends (v.write (.putInvoice i s)) where
  entries := rfl
  addresses := List.Subset.refl _
  rows j := by
    rw [InvoiceView.row_put]
    by_cases hj : j = i
    · rw [if_pos hj, hj, hr]
      exact .moved r s hm hx hc
    · rw [if_neg hj]
      exact .same _
  distinct := InvoiceView.Distinct.of_rows fun j t ht => by
    rw [InvoiceView.row_put] at ht
    by_cases hj : j = i
    · rw [if_pos hj] at ht
      obtain rfl := Option.some.inj ht
      exact ⟨r, hj ▸ hr, hm.merchantId, hm.orderId⟩
    · rw [if_neg hj] at ht
      exact ⟨t, ht, rfl, rfl⟩

theorem tends_insert {r : Invoice} (hr : r.status ≠ .confirmed) (hx : r.Exact)
    (ho : v.part.ordered r.merchantId r.orderId = false) :
    v.Tends (v.write (.putInvoice v.part.newId r)) where
  entries := rfl
  addresses := List.Subset.refl _
  rows j := by
    rw [InvoiceView.row_put]
    by_cases hj : j = v.part.newId
    · rw [if_pos hj, hj, row_newId]
      exact .made r hr hx
    · rw [if_neg hj]
      exact .same _
  distinct hv := by
    have other : ∀ j s, v.row j = some s → s.merchantId = r.merchantId → s.orderId ≠ r.orderId := by
      intro j s hs hm ho'
      have hnot := List.any_eq_false.1 ho _ (mem_entries_of_row hs)
      simp [hm, ho'] at hnot
    intro i j s t hs ht hm ho'
    rw [InvoiceView.row_put] at hs ht
    by_cases hi : i = v.part.newId <;> by_cases hj : j = v.part.newId
    · exact hi.trans hj.symm
    · rw [if_pos hi] at hs
      rw [if_neg hj] at ht
      obtain rfl := Option.some.inj hs
      exact absurd ho'.symm (other j t ht hm.symm)
    · rw [if_neg hi] at hs
      rw [if_pos hj] at ht
      obtain rfl := Option.some.inj ht
      exact absurd ho' (other i s hs hm)
    · rw [if_neg hi] at hs
      rw [if_neg hj] at ht
      exact hv i j s t hs ht hm ho'

def InvoiceView.writes (ws : List InvoiceWrite) (v : InvoiceView) : InvoiceView :=
  ws.foldl (fun v w => v.write w) v

def expiry (e : Uuid × Invoice) : InvoiceWrite := .putInvoice e.1 { e.2 with status := .expired }

theorem row_expired (l : List (Uuid × Invoice)) (v : InvoiceView) (j : Uuid) :
    (v.writes (l.map expiry)).row j = v.row j ∨
      ∃ r, (j, r) ∈ l ∧ (v.writes (l.map expiry)).row j = some { r with status := .expired } := by
  induction l generalizing v with
  | nil => exact .inl rfl
  | cons e l ih =>
    rcases ih (v.write (expiry e)) with h | ⟨r, hr, h⟩
    · have hrow : (v.writes ((e :: l).map expiry)).row j = (v.write (expiry e)).row j := h
      unfold expiry at hrow
      rw [InvoiceView.row_put] at hrow
      by_cases hj : j = e.1
      · rw [if_pos hj] at hrow
        exact .inr ⟨e.2, by rw [hj]; exact List.mem_cons_self, hrow⟩
      · rw [if_neg hj] at hrow
        exact .inl hrow
    · exact .inr ⟨r, List.mem_cons_of_mem _ hr, h⟩

theorem kept_expired (l : List (Uuid × Invoice)) (v : InvoiceView) :
    (v.writes (l.map expiry)).entries = v.entries ∧
      (v.writes (l.map expiry)).part.addresses = v.part.addresses := by
  induction l generalizing v with
  | nil => exact ⟨rfl, rfl⟩
  | cons e l ih => exact ih (v.write (expiry e))

theorem due_row {now : Time} {j : Uuid} {r : Invoice} (h : (j, r) ∈ v.part.due now) :
    v.row j = some r ∧ (r.status = .pending ∨ r.status = .detected) := by
  obtain ⟨hm, hopen⟩ := List.mem_filter.1 h
  obtain ⟨e, he, heq⟩ := List.mem_map.1 hm
  cases heq
  refine ⟨AList.mem_lookup_iff.2 he, ?_⟩
  have hopen : e.2.isOpen = true := (Bool.and_eq_true_iff.1 hopen).1
  simpa [Invoice.isOpen] using hopen

/-- Those that are due expire. -/
theorem tends_expired (now : Time) : v.Tends (v.writes ((v.part.due now).map expiry)) where
  entries := (kept_expired _ v).1
  addresses := by
    rw [(kept_expired _ v).2]
    exact List.Subset.refl _
  rows j := by
    rcases row_expired (v.part.due now) v j with h | ⟨r, hr, h⟩
    · rw [h]
      exact .same _
    · obtain ⟨hrow, hst⟩ := due_row hr
      rw [h, hrow]
      refine .moved r _ ⟨rfl, rfl, rfl, rfl, ?_, fun hc => ?_⟩
        (fun hx => ⟨hx.sum, hx.whole, hx.between⟩) (by simp)
      · rcases hst with hst | hst
        · exact .inr (.inl ⟨hst, by simp⟩)
        · exact .inr (.inr ⟨hst, .inr rfl⟩)
      · simp [hc] at hst
  distinct := InvoiceView.Distinct.of_rows fun j s hs => by
    rcases row_expired (v.part.due now) v j with h | ⟨r, hr, h⟩
    · exact ⟨s, h ▸ hs, rfl, rfl⟩
    · obtain rfl := Option.some.inj (h.symm.trans hs)
      exact ⟨r, (due_row hr).1, rfl, rfl⟩

theorem tends_of_eval {st : InvoiceStmt} (hst : st.Gentle) {c : Core} {a : st.Ans}
    {ws : List InvoiceWrite} (h : .ok (a, ws) ∈ st.eval c v.part) : v.Tends (v.writes ws) := by
  cases hst with
  | insertInvoice input now lockedAt =>
    obtain ⟨r, hr, ho, -, rfl⟩ := insertInvoice_ok h
    obtain ⟨amount, fee, net, ha, hf, hn, usd, quote, rfl⟩ := stored_ok hr
    exact tends_insert (fun hc => by cases hc) (exact_of_split ha hf hn) ho
  | upsertAddress b =>
    rcases upsertAddress_ok h with ⟨rfl, -⟩ | ⟨rfl, -⟩
    · exact .refl v
    · exact ⟨rfl, List.subset_cons_self _ _, fun _ => .same _, id⟩
  | update i hu =>
    rcases invoiceUpdate_ok h with ⟨-, rfl⟩ | ⟨r, s, hr, hs, -, rfl⟩
    · exact .refl v
    · obtain ⟨hm, hx, hc⟩ := moves_of_update hu hs
      exact tends_put hr hm hx hc
  | expireDue =>
    cases List.mem_singleton.1 h
    exact tends_expired c.now
  | openInvoices limit =>
    obtain rfl := openInvoices_ok h
    exact .refl v
  | findAddress | listAddresses | lockInvoice | invoiceById | countAtAddress =>
    cases List.mem_singleton.1 h
    exact .refl v

end

/-! ## The protocol -/

def invoiceProtocol (old : InvoiceView) :
    RowProtocol (walletStore invoiceTables) fun _ _ _ => True where
  inv db h := InvoiceInv old (walletOwner db) (invoiceSee db) h
  rel _ db _ db' _ := OwnersKept db db' ∧ InvoiceRel (invoiceSee db) (invoiceSee db')
  done _ _ _ := True
  quiet := InvoiceQuiet
  rel_refl _ db _ := ⟨.refl db, .refl _⟩
  rel_trans _ _ _ _ _ _ _ a b := ⟨a.1.trans b.1, a.2.trans b.2⟩
  quiet_begin _ _ := trivial
  quiet_rollback _ := trivial
  quiet_tx _ _ _ := trivial
  quiet_commit _ _ := trivial
  inv_quiet := InvoiceInv.quiet
  rel_quiet {db _ _ _} _ _ _ := ⟨.refl db, .refl _⟩
  finish {_ db _} h _ _ := ⟨h.quiet trivial, fun _ _ => ⟨.refl db, .refl _⟩⟩
  crash {_ db _} h _ := ⟨h.quiet trivial, fun _ _ => ⟨.refl db, .refl _⟩⟩
  env {db db' h} hi ht _ := by
    obtain ⟨t, -, rfl⟩ := ht
    exact ⟨hi.quiet trivial, fun _ => ⟨.refl db, .refl _⟩⟩

section
variable {old : InvoiceView} {p : Nat} {ε α β : Type}

abbrev KeepsInvoices (old : InvoiceView) (p : Nat) (A : Conf (machine (walletStore invoiceTables)) → Prop)
    (c : Invoicing ε α) (Q : Except ε α → Conf (machine (walletStore invoiceTables)) → Prop) : Prop :=
  (invoiceProtocol old).toProtocol.Triple p A c Q

abbrev InvoiceFact := Db invoiceTables → InvoiceHist → Prop

abbrev Anywhere (p : Nat) : Conf (machine (walletStore invoiceTables)) → Prop :=
  Idle (S := walletStore invoiceTables) p fun _ _ => True

theorem keepsOwners (old : InvoiceView) : KeepsOwners (invoiceProtocol old) := fun _ _ _ _ _ h => h.1

theorem acts_ext (ws : List InvoiceWrite) :
    invoiceFocus.acts (ws.map .ext) = InvoiceView.writes ws := funext fun _ => List.foldl_map

/-- What stays true of an idle process over a step of its own. -/
theorem framed_step {K : InvoiceFact} (hK : (invoiceProtocol old).Framed p K)
    {db db' : Db invoiceTables} {h : InvoiceHist} {e : InvoiceEvent} (he : InvoiceQuiet e)
    (hp : e.pid = some p) (ho : OwnersKept db db') (hr : InvoiceRel (invoiceSee db) (invoiceSee db'))
    (hi : InvoiceInv old (walletOwner db') (invoiceSee db') (e :: h)) (hk : K db h) :
    K db' (e :: h) :=
  hK.stable db (e :: h) db' (e :: h) (hK.own _ _ _ he hp hk) ⟨ho, hr⟩ (.refl p _) hi

/-- A statement on its own that settles nothing; `C` is what its answer says. -/
theorem triple_gentle [FromErr DbError ε] (st : InvoiceStmt) (hst : st.Gentle) {K : InvoiceFact}
    (hK : (invoiceProtocol old).Framed p K) {C : st.Ans → InvoiceFact}
    (hC : ∀ a, (invoiceProtocol old).Framed p (C a))
    (hok : ∀ db h a ws, K db h → .ok (a, ws) ∈ st.eval db.core db.ext → C a db h) :
    KeepsInvoices old p (Idle p K) (invoicePool st : Invoicing ε _)
      (outcome (fun a => Idle p fun db h => K db h ∧ C a db h) fun _ => Anywhere p) := by
  refine triple_walletPool (F := invoiceFocus) (.base (.ext st)) (by intro input; simp)
    (fun a => (hK.and (hC a)).stable) (fun _ => trivial) fun db h a ws hi hk he ho hsee _ => ?_
  obtain ⟨ws', he', rfl⟩ := ext_eval_ok he
  have ht : (invoiceSee db).Tends (invoiceSee (viewOf (ws'.map .ext) db)) := by
    have heq : invoiceSee (viewOf (ws'.map .ext) db) = (invoiceSee db).writes ws' :=
      hsee.trans (congrFun (acts_ext ws') _)
    rw [heq]
    exact tends_of_eval hst he'
  have hinv : InvoiceInv old (walletOwner (viewOf (ws'.map .ext) db))
      (invoiceSee (viewOf (ws'.map .ext) db))
      (.did p (.pool (.base (.ext st))) (.ok a) :: h) := (invoiceInv_tends ho ht hi).quiet trivial
  have hrel := invoiceRel_tends ht
  exact ⟨⟨hinv, fun _ _ => ⟨ho, hrel⟩⟩, framed_step hK trivial rfl ho hrel hinv hk,
    framed_step (hC a) trivial rfl ho hrel hinv (hok db h a ws' hk he')⟩

theorem framed_seen (e : InvoiceEvent) : (invoiceProtocol old).Framed p fun _ h => e ∈ h where
  stable := by
    rintro db h db' _ he - ⟨l, rfl, -⟩ -
    exact List.mem_append_right _ he
  own _ _ _ _ _ he := List.mem_cons_of_mem _ he

theorem triple_invoiceCall {K : InvoiceFact} (hK : (invoiceProtocol old).Framed p K) (c : InvoiceCall)
    (hq : ∀ r, InvoiceQuiet (.did p (.call c) r)) :
    KeepsInvoices old p (Idle p K) (invoiceCall c : Invoicing ε _)
      (outcome (fun r => Idle p fun db h =>
        K db h ∧ (Event.did p (.call c) r : InvoiceEvent) ∈ h) fun _ => Anywhere p) := by
  refine .conseq (triple_invoke (S := walletStore invoiceTables) c
    (fun r => (hK.and (framed_seen (.did p (.call c) r))).stable) fun db h r hi hk _ => ?_)
    (fun _ _ h => h) fun r _ _ h => ?_
  · exact ⟨⟨hi.quiet (hq r), fun _ _ => ⟨.refl db, .refl _⟩⟩, hK.own _ _ _ (hq r) rfl hk,
      List.mem_cons_self⟩
  · cases r with
    | ok a => exact h
    | error e => exact h.elim

/-! ## Programs that settle nothing -/

abbrev Unpaying (old : InvoiceView) (p : Nat) (c : Invoicing ε α) : Prop :=
  KeepsInvoices old p (Anywhere p) c fun _ => Anywhere p

theorem Unpaying.bind {c : Invoicing ε α} {f : α → Invoicing ε β} (hc : Unpaying old p c)
    (hf : ∀ a, Unpaying old p (f a)) : Unpaying old p (c >>= f) :=
  Protocol.Triple.bind hc hf fun _ _ _ h => h

theorem Unpaying.ret (a : α) : Unpaying old p (pure a : Invoicing ε α) :=
  Protocol.Triple.ret fun _ _ h => h

theorem Unpaying.throw (e : ε) : Unpaying old p (.throw e : Invoicing ε α) :=
  Protocol.Triple.throw fun _ _ h => h

theorem Unpaying.mapErr {ε₁ : Type} {c : Invoicing ε α} (hc : Unpaying old p c) (g : ε → ε₁) :
    Unpaying old p (c.mapErr g) := Protocol.Triple.mapErr hc

theorem Unpaying.attempt {ε₁ : Type} {c : Invoicing ε α} (hc : Unpaying old p c) :
    Unpaying old p (c.attempt : Invoicing ε₁ _) := Protocol.Triple.attempt hc

theorem unpaying_pool [FromErr DbError ε] {st : InvoiceStmt} (hst : st.Gentle) :
    Unpaying old p (invoicePool st : Invoicing ε _) :=
  .conseq (triple_gentle st hst framed_true (fun _ => framed_true) fun _ _ _ _ _ _ => trivial)
    (fun _ _ h => h) fun r _ _ h => by
      cases r with
      | ok a => exact ⟨h.1, trivial⟩
      | error e => exact h

theorem unpaying_call (c : InvoiceCall) (hq : ∀ r, InvoiceQuiet (.did p (.call c) r)) :
    Unpaying old p (invoiceCall c : Invoicing ε _) :=
  .conseq (triple_invoiceCall framed_true c hq) (fun _ _ h => h) fun r _ _ h => by
    cases r with
    | ok a => exact ⟨h.1, trivial⟩
    | error e => exact h

theorem unpaying_getInvoiceById (i : Uuid) : Unpaying old p (getInvoiceById i) := by
  refine .bind (unpaying_pool (.invoiceById i)) fun row => ?_
  cases row with
  | none => exact .throw _
  | some inv => exact .ret _

theorem unpaying_createInvoice (input : CreateDepositInvoiceInput) :
    Unpaying old p (createInvoice input) := by
  refine .bind (unpaying_call _ fun _ => trivial) fun now => ?_
  have insert (lockedAt : Option Time) : Unpaying old p ((invoicePool (.insertInvoice
      (input.invoice now lockedAt)) : Invoicing DbError _).mapErr insertInvoiceError) :=
    .mapErr (unpaying_pool (.insertInvoice input now lockedAt)) _
  have shown (a : InvoiceAddressRow) : Unpaying old p ((invoicePool (.upsertAddress a) :
      Invoicing DbError _).mapErr MerchantDepositError.addressNotStored) :=
    .mapErr (unpaying_pool (.upsertAddress a)) _
  split
  · refine .bind (unpaying_call _ fun _ => trivial) fun t => .bind (.ret _) fun lockedAt => ?_
    exact .bind (insert lockedAt) fun row => .bind (shown _) fun _ => .ret _
  · refine .bind (.ret _) fun lockedAt => ?_
    exact .bind (insert lockedAt) fun row => .bind (shown _) fun _ => .ret _

theorem unpaying_selectCoin (i : Uuid) (coin : Coin) (addr : InvoiceAddressRow) (lock : Bool) :
    Unpaying old p (selectCoin i coin addr lock) := by
  refine .bind (.mapErr (unpaying_pool (.update i (.select coin addr lock))) _) fun n => ?_
  refine .bind (.mapErr (unpaying_getInvoiceById i) _) fun inv => ?_
  split
  · exact .throw _
  · exact .ret _

theorem unpaying_mintAddress (i : Uuid) (inv : Invoice) (coin : Coin) :
    Unpaying old p (mintAddress i inv coin) := by
  unfold mintAddress
  split
  · exact .throw _
  refine .bind (unpaying_call _ fun _ => trivial) fun price => ?_
  split
  · exact .throw _
  refine .bind (unpaying_call _ fun _ => trivial) fun generated => ?_
  split
  · exact .throw _
  · exact .mapErr (unpaying_pool (.upsertAddress _)) _

theorem unpaying_selectCoinHandler (i : Uuid) (coin : Coin) :
    Unpaying old p (selectCoinHandler i coin) := by
  refine .bind (.mapErr (unpaying_getInvoiceById i) _) fun inv => ?_
  split
  · exact .throw _
  refine .bind (unpaying_call _ fun _ => trivial) fun now => ?_
  split
  · exact .throw _
  split
  · exact .throw _
  refine .bind (.mapErr (unpaying_pool (.findAddress i coin)) _) fun existing => ?_
  cases existing with
  | none => exact .bind (unpaying_mintAddress i inv coin) fun addr => unpaying_selectCoin i coin addr false
  | some a => exact .bind (.ret a) fun addr => unpaying_selectCoin i coin addr false

/-! ## Settlement -/

abbrev InvoiceAssertion := WalletAssertion invoiceTables

abbrev Amid (p : Nat) (f : InvoiceView → InvoiceView) (O : List (Uuid × Owner))
    (A : InvoiceAssertion) : Conf (machine (walletStore invoiceTables)) → Prop :=
  InTx p (Has invoiceFocus f O A)

abbrev Aborted (_ : ε) : Conf (machine (walletStore invoiceTables)) → Prop := fun _ => True

theorem triple_aborted {x : Invoicing ε α} {g : ε → β}
    {A : Conf (machine (walletStore invoiceTables)) → Prop}
    {B : α → Conf (machine (walletStore invoiceTables)) → Prop}
    (h : KeepsInvoices old p A x (outcome B Aborted)) :
    KeepsInvoices old p A (x.mapErr g) (outcome B Aborted) :=
  triple_mapErr h fun _ _ _ => trivial

abbrev invoiceRow (i : Uuid) : WalletKey invoiceTables := .base (.ext (InvoiceKey.invoice i))

def RowHeld (i : Uuid) (r : Invoice) : InvoiceAssertion := fun ks db _ =>
  invoiceRow i ∈ ks ∧ (invoiceSee db).row i = some r

theorem stays_held (i : Uuid) (r : Invoice) : Stays (invoiceProtocol old) p (RowHeld i r) :=
  stays_row (invoiceRow i) fun (row : Option Invoice) => row = some r

def LockedRow (i : Uuid) : Option Invoice → InvoiceAssertion
  | none => fun _ _ _ => True
  | some r => RowHeld i r

theorem stays_lockedRow (i : Uuid) : ∀ row, Stays (invoiceProtocol old) p (LockedRow i row)
  | none => stays_true
  | some r => stays_held i r

variable {A : InvoiceAssertion} {f : InvoiceView → InvoiceView} {O : List (Uuid × Owner)}

theorem locks_lockInvoice {i : Uuid} {r : Invoice} {c : Core} {db : InvoiceDb}
    (h : db.invoices.lookup i = some r) : (InvoiceStmt.lockInvoice i).locks c db = [.invoice i] := by
  simp [InvoiceStmt.locks, h]

theorem triple_lockInvoice (hA : Stays (invoiceProtocol old) p A) (i : Uuid) :
    KeepsInvoices old p (Amid p id O A) (lockInvoice i)
      (outcome (fun r => Amid p id O fun ks db h => A ks db h ∧ RowHeld i r ks db h) Aborted) := by
  have locked := triple_hasReading (ε := MerchantDepositError) (F := invoiceFocus) (f := id) (O := O)
    (keepsOwners old) hA (.ext (.lockInvoice i)) (by simp)
    (Focus.aside_of_reads _ fun db a ws h => by
      obtain ⟨ws', h', rfl⟩ := ext_eval_ok h
      cases List.mem_singleton.1 h'
      rfl) (stays_lockedRow i) fun ws ks db h a ws' hi hg he => ?_
  · refine .bind locked (fun row => ?_) fun _ _ _ h => h
    cases row with
    | none => exact .throw fun _ _ _ => trivial
    | some r => exact .ret fun _ _ h => h
  · obtain ⟨ws₁, h₁, -⟩ := ext_eval_ok he
    have hrow : (viewOf ws db).ext.invoices.lookup i = (invoiceSee db).row i := by
      show (invoiceSee (viewOf ws db)).row i = _
      rw [show invoiceSee (viewOf ws db) = invoiceSee db from hg.see]
    cases List.mem_singleton.1 h₁
    rw [hrow]
    cases hr : (invoiceSee db).row i with
    | none => exact trivial
    | some r =>
      refine ⟨List.mem_append_right _ ?_, hr⟩
      have hlocks : (Stmt.ext (InvoiceStmt.lockInvoice i) : Stmt invoiceTables).locks (viewOf ws db) =
          [.ext (InvoiceKey.invoice i)] :=
        congrArg (fun l : List InvoiceKey => l.map (Key.ext (X := invoiceTables)))
          (locks_lockInvoice (c := (viewOf ws db).core) (hrow.trans hr))
      rw [hlocks]
      exact List.mem_singleton_self _

/-- The credit of the merchant, in a wallet of his. -/
theorem triple_creditMerchant (hA : Stays (invoiceProtocol old) p A) (i : Uuid) (inv : Invoice) :
    KeepsInvoices old p (Amid p f O A) (creditMerchant i inv)
      (outcome (fun _ c => ∃ w n, numeric39 inv.netAmount = some n ∧
        Amid p (InvoiceView.addEntry ((merchantCredit i inv w).entry n) ∘ f)
          ((w, inv.merchantId, inv.coin, .merchant) :: O) A c) Aborted) := by
  refine .bind (triple_hasCall (keepsOwners old) hA _ fun _ => trivial) (fun walletId => ?_) fun _ _ _ h => h
  refine .bind (triple_hasInsertWallet (keepsOwners old) hA invoiceFocus_ignoresWallets _ _ _ _)
    (fun _ => ?_) fun _ _ _ h => h
  refine .bind (triple_hasWalletOf (keepsOwners old) hA inv.merchantId inv.coin .merchant
    (aside_invoiceCore _ (by simp) (by simp))) (fun found => ?_) fun _ _ _ h => h
  cases found with
  | none => exact .throw fun _ _ _ => trivial
  | some w =>
    refine .bind (triple_aborted (triple_hasLockWallet (keepsOwners old) hA w
      (aside_invoiceCore _ (by simp) (by simp)))) (fun _ => ?_) fun _ _ _ h => h
    have credit := triple_hasEntry (F := invoiceFocus) (f := f)
      (O := (w, inv.merchantId, inv.coin, .merchant) :: O) (keepsOwners old) hA
      aside_invoiceCore (merchantCredit i inv w) (o := (inv.merchantId, inv.coin, .merchant))
      List.mem_cons_self
    refine .conseq (triple_aborted credit) (fun _ _ h => h) fun r _ _ h => ?_
    cases r with
    | ok a =>
      obtain ⟨n, hn, h⟩ := h
      exact ⟨w, n, hn, h⟩
    | error e => exact trivial

/-- The row becomes what the update makes of it. -/
theorem triple_settleRow (hA : Stays (invoiceProtocol old) p A) (i : Uuid) (u : InvoiceUpdate)
    (r : Invoice) (hu : ∀ t, ∃ s, u.row t r = .ok (some s)) (hf : ∀ v, (f v).part = v.part)
    (hr : ∀ ks db h, A ks db h → (invoiceSee db).row i = some r) :
    KeepsInvoices old p (Amid p f O A)
      (invoiceQuery (.update i u) : Invoicing MerchantDepositError ℕ)
      (outcome (fun _ c => ∃ s t, u.row t r = .ok (some s) ∧
        Amid p (InvoiceView.write (.putInvoice i s) ∘ f) O A c) Aborted) := by
  have run := triple_has (ε := MerchantDepositError) (F := invoiceFocus) (f := f) (O := O)
    (keepsOwners old) hA (.base (.ext (.update i u))) (by intro input; simp)
    (g := fun _ (s : Invoice) => InvoiceView.write (.putInvoice i s)) (V := fun _ _ => [])
    (C := fun _ s _ _ _ => ∃ t, u.row t r = .ok (some s)) (fun _ _ => stays_fact _)
    fun ws ks db h a ws' hi hg he => ?_
  · refine .conseq run (fun _ _ h => h) fun a c _ h => ?_
    cases a with
    | ok a =>
      obtain ⟨s, t, ht, hg⟩ := h
      obtain ⟨time, hs⟩ := hg.left.2
      exact ⟨s, time, hs, t, ht, hg.imp (List.Subset.refl _) And.left⟩
    | error e => exact trivial
  · obtain ⟨ws₁, h₁, rfl⟩ := ext_eval_ok he
    have hrow : (viewOf ws db).ext.invoices.lookup i = some r := by
      have hpart : (invoiceSee (viewOf ws db)).part = (invoiceSee db).part := by
        rw [show invoiceSee (viewOf ws db) = f (invoiceSee db) from hg.see, hf]
      show (invoiceSee (viewOf ws db)).part.invoices.lookup i = some r
      rw [hpart]
      exact hr ks db h hg.left
    obtain ⟨s, hs⟩ := hu (viewOf ws db).core.now
    have h₁ : .ok (a, ws₁) ∈ (viewOf ws db).ext.update (viewOf ws db).core.now i u := h₁
    unfold InvoiceDb.update at h₁
    rw [hrow] at h₁
    simp only [hs] at h₁
    cases List.mem_singleton.1 h₁
    exact ⟨s, rfl, by simp, _, hs⟩

theorem framed_observed (i : Uuid) :
    (invoiceProtocol old).Framed p fun db h => Observed h (invoiceSee db) i where
  stable := by
    rintro db h db' _ ho hr ⟨l, rfl, -⟩ -
    exact ho.mono hr.2.addresses l
  own db h e _ _ ho := ho.mono (List.Subset.refl _) [e]

theorem settles_entry (input : LedgerCreditInput) (n : ℤ)
    (h : input.referenceType = some "MERCHANT_DEPOSIT" ∨
      input.referenceType = some "MERCHANT_CHECKOUT") (v : InvoiceView) :
    v.addEntry (input.entry n) = { v with entries := input.entry n :: v.entries } := by
  have hs : settles (input.entry n) = true := by
    unfold settles LedgerCreditInput.entry
    rcases h with h | h <;> simp [h]
  exact if_pos hs

structure Invoice.Settles (r s : Invoice) : Prop where
  moves : r.Moves s
  exact : r.Exact → s.Exact
  status : s.status = .confirmed
  coin : s.coin = r.coin
  amount : s.amount = r.amount
  netAmount : s.netAmount = r.netAmount

section
variable {r s : Invoice} {t : Time}

theorem ne_confirmed_of_open (hr : r.status = .pending ∨ r.status = .detected) :
    r.status ≠ .confirmed := by
  intro hc
  simp [hc] at hr

theorem leads_confirmed (hr : r.status = .pending ∨ r.status = .detected) :
    r.status.Leads .confirmed := by
  rcases hr with hr | hr
  · exact .inr (.inl ⟨hr, by simp⟩)
  · exact .inr (.inr ⟨hr, .inl rfl⟩)

theorem settles_confirm {txHash : Option String} (hr : r.status = .pending ∨ r.status = .detected)
    (hs : (InvoiceUpdate.confirm txHash).row t r = .ok (some s)) : r.Settles s := by
  cases hs
  exact ⟨⟨rfl, rfl, rfl, rfl, leads_confirmed hr, fun hc => absurd hc (ne_confirmed_of_open hr)⟩,
    fun hx => ⟨hx.sum, hx.whole, hx.between⟩, rfl, rfl, rfl, rfl⟩

theorem settles_payInternally (hr : r.status = .pending ∨ r.status = .detected)
    (hs : InvoiceUpdate.payInternally.row t r = .ok (some s)) :
    r.Settles s ∧ s.txHash = some "internal_satspay" ∧ s.receivedAmount = s.amount := by
  cases hs
  exact ⟨⟨⟨rfl, rfl, rfl, rfl, leads_confirmed hr, fun hc => absurd hc (ne_confirmed_of_open hr)⟩,
    fun hx => ⟨hx.sum, hx.whole, hx.between⟩, rfl, rfl, rfl, rfl⟩, rfl, rfl⟩

end

/-- An invoice that is open is confirmed with its entries. -/
theorem invoice_settles {db db' : Db invoiceTables} {h : InvoiceHist} {i : Uuid} {r s : Invoice}
    (added : List LedgerEntry)
    (hi : InvoiceInv old (walletOwner db) (invoiceSee db) h) (ho : OwnersKept db db')
    (hr : (invoiceSee db).row i = some r) (hst : r.status = .pending ∨ r.status = .detected)
    (hs : r.Settles s)
    (hsee : invoiceSee db' = InvoiceView.write (.putInvoice i s)
      { invoiceSee db with entries := added ++ (invoiceSee db).entries })
    (hadded : ∀ e ∈ added, e.referenceId = some i)
    (hpaid : (PaidOnChain (walletOwner db') s added ∧ Observed h (invoiceSee db) i) ∨
      ∃ payer, PaidBy (walletOwner db') payer s added) :
    (InvoiceInv old (walletOwner db') (invoiceSee db') h ∧
      InvoiceRel (invoiceSee db) (invoiceSee db')) ∧
    (invoiceSee db').row i = some s ∧ (invoiceSee db').entriesOf i = added := by
  have hne := ne_confirmed_of_open hst
  have hpart : (invoiceSee db').part = ((invoiceSee db).write (.putInvoice i s)).part := by
    rw [hsee]
    rfl
  have hentries : (invoiceSee db').entries = added ++ (invoiceSee db).entries := by
    rw [hsee]
    rfl
  exact ⟨⟨invoiceInv_settle hi ho hr hne hs.moves (hs.exact (hi.exact i r hr)) hs.status hpart hentries
    hadded hpaid, invoiceRel_settle hr hne hs.moves hpart hentries hadded⟩,
    by rw [row_settled hpart, if_pos rfl], entriesOf_new hi hr hne hentries hadded⟩

theorem triple_confirmInvoice (i : Uuid) (txHash : Option String) :
    KeepsInvoices old p (Idle p fun db h => Observed h (invoiceSee db) i) (confirmInvoice i txHash)
      fun _ => Anywhere p := by
  have hK : (invoiceProtocol old).Framed p _ := framed_observed i
  have body : KeepsInvoices old p (Amid p id [] fun _ db h => Observed h (invoiceSee db) i) (do
      let inv ← lockInvoice i
      if inv.status = .confirmed then pure (some inv)
      else if inv.status = .cancelled ∨ inv.status = .expired then .throw .invalidStatus
      else do
        creditMerchant i inv
        let _ ← invoiceQuery (.update i (.confirm txHash))
        commit
        pure none : Invoicing MerchantDepositError (Option Invoice))
      (outcome (fun _ => Over fun _ _ => True) Aborted) := by
    refine .bind (triple_lockInvoice (stays_of_framed hK) i) (fun r => ?_) fun _ _ _ h => h
    have hA := (stays_of_framed hK).and (stays_held i r)
    split
    · exact .ret fun _ _ _ => trivial
    rename_i hc
    split
    · exact .throw fun _ _ _ => trivial
    rename_i hc'
    have hst : r.status = .pending ∨ r.status = .detected := by
      cases hs : r.status <;> simp_all
    refine .bind (triple_creditMerchant hA i r) (fun _ => .of_exists fun w => .of_exists fun n =>
      .of_pure fun hn => ?_) fun _ _ _ h => h
    refine .bind (triple_settleRow hA i (.confirm txHash) r (fun _ => ⟨_, rfl⟩) (InvoiceView.part_addEntry _)
      fun ks db h hg => hg.2.2) (fun _ => .of_exists fun s => .of_exists fun t => .of_pure fun hs => ?_)
      fun _ _ _ h => h
    have done := triple_hasCommit (ε := MerchantDepositError) (R := invoiceProtocol old) (p := p)
      (F := invoiceFocus) (B := fun _ _ => True) (A := fun ks db h =>
        Observed h (invoiceSee db) i ∧ RowHeld i r ks db h)
      (O := [(w, r.merchantId, r.coin, .merchant)])
      (f := InvoiceView.write (.putInvoice i s) ∘
        InvoiceView.addEntry ((merchantCredit i r w).entry n) ∘ id) stable_true
      fun ks db db' h hi hg hsee ho hw _ => ?_
    · exact .bind done (fun _ => .ret fun _ _ _ => trivial) fun _ _ _ _ => trivial
    · have hset := settles_confirm hst hs
      have hcredit := settles_entry (merchantCredit i r w) n (.inl rfl) (invoiceSee db)
      have credited : PaidOnChain (walletOwner db') s [(merchantCredit i r w).entry n] := by
        refine ⟨w, n, ?_, ?_, rfl⟩
        · rw [hset.moves.merchantId, hset.coin]
          exact hw _ List.mem_cons_self
        · rw [hset.netAmount]
          exact hn
      obtain ⟨⟨hinv, hrel⟩, -⟩ := invoice_settles [(merchantCredit i r w).entry n] hi ho hg.2.2
        hst hset (hsee.trans (congrArg (InvoiceView.write (.putInvoice i s)) hcredit))
        (by simp [LedgerCreditInput.entry, merchantCredit]) (.inl ⟨credited, hg.1⟩)
      exact ⟨⟨hinv.quiet trivial, fun _ _ => ⟨ho, hrel⟩⟩, trivial⟩
  refine .bind (triple_hasTransaction hK (fun _ => framed_true) body) (fun confirmed => ?_)
    fun _ _ _ h => h
  cases confirmed with
  | some inv => exact .ret fun _ _ h => h
  | none => exact unpaying_getInvoiceById i

/-! ## Payments -/

def PaidFor (i user : Uuid) : InvoiceFact := fun db _ =>
  ∃ inv, Paid (walletOwner db) (invoiceSee db) i user inv

theorem framed_paid (i user : Uuid) (inv : Invoice) : (invoiceProtocol old).Framed p fun db _ =>
    Paid (walletOwner db) (invoiceSee db) i user inv where
  stable _ _ _ _ hp hr _ _ := hp.mono hr.1 hr.2
  own _ _ _ _ _ hp := hp

theorem framed_paidFor (i user : Uuid) : (invoiceProtocol old).Framed p (PaidFor i user) where
  stable := by
    rintro _ _ _ _ ⟨inv, hp⟩ hr - -
    exact ⟨inv, hp.mono hr.1 hr.2⟩
  own _ _ _ _ _ hp := hp

theorem triple_payFrom (i user w : Uuid) (r : Invoice)
    (hst : r.status = .pending ∨ r.status = .detected) (hother : user ≠ r.merchantId) :
    KeepsInvoices old p (Amid p id [(w, user, r.coin, .personal)] (RowHeld i r)) (payFrom i r w)
      (outcome (fun _ => Over (PaidFor i user)) Aborted) := by
  have hA : Stays (invoiceProtocol old) p _ := stays_held i r
  refine .bind (triple_aborted (triple_hasLockWallet (keepsOwners old) hA w
    (aside_invoiceCore _ (by simp) (by simp)))) (fun _ => ?_) fun _ _ _ h => h
  have balance : KeepsInvoices old p (Amid p id [(w, user, r.coin, .personal)] (RowHeld i r))
      (lift (getWalletBalance w)) (outcome
        (fun _ => Amid p id [(w, user, r.coin, .personal)] (RowHeld i r)) Aborted) := by
    unfold getWalletBalance
    rw [lift_coreQuery]
    exact triple_hasAside (keepsOwners old) hA _ (by simp) (aside_invoiceCore _ (by simp) (by simp))
  refine .bind (triple_aborted balance) (fun b => ?_)
    fun _ _ _ h => h
  split
  · exact .throw fun _ _ _ => trivial
  have debit := triple_hasEntry (F := invoiceFocus) (f := id) (O := [(w, user, r.coin, .personal)])
    (keepsOwners old) hA aside_invoiceCore (payerDebit i r w) List.mem_cons_self
  refine .bind (triple_aborted debit) (fun _ => .of_exists fun m =>
    .of_pure fun hm => ?_) fun _ _ _ h => h
  refine .bind (triple_creditMerchant hA i r) (fun _ => .of_exists fun v => .of_exists fun n =>
    .of_pure fun hn => ?_) fun _ _ _ h => h
  have part (u : InvoiceView) : ((u.addEntry ((payerDebit i r w).entry m)).addEntry
      ((merchantCredit i r v).entry n)).part = u.part := by simp
  refine .bind (triple_settleRow hA i .payInternally r (fun _ => ⟨_, rfl⟩) part
    fun ks db h hg => hg.2) (fun _ => .of_exists fun s => .of_exists fun t => .of_pure fun hs => ?_)
    fun _ _ _ h => h
  have done := triple_hasCommit (ε := MerchantDepositError) (R := invoiceProtocol old) (p := p)
    (F := invoiceFocus) (B := PaidFor i user) (A := RowHeld i r)
    (O := [(v, r.merchantId, r.coin, .merchant), (w, user, r.coin, .personal)])
    (f := InvoiceView.write (.putInvoice i s) ∘
      InvoiceView.addEntry ((merchantCredit i r v).entry n) ∘
        InvoiceView.addEntry ((payerDebit i r w).entry m) ∘ id) (framed_paidFor i user).stable
    fun ks db db' h hi hg hsee ho hw _ => ?_
  · exact .conseq done (fun _ _ h => h) fun r _ _ h => by
      cases r with
      | ok a => exact h.2
      | error e => exact trivial
  · obtain ⟨hset, htx, hrec⟩ := settles_payInternally hst hs
    have hentries : (((InvoiceView.addEntry ((merchantCredit i r v).entry n)) ∘
        InvoiceView.addEntry ((payerDebit i r w).entry m)) (invoiceSee db)) =
        { invoiceSee db with entries := [(merchantCredit i r v).entry n, (payerDebit i r w).entry m] ++
          (invoiceSee db).entries } := by
      rw [Function.comp_apply, settles_entry _ m (.inr rfl), settles_entry _ n (.inl rfl)]
      rfl
    have paid : PaidBy (walletOwner db') user s
        [(merchantCredit i r v).entry n, (payerDebit i r w).entry m] := by
      refine ⟨htx, hrec, ?_, v, w, n, m, ?_, ?_, ?_, ?_, rfl⟩
      · rw [hset.moves.merchantId]
        exact hother
      · rw [hset.moves.merchantId, hset.coin]
        exact hw _ List.mem_cons_self
      · rw [hset.coin]
        exact hw _ (List.mem_cons_of_mem _ List.mem_cons_self)
      · rw [hset.netAmount]
        exact hn
      · rw [hset.amount]
        exact hm
    obtain ⟨⟨hinv, hrel⟩, hrow, hown⟩ := invoice_settles _ hi ho hg.2 hst hset
      (hsee.trans (congrArg (InvoiceView.write (.putInvoice i s)) hentries))
      (by simp [LedgerCreditInput.entry, merchantCredit, payerDebit]) (.inr ⟨user, paid⟩)
    refine ⟨⟨hinv.quiet trivial, fun _ _ => ⟨ho, hrel⟩⟩, s, s, hrow, hset.status, rfl, ?_⟩
    rw [hown]
    exact paid

/-- Who has paid reads how the invoice stands. -/
theorem triple_readPaid (i user : Uuid) :
    KeepsInvoices old p (Idle p (PaidFor i user)) (getInvoiceById i)
      (outcome (fun inv => Idle p fun db _ => Paid (walletOwner db) (invoiceSee db) i user inv)
        fun _ => Anywhere p) := by
  have read := triple_gentle (ε := MerchantDepositError) (.invoiceById i) (.invoiceById i)
    (framed_paidFor i user : (invoiceProtocol old).Framed p _)
    (C := fun row db _ => ∀ inv, row = some inv → Paid (walletOwner db) (invoiceSee db) i user inv)
    (fun row =>
      { stable := fun db h db' h' hp hr he hi inv hrow =>
          (framed_paid i user inv).stable db h db' h' (hp inv hrow) hr he hi
        own := fun _ _ _ _ _ hp => hp }) fun db h row ws hp he inv hrow => ?_
  · refine .bind read (fun row => ?_) fun _ _ _ h => h
    cases row with
    | none => exact .throw fun _ _ h => ⟨h.1, trivial⟩
    | some inv => exact .ret fun _ _ h => ⟨h.1, h.2.2 inv rfl⟩
  · cases List.mem_singleton.1 he
    obtain ⟨seen, r, hr, hc, -, hp⟩ := hp
    have hrow : some r = some inv := hr.symm.trans hrow
    obtain rfl := Option.some.inj hrow
    exact ⟨r, hr, hc, rfl, hp⟩

theorem triple_payInvoice (i user : Uuid) :
    KeepsInvoices old p (Anywhere p) (payInvoiceWithBalance i user)
      (outcome (fun inv => Idle p fun db _ => Paid (walletOwner db) (invoiceSee db) i user inv)
        fun _ => Anywhere p) := by
  unfold payInvoiceWithBalance
  refine .bind (triple_hasTransaction (F := invoiceFocus) framed_true
    (fun _ => framed_paidFor i user) ?_) (fun _ => triple_readPaid i user) fun _ _ _ h => h
  refine .bind (triple_lockInvoice stays_true i) (fun r => ?_) fun _ _ _ h => h
  split
  · exact .throw fun _ _ _ => trivial
  rename_i hopen
  have hst : r.status = .pending ∨ r.status = .detected := by
    simp only [Invoice.isOpen, Bool.not_eq_true', Bool.not_eq_false, Bool.or_eq_true,
      decide_eq_true_eq] at hopen
    exact hopen
  have hA : Stays (invoiceProtocol old) p _ := stays_held i r
  have hA' := stays_true.and hA
  refine .bind (triple_hasCall (keepsOwners old) hA' _ fun _ => trivial) (fun now => ?_) fun _ _ _ h => h
  split
  · exact .throw fun _ _ _ => trivial
  split
  · exact .throw fun _ _ _ => trivial
  rename_i hother
  refine .bind (triple_hasWalletOf (keepsOwners old) hA' user r.coin .personal
    (aside_invoiceCore _ (by simp) (by simp))) (fun found => ?_) fun _ _ _ h => h
  cases found with
  | none => exact .throw fun _ _ _ => trivial
  | some w =>
    refine .conseq (triple_payFrom i user w r hst hother) (fun c _ hc => ?_) fun _ _ _ h => h
    exact inTx_has_imp (List.Subset.refl _) (fun _ _ _ h => h.2) hc

/-- Who is told that he has paid has paid. -/
theorem triple_servePayment (i user : Uuid) :
    KeepsInvoices old p (Anywhere p) (servePayment i user) fun _ => Anywhere p := by
  have work : KeepsInvoices old p (Anywhere p)
      ((payInvoiceWithBalance i user).attempt : Invoicing Empty _)
      (outcome (outcome (fun inv => Idle p fun db _ =>
        Paid (walletOwner db) (invoiceSee db) i user inv) fun _ => Anywhere p) fun _ _ => True) :=
    .attempt (.conseq (triple_payInvoice i user) (fun _ _ h => h) fun _ _ _ h => h)
  refine .bind work (fun r => ?_) fun e => e.elim
  cases r with
  | error e => exact unpaying_call (.answer i user (.error e)) fun _ => trivial
  | ok inv =>
    refine .conseq (triple_invoke (S := walletStore invoiceTables) (B := fun _ _ _ => True)
      (A := fun db _ => Paid (walletOwner db) (invoiceSee db) i user inv)
      (InvoiceCall.answer i user (.ok inv)) (fun _ => stable_true) ?_) (fun _ _ h => h) fun r _ _ h => ?_
    · intro db h _ hi hp _
      exact ⟨⟨hi.answer hp, fun _ _ => ⟨.refl db, .refl _⟩⟩, trivial⟩
    · cases r with
      | ok a => exact h
      | error e => exact h.elim

/-! ## The watcher -/

namespace InvoiceWatcher

theorem unpaying_logged (i : Uuid) {u : InvoiceUpdate} (hu : u.Gentle) : Unpaying old p (logged i u) :=
  .bind (.mapErr (unpaying_pool (.update i hu)) _) fun _ => .ret _

theorem unpaying_sweepInvoiceAddress (i : Uuid) (hdIndex : Option ℤ) (coin : Coin) :
    Unpaying old p (sweepInvoiceAddress i hdIndex coin) := by
  unfold sweepInvoiceAddress
  split
  · exact .ret _
  split
  · refine .bind (unpaying_call _ fun _ => trivial) fun swept => ?_
    split
    · exact .bind (.attempt (unpaying_logged i .markSwept)) fun _ => .ret _
    · exact .ret _
  · exact .ret _

def Shown (i : Uuid) (a : InvoiceAddressRow) : InvoiceFact := fun db _ =>
  a ∈ (invoiceSee db).part.addresses ∧ a.invoiceId = i

theorem framed_shown (i : Uuid) (a : InvoiceAddressRow) : (invoiceProtocol old).Framed p (Shown i a) where
  stable _ _ _ _ ha hr _ _ := ⟨hr.2.addresses ha.1, ha.2⟩
  own _ _ _ _ _ ha := ha

/-- A statement on its own, after which the same is known. -/
theorem triple_logged {K : InvoiceFact} (hK : (invoiceProtocol old).Framed p K) (i : Uuid)
    {u : InvoiceUpdate} (hu : u.Gentle) :
    KeepsInvoices old p (Idle p K) (logged i u) (outcome (fun _ => Idle p K) fun _ => Anywhere p) := by
  have step := triple_gentle (ε := DbError) (.update i u) (.update i hu) hK
    (fun _ => framed_true) fun _ _ _ _ _ _ => trivial
  exact .bind (triple_mapErr step fun _ _ h => h)
    (fun _ => .ret fun _ _ h => ⟨h.1, h.2.1⟩) fun _ _ _ h => h

/-- It is confirmed only where what is asked for has been seen. -/
theorem triple_scanAddress (i : Uuid) (inv : Invoice) (a : InvoiceAddressRow) :
    KeepsInvoices old p (Idle p (Shown i a)) (scanAddress i inv a) fun _ => Anywhere p := by
  refine .bind (triple_invoiceCall (framed_shown i a) (.fetchDeposits a.coin a.address) fun _ => trivial)
    (fun (deposits : Except ChainError (List OnchainTx)) => ?_) fun _ _ _ h => h
  cases deposits with
  | error e => exact .throw fun _ _ h => ⟨h.1, trivial⟩
  | ok deposits =>
    have hK := (framed_shown i a : (invoiceProtocol old).Framed p _).and
      (framed_seen (.did p (.call (.fetchDeposits a.coin a.address)) (.ok deposits)))
    dsimp only [outcome]
    split
    · exact .throw fun _ _ h => ⟨h.1, trivial⟩
    have count := triple_gentle (ε := DbError) (.countAtAddress a.address) (.countAtAddress _) hK
      (fun _ => framed_true) fun _ _ _ _ _ _ => trivial
    refine .bind (triple_mapErr count fun _ _ h => h) (fun n => ?_)
      fun _ _ _ h => h
    split
    · exact .throw fun _ _ h => ⟨h.1, trivial⟩
    refine .bind (.conseq (triple_logged hK i .lockCoin) (fun c _ h => ⟨h.1, h.2.1⟩) fun _ _ _ h => h)
      (fun _ => ?_) fun _ _ _ h => h
    have pay : KeepsInvoices old p (Idle p fun db h => Shown i a db h ∧
        .did p (.call (.fetchDeposits a.coin a.address)) (.ok deposits) ∈ h) (do
          logged i (.markDetected (scan a.coin.minConfirmations deposits).seen
            (min (scan a.coin.minConfirmations deposits).bestConfs (2 ^ 31 - 1))
            (scan a.coin.minConfirmations deposits).txHash)
          if ((scan a.coin.minConfirmations deposits).confirmed : ℚ) < a.amount then .throw ()
          else do
            let _ ← (confirmInvoice i (scan a.coin.minConfirmations deposits).txHash).mapErr fun _ => ()
            sweepInvoiceAddress i a.hdIndex a.coin : Invoicing Unit Unit) fun _ => Anywhere p := by
      refine .bind (triple_logged hK i (.markDetected _ _ _)) (fun _ => ?_) fun _ _ _ h => h
      split
      · exact .throw fun _ _ h => ⟨h.1, trivial⟩
      rename_i henough
      have confirm : KeepsInvoices old p (Idle p fun db h => Shown i a db h ∧
          .did p (.call (.fetchDeposits a.coin a.address)) (.ok deposits) ∈ h)
          (confirmInvoice i (scan a.coin.minConfirmations deposits).txHash) fun _ => Anywhere p :=
        .conseq (triple_confirmInvoice i _) (fun c _ h => ⟨h.1, p, a, deposits, h.2.1.1, h.2.1.2, h.2.2,
          not_lt.1 henough⟩) fun _ _ _ h => h
      exact .bind (Q := fun _ => Anywhere p) (.mapErr confirm)
        (fun _ => unpaying_sweepInvoiceAddress i _ _) fun _ _ _ h => h
    split
    · exact .bind (triple_logged hK i (.pointSelectionAt a.coin a)) (fun _ => pay) fun _ _ _ h => h
    · exact pay

/-- What an invoice has shown it has shown for good. -/
theorem shown_kept (i : Uuid) (addresses : List InvoiceAddressRow) (q : Nat)
    (c c' : Conf (machine (walletStore invoiceTables)))
    (hr : (invoiceProtocol old).toProtocol.Rely q c c') (_ : (invoiceProtocol old).toProtocol.Inv c')
    (h : ∀ a ∈ addresses, Shown i a c.s.db c.hist) : ∀ a ∈ addresses, Shown i a c'.s.db c'.hist :=
  fun a ha => ⟨hr.rel.2.addresses (h a ha).1, (h a ha).2⟩

theorem triple_scanAddresses (i : Uuid) (inv : Invoice) (addresses : List InvoiceAddressRow) :
    KeepsInvoices old p (Idle p fun db h => ∀ a ∈ addresses, Shown i a db h) (scanAddresses i inv addresses)
      fun _ => Anywhere p := by
  induction addresses with
  | nil => exact .ret fun _ _ h => ⟨h.1, trivial⟩
  | cons a addresses ih =>
    have one : KeepsInvoices old p (Idle p fun db h => ∀ b ∈ a :: addresses, Shown i b db h)
        ((scanAddress i inv a).attempt : Invoicing Empty _)
        (fun _ => Idle p fun db h => ∀ b ∈ addresses, Shown i b db h) :=
      .attempt (.conseq (Protocol.Triple.frame (shown_kept i addresses) (triple_scanAddress i inv a))
        (fun c _ h => ⟨⟨h.1, h.2 a List.mem_cons_self⟩, fun b hb => h.2 b (List.mem_cons_of_mem _ hb)⟩)
        fun r c _ h => ⟨h.1.1, h.2⟩)
    refine .bind one (fun r => ?_) fun _ _ _ h => ⟨h.1, trivial⟩
    cases r with
    | ok _ => exact .ret fun _ _ h => ⟨h.1, trivial⟩
    | error _ => exact ih

theorem unpaying_scanInvoice (i : Uuid) (inv : Invoice) : Unpaying old p (scanInvoice i inv) := by
  have listed : KeepsInvoices old p (Anywhere p)
      ((invoicePool (.listAddresses i) : Invoicing DbError _).attempt : Invoicing Empty _)
      (outcome (outcome (fun addresses => Idle p fun db h => ∀ a ∈ addresses, Shown i a db h)
        fun _ => Anywhere p) fun _ => Anywhere p) := by
    refine .attempt (.conseq (triple_gentle (.listAddresses i) (.listAddresses i) framed_true
      (C := fun addresses db h => ∀ a ∈ addresses, Shown i a db h) (fun addresses =>
        { stable := fun db h db' h' hs hr he hi a ha =>
            (framed_shown i a).stable db h db' h' (hs a ha) hr he hi
          own := fun _ _ _ _ _ hs => hs }) fun db h addresses ws _ he a ha => ?_) (fun _ _ h => h)
      fun r _ _ h => ?_)
    · cases List.mem_singleton.1 he
      obtain ⟨ha, hi⟩ := List.mem_filter.1 (List.mem_reverse.1 ha)
      exact ⟨ha, by simpa using hi⟩
    · cases r with
      | ok a => exact ⟨h.1, h.2.2⟩
      | error e => exact h
  refine Protocol.Triple.bind listed (fun r => ?_) fun _ _ _ h => h
  cases r with
  | error e => exact .ret fun _ _ h => h
  | ok addresses => exact triple_scanAddresses i inv addresses

theorem unpaying_scanInvoices (invoices : List (Uuid × Invoice)) :
    Unpaying old p (scanInvoices invoices) := by
  induction invoices with
  | nil => exact .ret _
  | cons inv invs ih => exact .bind (unpaying_scanInvoice inv.1 inv.2) fun _ => ih

theorem unpaying_runOnce : Unpaying old p runOnce := by
  refine .bind (.attempt (unpaying_pool .expireDue)) fun _ => ?_
  refine .bind (.attempt (unpaying_pool (.openInvoices scanBatch))) fun invoices => ?_
  cases invoices with
  | error e => exact .ret _
  | ok invoices => exact unpaying_scanInvoices invoices

end InvoiceWatcher

/-! ## Moves between a user's own wallets -/

theorem addEntry_other {input : LedgerCreditInput} (n : ℤ)
    (h : input.referenceType = some "InternalTransfer") : InvoiceView.addEntry (input.entry n) = id := by
  have hs : settles (input.entry n) = false := by
    unfold settles LedgerCreditInput.entry
    simp [h]
  funext v
  exact if_neg (by simp [hs])

/-- What is not seen is of no account. -/
theorem invoice_same {db db' : Db invoiceTables} {h : InvoiceHist}
    (hi : InvoiceInv old (walletOwner db) (invoiceSee db) h) (ho : OwnersKept db db')
    (hsee : invoiceSee db' = invoiceSee db) :
    InvoiceInv old (walletOwner db') (invoiceSee db') h ∧
      InvoiceRel (invoiceSee db) (invoiceSee db') := by
  rw [hsee]
  exact ⟨invoiceInv_tends ho (.refl _) hi, .refl _⟩

theorem unpaying_makeWallet (i userId : Uuid) (coin : Coin) (kind : WalletKind) :
    Unpaying old p (poolQuery (S := walletStore invoiceTables) (.insertWallet i userId coin kind) :
      Invoicing WalletError Unit) := by
  refine .conseq (triple_walletPool (F := invoiceFocus) (A := fun _ _ => True)
    (C := fun _ _ _ => True) (.insertWallet i userId coin kind) (by intro input; simp)
    (fun _ => stable_true) (fun _ => trivial) fun db h a ws hi _ he ho hsee _ => ?_)
    (fun _ _ h => h) fun r _ _ h => ?_
  · rw [acts_insertWallet invoiceFocus_ignoresWallets he] at hsee
    obtain ⟨hinv, hrel⟩ := invoice_same hi ho hsee
    exact ⟨⟨hinv.quiet trivial, fun _ _ => ⟨ho, hrel⟩⟩, trivial⟩
  · cases r with
    | ok a => exact h
    | error e => exact h

theorem triple_moveBetween (refId fromId toId : Uuid) (amount : ℚ) (toDeveloper : Bool)
    {from_ to_ : Owner} :
    KeepsInvoices old p (Amid p id [(toId, to_), (fromId, from_)] fun _ _ _ => True)
      (moveBetween refId amount toDeveloper fromId toId)
      (outcome (fun _ => Over fun _ _ => True) Aborted) := by
  refine .bind (triple_aborted (triple_hasLockWallets (keepsOwners old) stays_true
    (fun _ => aside_invoiceCore _ (by simp) (by simp)) _)) (fun _ => ?_)
    fun _ _ _ h => h
  have debit := triple_hasEntry (F := invoiceFocus) (f := id) (O := [(toId, to_), (fromId, from_)])
    (keepsOwners old) (stays_true (p := p)) aside_invoiceCore
    (ownTransferOut refId amount toDeveloper fromId) (List.mem_cons_of_mem _ List.mem_cons_self)
  refine .bind (triple_aborted debit) (fun _ => .of_exists fun m =>
    .of_pure fun _ => ?_) fun _ _ _ h => h
  have credit := triple_hasEntry (F := invoiceFocus)
    (f := InvoiceView.addEntry ((ownTransferOut refId amount toDeveloper fromId).entry m) ∘ id)
    (O := [(toId, to_), (fromId, from_)])
    (keepsOwners old) (stays_true (p := p)) aside_invoiceCore
    (ownTransferIn refId amount toDeveloper toId) List.mem_cons_self
  refine .bind (triple_aborted credit) (fun _ => .of_exists fun n =>
    .of_pure fun _ => ?_) fun _ _ _ h => h
  refine .conseq (triple_hasCommit (ε := WalletError) (F := invoiceFocus) (B := fun _ _ => True)
    (A := fun _ _ _ => True) stable_true fun ks db db' h hi _ hsee ho _ _ => ?_)
    (fun _ _ h => h) fun r _ _ h => ?_
  · have hsee : invoiceSee db' =
        InvoiceView.addEntry ((ownTransferIn refId amount toDeveloper toId).entry n)
          (InvoiceView.addEntry ((ownTransferOut refId amount toDeveloper fromId).entry m)
            (invoiceSee db)) := hsee
    rw [addEntry_other n rfl, addEntry_other m rfl] at hsee
    obtain ⟨hinv, hrel⟩ := invoice_same hi ho hsee
    exact ⟨⟨hinv.quiet trivial, fun _ _ => ⟨ho, hrel⟩⟩, trivial⟩
  · cases r with
    | ok a => exact trivial
    | error e => exact trivial

theorem unpaying_transferBetweenKinds (refId walletId userId : Uuid) (amount : ℚ) (toDeveloper : Bool)
    (coin : Coin) : Unpaying old p (transferBetweenKinds (X := invoiceTables) refId amount toDeveloper
      walletId userId coin) := by
  unfold transferBetweenKinds
  split
  · exact .throw _
  refine .bind (unpaying_makeWallet _ _ _ _) fun _ => ?_
  have found (kind : WalletKind) {O : List (Uuid × Owner)} :=
    triple_hasWalletOf (ε := WalletError) (F := invoiceFocus) (f := id) (O := O)
      (keepsOwners old) (stays_true (p := p)) userId coin kind
      (aside_invoiceCore _ (by simp) (by simp))
  refine .conseq (triple_hasTransaction (F := invoiceFocus) (B := fun _ _ _ => True) framed_true
    (fun _ => framed_true) ?_) (fun _ _ h => h) fun r _ _ h => by
      cases r with
      | ok a => exact h
      | error e => exact h
  refine .bind (found _) (fun fromId => ?_) fun _ _ _ h => h
  refine .bind (found _) (fun toId => ?_) fun _ _ _ h => h
  cases fromId with
  | none => exact .throw fun _ _ _ => trivial
  | some fromId =>
    cases toId with
    | none => exact .throw fun _ _ _ => trivial
    | some toId => exact triple_moveBetween refId fromId toId amount toDeveloper

end

/-! ## The runs -/

inductive InvoiceProcess : Invoicing Empty Unit → Prop
  | create (input : CreateDepositInvoiceInput) : InvoiceProcess (createInvoice input).spawn
  | select (i : Uuid) (coin : Coin) : InvoiceProcess (selectCoinHandler i coin).spawn
  | pay (i userId : Uuid) : InvoiceProcess (servePayment i userId)
  | watch : InvoiceProcess InvoiceWatcher.runOnce
  | transfer (refId walletId userId : Uuid) (amount : ℚ) (toDeveloper : Bool) (coin : Coin) :
      InvoiceProcess (transferBetweenKinds refId amount toDeveloper walletId userId coin).spawn

abbrev InvoiceRun (db : Db invoiceTables) (w : World (machine (walletStore invoiceTables))) : Prop :=
  Run InvoiceProcess (anyStep _) db w

abbrev InvoiceSteps : World (machine (walletStore invoiceTables)) →
    World (machine (walletStore invoiceTables)) → Prop :=
  Steps (machine (walletStore invoiceTables)) InvoiceProcess (anyStep _)

/-- What is asked of the store that a run starts from. -/
structure InvoiceSound (db : Db invoiceTables) : Prop where
  book : InvoiceBook (walletOwner db) (invoiceSee db)
  exact : ∀ i r, (invoiceSee db).row i = some r → r.Exact
  distinct : (invoiceSee db).Distinct

structure InvoiceLaw (db : Db invoiceTables) : Prop where
  /-- Only what is confirmed has entries: the credit of its merchant, once, and the debit of who
  has paid it out of a balance. -/
  settled : ∀ w, InvoiceRun db w →
    InvoiceBook (walletOwner w.conf.s.db) (invoiceSee w.conf.s.db)
  /-- What a payer gives is what the merchant gets and the fee. -/
  conserved : ∀ w i r payer, InvoiceRun db w → (invoiceSee w.conf.s.db).row i = some r →
    PaidBy (walletOwner w.conf.s.db) payer r ((invoiceSee w.conf.s.db).entriesOf i) →
    (((((invoiceSee w.conf.s.db).entriesOf i).map LedgerEntry.amount).sum : ℤ) : ℚ) = -r.feeAmount
  /-- What is confirmed was so, or was paid out of a balance, or has been seen paid on chain. -/
  paid : ∀ w i r, InvoiceRun db w → (invoiceSee w.conf.s.db).row i = some r →
    r.status = .confirmed → (∃ o, (invoiceSee db).row i = some o ∧ o.status = .confirmed) ∨
      (∃ payer, PaidBy (walletOwner w.conf.s.db) payer r ((invoiceSee w.conf.s.db).entriesOf i)) ∨
        Observed w.conf.hist (invoiceSee w.conf.s.db) i
  /-- No invoice is lost; to one that is confirmed nothing is added, and it is at most marked as
  swept or locked. -/
  kept : ∀ w w', InvoiceRun db w → InvoiceSteps w w' →
    InvoiceRel (invoiceSee w.conf.s.db) (invoiceSee w'.conf.s.db)
  ordered : ∀ w, InvoiceRun db w → (invoiceSee w.conf.s.db).Distinct
  answered : ∀ w p i user inv, InvoiceRun db w →
    .did p (.call (.answer i user (.ok inv))) () ∈ w.conf.hist →
    Paid (walletOwner w.conf.s.db) (invoiceSee w.conf.s.db) i user inv
  /-- No two are told that they have paid one invoice. -/
  alone : ∀ w p q i user other inv inv', InvoiceRun db w →
    .did p (.call (.answer i user (.ok inv))) () ∈ w.conf.hist →
    .did q (.call (.answer i other (.ok inv'))) () ∈ w.conf.hist → user = other

section
variable {db : Db invoiceTables} {w w' : World (machine (walletStore invoiceTables))}

theorem serves_invoices (old : InvoiceView) (c : Invoicing Empty Unit) (hc : InvoiceProcess c)
    (p : Nat) : KeepsInvoices old p (Idle p (Unborn p)) c fun _ => Over ((invoiceProtocol old).done p) := by
  have serves {c : Invoicing Empty Unit} (hc : Unpaying old p c) :
      KeepsInvoices old p (Idle p (Unborn p)) c fun _ => Over ((invoiceProtocol old).done p) :=
    .conseq hc (fun _ _ h => ⟨h.1, trivial⟩) fun _ _ _ _ => trivial
  have spawns {ε α : Type} {c : Invoicing ε α} (hc : Unpaying old p c) : Unpaying old p c.spawn :=
    .spawn hc
  cases hc with
  | create input => exact serves (spawns (unpaying_createInvoice input))
  | select i coin => exact serves (spawns (unpaying_selectCoinHandler i coin))
  | pay i userId => exact serves (triple_servePayment i userId)
  | watch => exact serves InvoiceWatcher.unpaying_runOnce
  | transfer refId walletId userId amount toDeveloper coin =>
    exact serves (spawns (unpaying_transferBetweenKinds refId walletId userId amount toDeveloper coin))

theorem invoiceInv_start (hb : InvoiceSound db) :
    InvoiceInv (invoiceSee db) (walletOwner db) (invoiceSee db) [] where
  book := hb.book
  exact := hb.exact
  distinct := hb.distinct
  paid _ r hr hc := .inl ⟨r, hr, hc⟩
  answered _ _ _ _ h := absurd h List.not_mem_nil

theorem invoiceInv_of_run (hb : InvoiceSound db) (hw : InvoiceRun db w) :
    InvoiceInv (invoiceSee db) (walletOwner w.conf.s.db) (invoiceSee w.conf.s.db) w.conf.hist :=
  RowProtocol.inv_of_steps (R := invoiceProtocol (invoiceSee db)) (serves_invoices _)
    (invoiceInv_start hb) hw

theorem invoiceRel_of_steps (hb : InvoiceSound db) (hw : InvoiceRun db w) (hs : InvoiceSteps w w') :
    InvoiceRel (invoiceSee w.conf.s.db) (invoiceSee w'.conf.s.db) :=
  RowProtocol.rel_of_steps (R := invoiceProtocol (invoiceSee db)) (serves_invoices _)
    (invoiceInv_start hb) (T := fun db _ db' _ => InvoiceRel (invoiceSee db) (invoiceSee db'))
    (fun _ _ _ _ _ h => h.2) (fun _ _ => .refl _) (fun _ _ _ _ _ _ => .trans) hw hs

end

def invoiceStart : Db invoiceTables where
  core := {
    now := 0
    wallets := (∅ : Table Wallet).insert 5 ⟨2, .btc, .personal, none⟩
    ledger := [⟨5, 200000, .adjustment, none, none, none, none⟩]
    jobs := ∅
    outbox := []
    auditLogs := [] }
  ext := {
    invoices := (∅ : Table Invoice).insert 7 ⟨1, "o", .btc, 100000, 250, 99750, "a", some 0, none, 0, 0,
      .pending, 3600, none, [.btc], none, none, none⟩
    addresses := [⟨⟨.btc, "a", 100000⟩, 7, some 0, none⟩] }

def invoiceReplies (walletId : ℕ) : (c : InvoiceCall) → c.Reply
  | .utcNow => (10 : ℕ)
  | .newWalletId => walletId
  | .fetchDeposits _ _ => .ok [⟨"t", 0, 100000, 6, "a"⟩]
  | .generateAddress _ _ => .error (.rpc "none")
  | .getPrice _ => .error ()
  | .sweepDepositToHot _ _ => .ok true
  | .answer _ _ _ => ()

def invoiceRunner : Runner (walletStore invoiceTables) where
  bound := 2
  progs := [InvoiceWatcher.runOnce, servePayment 7 2]
  tick := Db.wait
  allow _ _ := true

/-- The watcher sees the invoice paid on chain, and before it confirms it its user pays it. -/
def invoiceScript : List (Act (walletStore invoiceTables)) :=
  let reply p : Act (walletStore invoiceTables) := .op p (.answer (invoiceReplies 9))
  .start 0 0 :: proceed 0 3 ++ [reply 0] ++ proceed 0 3 ++ .start 1 1 :: proceed 1 2 ++ [reply 1] ++
    proceed 1 7 ++ [reply 1] ++ proceed 1 10 ++ [reply 1, Act.finish 1] ++ proceed 0 3 ++ [reply 0] ++
    proceed 0 1 ++ [Act.finish 0]

theorem invoiceStart_row {i : Uuid} {r : Invoice} (h : (invoiceSee invoiceStart).row i = some r) :
    i = 7 ∧ r = ⟨1, "o", .btc, 100000, 250, 99750, "a", some 0, none, 0, 0, .pending, 3600, none,
      [.btc], none, none, none⟩ := by
  have h : ((∅ : Table Invoice).insert 7 _).lookup i = some r := h
  by_cases hi : i = 7
  · subst hi
    rw [AList.lookup_insert] at h
    exact ⟨rfl, (Option.some.inj h).symm⟩
  · rw [AList.lookup_insert_ne hi, AList.lookup_empty] at h
    cases h

theorem invoiceStart_sound : InvoiceSound invoiceStart where
  book :=
    { kept := fun i => by
        have entries : (invoiceSee invoiceStart).entriesOf i = [] := rfl
        rw [entries]
        cases hr : (invoiceSee invoiceStart).row i with
        | none => rfl
        | some r =>
          obtain ⟨-, rfl⟩ := invoiceStart_row hr
          exact (invoiceKept_unpaid (by simp)).2 rfl
      referenced := by
        intro e he
        cases he }
  exact i r hr := by
    obtain ⟨-, rfl⟩ := invoiceStart_row hr
    exact ⟨by norm_num, ⟨250, by norm_num⟩, .inl ⟨by norm_num, by norm_num⟩⟩
  distinct i j r s hr hs _ _ := (invoiceStart_row hr).1.trans (invoiceStart_row hs).1.symm

end SatsPay
