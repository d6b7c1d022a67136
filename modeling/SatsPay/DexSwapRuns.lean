import SatsPay.DexMoves

/-!
# The state machine of a DEX swap

However the functions on the orders interleave and wherever they fail, a swap is
debited once, and then credited or refunded at most once, as its status says.
-/

namespace SatsPay

open Interleave ReadCommitted RowProtocol

structure Leg (coinOf : Uuid → Option Coin) (e : LedgerEntry) (type : LedgerType) (coin : Coin)
    (amount : ℤ) : Prop where
  type_eq : e.type = type
  coin_eq : coinOf e.walletId = some coin
  amount_eq : e.amount = amount

def DexSwap.Legs (coinOf : Uuid → Option Coin) (r : DexSwap) (legs : List LedgerEntry) : Prop :=
  ∃ out, Leg coinOf out .dexSwapOut r.fromCoin (-r.fromAmount) ∧
    match r.status with
    | .completed => ∃ n paid, r.actualToAmount = some n ∧ legs = [paid, out] ∧
        Leg coinOf paid .dexSwapIn r.toCoin n
    | .refunded => ∃ back, legs = [back, out] ∧
        Leg coinOf back .dexSwapRefund r.fromCoin r.fromAmount
    | _ => legs = [out]

def SwapSettled (v : DexView) : Prop :=
  match v.row with
  | none => v.legs = []
  | some r => r.fromCoin ≠ r.toCoin ∧ r.Legs v.coinOf v.legs

def DexSwapStatus.Terminal (s : DexSwapStatus) : Prop := s = .completed ∨ s = .refunded

/-- A terminal row stays as it is. -/
structure Later (v v' : DexView) : Prop where
  coinOf : v'.coinOf = v.coinOf
  row : ∀ r, v.row = some r → r.status.Terminal → v'.row = some r

theorem Later.refl (v : DexView) : Later v v := ⟨rfl, fun _ h _ => h⟩

theorem Later.trans {a b c : DexView} (h : Later a b) (h' : Later b c) : Later a c :=
  ⟨h'.coinOf.trans h.coinOf, fun r hr ht => h'.row r (h.row r hr ht) ht⟩

/-- Until the swap is credited or refunded there is the debit only. -/
theorem legs_open {coinOf : Uuid → Option Coin} {r : DexSwap} {legs : List LedgerEntry}
    (hr : ¬ r.status.Terminal) : r.Legs coinOf legs ↔
      ∃ out, Leg coinOf out .dexSwapOut r.fromCoin (-r.fromAmount) ∧ legs = [out] := by
  unfold DexSwapStatus.Terminal at hr
  push Not at hr
  unfold DexSwap.Legs
  cases hs : r.status
  case completed => exact absurd hs hr.1
  case refunded => exact absurd hs hr.2
  all_goals rfl

theorem legs_completed {coinOf : Uuid → Option Coin} {r : DexSwap} {legs : List LedgerEntry}
    (hr : r.status = .completed) : r.Legs coinOf legs ↔
      ∃ out, Leg coinOf out .dexSwapOut r.fromCoin (-r.fromAmount) ∧
        ∃ n paid, r.actualToAmount = some n ∧ legs = [paid, out] ∧
          Leg coinOf paid .dexSwapIn r.toCoin n := by
  unfold DexSwap.Legs
  rw [hr]

theorem legs_refunded {coinOf : Uuid → Option Coin} {r : DexSwap} {legs : List LedgerEntry}
    (hr : r.status = .refunded) : r.Legs coinOf legs ↔
      ∃ out, Leg coinOf out .dexSwapOut r.fromCoin (-r.fromAmount) ∧
        ∃ back, legs = [back, out] ∧ Leg coinOf back .dexSwapRefund r.fromCoin r.fromAmount := by
  unfold DexSwap.Legs
  rw [hr]

/-! ## Moves -/

section
variable {i : Uuid} {v v' : DexView}

theorem settled_of_row {r : DexSwap} (hr : v.row = some r) :
    SwapSettled v ↔ r.fromCoin ≠ r.toCoin ∧ r.Legs v.coinOf v.legs := by
  unfold SwapSettled
  rw [hr]

/-- An update of a row that is not terminal, to one that is not. -/
theorem settled_setRow {r r' : DexSwap} (hv : SwapSettled v) (hr : v.row = some r)
    (ht : ¬ r.status.Terminal) (ht' : ¬ r'.status.Terminal) (hf : r'.fromCoin = r.fromCoin)
    (hto : r'.toCoin = r.toCoin) (ha : r'.fromAmount = r.fromAmount) :
    SwapSettled (v.setRow r') ∧ Later v (v.setRow r') := by
  obtain ⟨hne, hlegs⟩ := (settled_of_row hr).1 hv
  refine ⟨(settled_of_row (DexView.setRow_row r' v)).2 ⟨by rwa [hf, hto], ?_⟩, rfl, ?_⟩
  · rw [legs_open ht, ← hf, ← ha] at hlegs
    exact (legs_open ht').2 hlegs
  · intro r₀ hr₀ ht₀
    cases hr.symm.trans hr₀
    exact absurd ht₀ ht

/-- The updates of one statement keep a terminal row from changing. -/
theorem settled_advances {u : DexSwapUpdate}
    (hu : ∀ r : DexSwap, u.guard r.status → ¬ r.status.Terminal ∧ ∀ now,
      ¬ (u.set now r).status.Terminal ∧ (u.set now r).fromCoin = r.fromCoin ∧
      (u.set now r).toCoin = r.toCoin ∧ (u.set now r).fromAmount = r.fromAmount)
    (hv : SwapSettled v) (h : Advances u v v') : SwapSettled v' ∧ Later v v' := by
  obtain ⟨r, now, hr, hg, rfl⟩ := h
  obtain ⟨ht, hset⟩ := hu r hg
  obtain ⟨ht', hf, hto, ha⟩ := hset now
  exact settled_setRow hv hr ht ht' hf hto ha

theorem settled_opens (hv : SwapSettled v) (h : Opens i v v') : SwapSettled v' ∧ Later v v' := by
  obtain ⟨input, key, w, n, now, hr, hne, hw, hn, rfl⟩ := h
  have hlegs : v.legs = [] := by
    unfold SwapSettled at hv
    rwa [hr] at hv
  have hamount : n = -(input.fromAmount : ℤ) := by
    have := numeric39_int_eq_some (m := -(input.fromAmount : ℤ)).1 (by push_cast; exact hn)
    exact this.1.symm
  have hopen : ¬ (input.row key now).status.Terminal := by
    rintro (h | h) <;> cases h
  have hlegs' : (input.row key now).Legs v.coinOf ((dexSwapOut w i input).entry n :: v.legs) := by
    rw [hlegs]
    exact (legs_open hopen).2 ⟨_, ⟨rfl, hw, hamount⟩, rfl⟩
  refine ⟨(settled_of_row rfl).2 ⟨hne, hlegs'⟩, rfl, fun r hr' => ?_⟩
  rw [hr] at hr'
  cases hr'

theorem settled_credits {toAmount : ℕ} {outboundTx : Option String} (hv : SwapSettled v)
    (h : Credits i toAmount outboundTx v v') : SwapSettled v' ∧ Later v v' := by
  obtain ⟨r, w, n, now, now', hr, hc, hw, hn, rfl⟩ := h
  have ht : ¬ r.status.Terminal := by
    rintro (h | h) <;> rw [h] at hc <;> cases hc
  obtain ⟨hne, hlegs⟩ := (settled_of_row hr).1 hv
  obtain ⟨out, hout, hlegs⟩ := (legs_open ht).1 hlegs
  have hamount : n = (toAmount : ℤ) := by
    have := numeric39_int_eq_some (m := (toAmount : ℤ)).1 (by push_cast; exact hn)
    exact this.1.symm
  have hlegs' : ((DexSwapUpdate.completed toAmount outboundTx).set now'
      (DexSwapUpdate.crediting.set now r)).Legs v.coinOf
      ((dexSwapIn w i toAmount).entry n :: v.legs) := by
    rw [hlegs]
    exact (legs_completed rfl).2 ⟨out, hout, toAmount, _, rfl, rfl, rfl, hw, hamount⟩
  refine ⟨(settled_of_row (DexView.setRow_row _ _)).2 ⟨hne, hlegs'⟩, rfl, fun r₀ hr₀ ht₀ => ?_⟩
  cases hr.symm.trans hr₀
  exact absurd ht₀ ht

theorem settled_refunds {reason : String} (hv : SwapSettled v) (h : Refunds i reason v v') :
    SwapSettled v' ∧ Later v v' := by
  obtain ⟨r, w, n, now, now', hr, hc, hw, hn, rfl⟩ := h
  have ht : ¬ r.status.Terminal := by
    rintro (h | h)
    · exact hc.2.1 h
    · exact hc.1 h
  obtain ⟨hne, hlegs⟩ := (settled_of_row hr).1 hv
  obtain ⟨out, hout, hlegs⟩ := (legs_open ht).1 hlegs
  have hamount : n = (r.fromAmount : ℤ) := by
    have := numeric39_int_eq_some (m := (r.fromAmount : ℤ)).1 (by push_cast; exact hn)
    exact this.1.symm
  have hlegs' : (DexSwapUpdate.refunded.set now' ((DexSwapUpdate.refunding reason).set now r)).Legs
      v.coinOf ((dexSwapRefund w i r.fromAmount reason).entry n :: v.legs) := by
    rw [hlegs]
    exact (legs_refunded rfl).2 ⟨out, hout, _, rfl, rfl, hw, hamount⟩
  refine ⟨(settled_of_row (DexView.setRow_row _ _)).2 ⟨hne, hlegs'⟩, rfl, fun r₀ hr₀ ht₀ => ?_⟩
  cases hr.symm.trans hr₀
  exact absurd ht₀ ht

end

/-! ## Runs -/

/-- The processes: each calls one of the functions. -/
inductive DexSwapClient (E : DexEnv) : Code (satsPay dexExt) Empty Unit → Prop
  | lockAndCreate (input : LockDexSwapInput) : DexSwapClient E (lockAndCreate E input).spawn
  | markBroadcasting (i : Uuid) (depositAddress : String) (memo : Option String)
      (swapPayload : Value) :
      DexSwapClient E (markBroadcasting i depositAddress memo swapPayload).spawn
  | markInFlight (i : Uuid) (inboundTx : String) : DexSwapClient E (markInFlight i inboundTx).spawn
  | creditAndComplete (i : Uuid) (toAmount : ℕ) (outboundTx : Option String) :
      DexSwapClient E (creditAndComplete i toAmount outboundTx).spawn
  | markFailed (i : Uuid) (error : String) : DexSwapClient E (markFailed i error).spawn
  | refund (i : Uuid) (reason : String) : DexSwapClient E (refund i reason).spawn

def dexSwapPlan (i : Uuid) : Plan (dexFocus i) fun _ _ _ => True :=
  .ofState _ SwapSettled Later Later.refl fun _ _ _ => Later.trans

theorem plain_dexSwapPlan (i : Uuid) : (dexSwapPlan i).Plain :=
  ⟨fun _ _ _ _ _ h => h.coinOf, fun _ => trivial, fun _ _ _ _ => trivial, fun _ _ _ => trivial,
    fun _ _ => trivial⟩

theorem takes_dexSwapPlan {i : Uuid} {p : Nat} {e : DexEvent} {M : DexView → DexView → Prop}
    (hM : ∀ v v', SwapSettled v → M v v' → SwapSettled v' ∧ Later v v') :
    (dexSwapPlan i).Takes p (fun _ => True) e M := by
  intro db h v hi _ _ hm
  obtain ⟨h₁, h₂⟩ := hM _ _ hi hm
  exact ⟨h₁, fun _ _ => h₂⟩

theorem keeps_dexSwapClient {E : DexEnv} {i : Uuid} {p : Nat} {c : Code (satsPay dexExt) Empty Unit}
    (hc : DexSwapClient E c) : (dexSwapPlan i).rows.toProtocol.Triple p (Idle p (Unborn p)) c
      fun _ => Over ((dexSwapPlan i).rows.done p) := by
  have hP := plain_dexSwapPlan i
  have hB : (dexSwapPlan i).Knows p fun _ => True := Plan.knows_true
  have spawn : ∀ {ε α : Type} {x : DexSwaps ε α}, (dexSwapPlan i).Calm p (fun _ => True) x →
      (dexSwapPlan i).rows.toProtocol.Triple p (Idle p (Unborn p)) x.spawn
        fun _ => Over ((dexSwapPlan i).rows.done p) := fun hx =>
    .conseq (.spawn hx) (fun _ _ h => ⟨h.1, trivial⟩) fun _ _ _ _ => trivial
  cases hc with
  | lockAndCreate input =>
    exact spawn (keeps_lockAndCreate E hP hB input (takes_dexSwapPlan fun _ _ => settled_opens)
      fun j => calm_dexPool hB trivial fun _ => trivial)
  | markBroadcasting j depositAddress memo swapPayload =>
    refine spawn (keeps_markBroadcasting hP hB j _ _ _ fun _ _ =>
      takes_dexSwapPlan fun _ _ => settled_advances fun r hr => ⟨?_, fun now => ⟨?_, rfl, rfl, rfl⟩⟩)
    · rintro (h | h) <;> rw [h] at hr <;> cases hr
    · rintro (h | h) <;> cases h
  | markInFlight j inboundTx =>
    refine spawn (keeps_markInFlight hP hB j _ fun _ _ =>
      takes_dexSwapPlan fun _ _ => settled_advances fun r hr => ⟨?_, fun now => ⟨?_, rfl, rfl, rfl⟩⟩)
    · rintro (h | h) <;> rw [h] at hr <;> cases hr
    · rintro (h | h) <;> cases h
  | creditAndComplete j toAmount outboundTx =>
    exact spawn (keeps_creditAndComplete hP hB j _ _ fun _ =>
      takes_dexSwapPlan fun _ _ => settled_credits)
  | markFailed j error =>
    refine spawn (keeps_markFailed hP hB j _ fun _ _ =>
      takes_dexSwapPlan fun _ _ => settled_advances fun r hr => ⟨?_, fun now => ⟨?_, rfl, rfl, rfl⟩⟩)
    · rintro (h | h) <;> rw [h] at hr <;> cases hr
    · rintro (h | h) <;> cases h
  | refund j reason =>
    exact spawn (keeps_refund hP hB j _ fun _ => takes_dexSwapPlan fun _ _ => settled_refunds)

/-! ## What a run leaves -/

theorem sumWhere_and (p q : LedgerEntry → Bool) : ∀ l : List LedgerEntry,
    sumWhere (fun e => p e && q e) l = sumWhere q (l.filter p)
  | [] => rfl
  | e :: l => by
    by_cases h : p e
    · rw [List.filter_cons_of_pos h, sumWhere_cons, sumWhere_cons, sumWhere_and p q l, h,
        Bool.true_and]
    · rw [List.filter_cons_of_neg h, sumWhere_cons, sumWhere_and p q l]
      simp [h]

def entriesOfType (i : Uuid) (type : LedgerType) (c : Core) : List LedgerEntry :=
  c.ledger.filter fun e => isLeg i e && e.type == type

def netIn (i : Uuid) (coin : Coin) (c : Core) : ℤ :=
  sumWhere (fun e => isLeg i e && decide ((c.wallets.lookup e.walletId).map Wallet.coin = some coin))
    c.ledger

structure DexSwap.Kept (i : Uuid) (r : DexSwap) (c : Core) : Prop where
  notBoth : entriesOfType i .dexSwapIn c = [] ∨ entriesOfType i .dexSwapRefund c = []
  creditedOnce : (entriesOfType i .dexSwapIn c).length ≤ 1
  refundedOnce : (entriesOfType i .dexSwapRefund c).length ≤ 1
  net : netIn i r.fromCoin c = if r.status = .refunded then 0 else -(r.fromAmount : ℤ)
  credited : (∃ e ∈ entriesOfType i .dexSwapIn c, r.actualToAmount.map Nat.cast = some e.amount) ↔
    r.status = .completed

theorem entriesOfType_eq (i : Uuid) (type : LedgerType) (db : Db dexExt) :
    entriesOfType i type db.core = (dexSee i db).legs.filter fun e => e.type == type := by
  show db.core.ledger.filter _ = (db.core.ledger.filter (isLeg i)).filter _
  rw [List.filter_filter]
  exact List.filter_congr fun e _ => Bool.and_comm _ _

theorem netIn_eq (i : Uuid) (coin : Coin) (db : Db dexExt) :
    netIn i coin db.core =
      sumWhere (fun e => decide ((dexSee i db).coinOf e.walletId = some coin)) (dexSee i db).legs :=
  sumWhere_and _ _ _

theorem kept_of_settled {i : Uuid} {db : Db dexExt} {r : DexSwap} (h : SwapSettled (dexSee i db))
    (hr : db.ext.dexSwaps.lookup i = some r) : r.Kept i db.core := by
  obtain ⟨hne, hlegs⟩ := (settled_of_row (v := dexSee i db) hr).1 h
  by_cases ht : r.status.Terminal
  · rcases ht with hs | hs
    · obtain ⟨out, hout, n, paid, hn, hl, hpaid⟩ := (legs_completed hs).1 hlegs
      have hto : r.toCoin ≠ r.fromCoin := Ne.symm hne
      constructor <;>
        simp [entriesOfType_eq, netIn_eq, hl, hs, hn, hout.type_eq, hout.coin_eq, hout.amount_eq,
          hpaid.type_eq, hpaid.coin_eq, hpaid.amount_eq, hto]
    · obtain ⟨out, hout, back, hl, hback⟩ := (legs_refunded hs).1 hlegs
      constructor <;>
        simp [entriesOfType_eq, netIn_eq, hl, hs, hout.type_eq, hout.coin_eq, hout.amount_eq,
          hback.type_eq, hback.coin_eq, hback.amount_eq]
  · obtain ⟨out, hout, hl⟩ := (legs_open ht).1 hlegs
    unfold DexSwapStatus.Terminal at ht
    push Not at ht
    constructor <;>
      simp [entriesOfType_eq, netIn_eq, hl, ht.1, ht.2, hout.type_eq, hout.coin_eq, hout.amount_eq]

structure NoSwaps (db : Db dexExt) : Prop where
  rows : ∀ i, db.ext.dexSwaps.lookup i = none
  entries : ∀ e ∈ db.core.ledger, e.referenceType ≠ some "DexSwap"

theorem settled_of_noSwaps {db : Db dexExt} (h : NoSwaps db) (i : Uuid) : SwapSettled (dexSee i db) := by
  unfold SwapSettled
  rw [show (dexSee i db).row = none from h.rows i]
  exact List.filter_eq_nil_iff.2 fun e he hl => h.entries e he (isLeg_iff.1 hl).1

/-- Whatever calls are made and whichever of them fail, the ledger has of a swap what
its status says, and a swap that is completed or refunded stays as it is. -/
theorem dexSwap_kept (E : DexEnv) {db : Db dexExt} (hdb : NoSwaps db)
    {w : World (machine (satsPay dexExt))} (hs : Run (DexSwapClient E) (anyStep _) db w) {i : Uuid}
    {r : DexSwap} (hr : w.conf.s.db.ext.dexSwaps.lookup i = some r) :
    r.Kept i w.conf.s.db.core ∧ (r.status.Terminal →
      ∀ w', Steps (machine (satsPay dexExt)) (DexSwapClient E) (anyStep _) w w' →
        w'.conf.s.db.ext.dexSwaps.lookup i = some r) := by
  have hinv : SwapSettled (dexSee i w.conf.s.db) :=
    (dexSwapPlan i).rows.inv_of_steps (fun _ hc _ => keeps_dexSwapClient hc)
      (settled_of_noSwaps hdb i) hs
  refine ⟨kept_of_settled hinv hr, fun ht w' hs' => ?_⟩
  have hlater : Later (dexSee i w.conf.s.db) (dexSee i w'.conf.s.db) :=
    (dexSwapPlan i).rows.rel_of_steps (fun _ hc _ => keeps_dexSwapClient hc)
      (settled_of_noSwaps hdb i) (T := fun db _ db' _ => Later (dexSee i db) (dexSee i db'))
      (fun _ _ _ _ _ h => h.2) (fun _ _ => Later.refl _) (fun _ _ _ _ _ _ => Later.trans) hs hs'
  exact hlater.row r hr ht

/-! A swap of 2 BTC for 3 LTC, from its creation to its credit. -/

def plainDexEnv : DexEnv where
  changenowConfigured := true
  relayConfigured := true
  numericText := toString
  toUppercase := String.toUpper
  dbText _ := "db"
  ledgerText _ := "ledger"
  malformedText _ := "malformed job payload"

def btcForLtc : LockDexSwapInput where
  userId := 7
  fromCoin := .btc
  toCoin := .ltc
  fromAmount := 2
  expectedToAmount := 3
  minToAmount := none
  provider := "CHANGENOW"
  providers := []
  quoteId := none
  platformFeeBps := 0
  platformFeeAmount := 0
  txHint := none
  swapPayload := none
  idempotencyKey := "k"

def twoWallets : Db dexExt where
  core := {
    now := 0
    wallets := ((∅ : Table Wallet).insert 1 ⟨7, .btc, .personal, none⟩).insert 2
      ⟨7, .ltc, .personal, none⟩
    ledger := [⟨1, 5, .deposit, none, none, none, none⟩]
    jobs := ∅
    outbox := []
    auditLogs := [] }
  ext := ⟨∅, []⟩

def nineAnswers : (c : DexCall) → c.Reply
  | .newUuid => (9 : Nat)
  | .broadcast _ _ _ => .error ⟨"down", true⟩
  | .changenowStatus _ _ => .error "down"
  | .relayStatus _ _ => .error "down"
  | .swapkitTrack _ _ => .error "down"

def swapRunner : Runner (satsPay dexExt) where
  bound := 4
  progs := [(lockAndCreate plainDexEnv btcForLtc).spawn, (markBroadcasting 9 "a" none .null).spawn,
    (markInFlight 9 "t").spawn, (creditAndComplete 9 3 none).spawn]
  tick := Db.wait
  allow _ _ := true

def swapScript : List (Act (satsPay dexExt)) :=
  let reply : Act (satsPay dexExt) := .op 0 (.answer nineAnswers)
  .start 0 0 :: proceed 0 6 ++ [reply] ++ proceed 0 8 ++ [Act.finish 0, Act.start 1 1] ++
    proceed 1 1 ++ [Act.finish 1, Act.start 2 2] ++ proceed 2 1 ++ [Act.finish 2, Act.start 3 3] ++
    proceed 3 11 ++ [Act.finish 3]

theorem dexSwapClient_swapRunner : ∀ c ∈ swapRunner.progs, DexSwapClient plainDexEnv c := by
  intro c hc
  simp only [swapRunner, List.mem_cons, List.not_mem_nil, or_false] at hc
  rcases hc with rfl | rfl | rfl | rfl
  · exact .lockAndCreate _
  · exact .markBroadcasting _ _ _ _
  · exact .markInFlight _ _
  · exact .creditAndComplete _ _ _

theorem noSwaps_twoWallets : NoSwaps twoWallets :=
  ⟨fun _ => rfl, fun e he => by cases List.mem_singleton.1 he; simp⟩

theorem dexSwap_kept_btcForLtc : ∃ (w : World (machine (satsPay dexExt))) (r : DexSwap),
    Run (DexSwapClient plainDexEnv) (anyStep _) twoWallets w ∧
    w.conf.s.db.ext.dexSwaps.lookup 9 = some r ∧ r.status = .completed ∧
    r.Kept 9 w.conf.s.db.core := by
  have hrun : (swapRunner.run swapScript (.init _ (.start twoWallets))).map
      (fun w => (w.conf.s.db.ext.dexSwaps.lookup 9).map DexSwap.status) =
      some (some .completed) := by decide +kernel
  obtain ⟨w, hw, hstatus⟩ := Option.map_eq_some_iff.1 hrun
  obtain ⟨r, hr, hr'⟩ := Option.map_eq_some_iff.1 hstatus
  have hs : Run (DexSwapClient plainDexEnv) (anyStep _) twoWallets w :=
    Runner.steps_of_run (R := swapRunner) dexSwapClient_swapRunner Db.tick_wait
      (fun _ _ _ => trivial) (fun _ _ => rfl) hw
  exact ⟨w, r, hs, hr, hr', (dexSwap_kept plainDexEnv noSwaps_twoWallets hs hr).1⟩

end SatsPay
