import SatsPay.TxInvariants
import SatsPay.WithdrawalRuns

/-!
# The idempotency key of a withdrawal request

Keys are scoped by user, and a row is entered together with its debit. For any
interleaving of requests, a key of a user has one row and one debit, and a request
that made no row has changed nothing.
-/

namespace SatsPay

open Interleave ReadCommitted

/-! ## Scoped keys -/

def scopedKey (userId : Uuid) (key : String) : String := toString userId ++ ":" ++ key

theorem toList_toString (n : ℕ) : (toString n).toList = Nat.toDigits 10 n := by
  show (Nat.repr n).toList = _
  simp [Nat.repr]

/-- The first colon ends the user's id. -/
theorem takeWhile_scopedKey (userId : Uuid) (key : String) :
    (scopedKey userId key).toList.takeWhile (· != ':') = (toString userId).toList := by
  have hdigits : ∀ c ∈ (toString userId).toList, (c != ':') = true := by
    intro c hc
    rw [toList_toString] at hc
    have := Nat.isDigit_of_mem_toDigits (by norm_num) (by norm_num) hc
    rw [bne_iff_ne]
    rintro rfl
    exact absurd this (by decide)
  rw [scopedKey, String.toList_append, String.toList_append, List.append_assoc,
    List.takeWhile_append_of_pos hdigits]
  simp

theorem scopedKey_inj {u v : Uuid} {k l : String} (h : scopedKey u k = scopedKey v l) : u = v := by
  have hu := takeWhile_scopedKey u k
  rw [h, takeWhile_scopedKey, toList_toString, toList_toString] at hu
  have := congrArg (Nat.ofDigitChars 10 · 0) hu
  simpa [Nat.ofDigitChars_ten_toDigits] using this.symm

/-! ## What a request does -/

abbrev WdOp := Op (satsPay withdrawalsExt)
abbrev WdDid := Did (sig (satsPay withdrawalsExt))
abbrev WdTrace := List WdDid

abbrev insertion (id : Uuid) (input : NewWithdrawal) : WdOp := .tx (.ext (.insertWithdrawal id input))
abbrev ledgerInsertion (input : LedgerCreditInput) : WdOp := .tx (.core (.insertLedgerEntry input))

def NotInserted (t : WdTrace) : Prop := ∀ id input, (⟨insertion id input, .ok ()⟩ : WdDid) ∉ t

def NotDebited (t : WdTrace) : Prop := ∀ input, input.ledgerType = .withdrawal →
  (⟨ledgerInsertion input, .ok ()⟩ : WdDid) ∉ t

def FoundBy (key : String) (id : Uuid) (r : Withdrawal) (t : WdTrace) : Prop :=
  (⟨.pool (.ext (.findByIdempotencyKey key)), .ok (some (id, r))⟩ : WdDid) ∈ t ∨
    (⟨.tx (.ext (.findByIdempotencyKey key)), .ok (some (id, r))⟩ : WdDid) ∈ t

/-- A row is entered once, in the wallet that was looked up, before its entries, of which
one is the debit. -/
def Requests (t : WdTrace) : WdOp → Prop
  | .begin => NotInserted t
  | .tx (.ext (.insertWithdrawal _ input)) => NotInserted t ∧ ∃ userId key coin,
      (⟨.tx (.core (.walletOf userId coin .personal)), .ok (some input.walletId)⟩ : WdDid) ∈ t ∧
        input.idempotencyKey = Option.map (scopedKey userId) key
  | .tx (.ext (.findByIdempotencyKey _)) => NotInserted t
  | .tx (.ext _) => False
  | .tx (.core (.insertLedgerEntry entry)) =>
      (∃ id input, (⟨insertion id input, .ok ()⟩ : WdDid) ∈ t ∧ entry.referenceId = some id) ∧
        (entry.ledgerType = .withdrawal → NotDebited t)
  | .tx (.core (.lockWallet _)) => True
  | .tx (.core (.reorgHoldAt _)) => True
  | .tx (.core (.walletBalance _)) => True
  | .tx (.core (.walletOf _ _ _)) => True
  | .tx (.core _) => False
  | .pool (.ext (.findByIdempotencyKey _)) => True
  | .pool _ => False
  | _ => True

theorem NotInserted.cons {t : WdTrace} (h : NotInserted t) {o : WdOp}
    (ho : ∀ id input, o ≠ insertion id input) (r : Op.Resp _ o) : NotInserted (⟨o, r⟩ :: t) := by
  intro id input hm
  rcases List.mem_cons.1 hm with hm | hm
  · cases hm
    exact ho id input rfl
  · exact h id input hm

theorem NotInserted.cons_error {t : WdTrace} (h : NotInserted t) (id : Uuid) (input : NewWithdrawal)
    (e : DbError) : NotInserted (⟨insertion id input, .error e⟩ :: t) := by
  intro id' input' hm
  rcases List.mem_cons.1 hm with hm | hm
  · cases hm
  · exact h id' input' hm

theorem NotDebited.cons {t : WdTrace} (h : NotDebited t) {o : WdOp}
    (ho : ∀ input, o ≠ ledgerInsertion input) (r : Op.Resp _ o) : NotDebited (⟨o, r⟩ :: t) := by
  intro input hi hm
  rcases List.mem_cons.1 hm with hm | hm
  · cases hm
    exact ho input rfl
  · exact h input hi hm

/-! ## The book of keys -/

def isDebitOf (id : Uuid) (e : LedgerEntry) : Bool :=
  e.type == .withdrawal && e.referenceId == some id

def debits (id : Uuid) (es : List LedgerEntry) : ℕ := es.countP (isDebitOf id)

def OwnKey (wallets : Table Wallet) (walletId : Uuid) (key : String) : Prop :=
  ∃ w k, wallets.lookup walletId = some w ∧ key = scopedKey w.userId k

/-- A key has one row, which is of the key's user, and a row has one debit at most. -/
structure KeyBook (db : WdDb) : Prop where
  unique : ∀ i j r s key, rowOf i db = some r → rowOf j db = some s →
    r.idempotencyKey = some key → s.idempotencyKey = some key → i = j
  own : ∀ i r key, rowOf i db = some r → r.idempotencyKey = some key →
    OwnKey db.core.wallets r.walletId key
  debits : ∀ i, debits i db.core.ledger ≤ if (rowOf i db).isSome then 1 else 0

structure Entered (t : WdTrace) (u : Tx (satsPay withdrawalsExt)) (db : WdDb) (id : Uuid)
    (r : Withdrawal) (es : List LedgerEntry) : Prop where
  inserted : ∃ input, (⟨insertion id input, .ok ()⟩ : WdDid) ∈ t
  only : ∀ id' input, (⟨insertion id' input, .ok ()⟩ : WdDid) ∈ t → id' = id
  writes : u.writes = .ext (.put id r) :: es.map fun e => .core (.addEntry e)
  absent : rowOf id db = none
  locked : .ext (.row id) ∈ u.locks
  free : ∀ key, r.idempotencyKey = some key → .ext (.idempotencyKey key) ∈ u.locks ∧
    ∀ j s, rowOf j db = some s → s.idempotencyKey ≠ some key
  own : ∀ key, r.idempotencyKey = some key → OwnKey db.core.wallets r.walletId key
  refs : ∀ e ∈ es, e.referenceId = some id
  debits : SatsPay.debits id es ≤ 1
  undebited : NotDebited t → SatsPay.debits id es = 0

def OpenRequest (t : WdTrace) (u : Tx (satsPay withdrawalsExt)) (db : WdDb) : Prop :=
  (u.writes = [] ∧ (u.aborted = true ∨ NotInserted t)) ∨ ∃ id r es, Entered t u db id r es

/-- Rows that were found are still there, and wallets that were looked up are their users'. -/
structure Remembered (db : WdDb) (h : WdHist) : Prop where
  found : ∀ p key id r, FoundBy key id r (doneBy p h) →
    rowOf id db = some r ∧ r.idempotencyKey = some key
  wallet : ∀ p userId coin id,
    (⟨.tx (.core (.walletOf userId coin .personal)), .ok (some id)⟩ : WdDid) ∈ doneBy p h →
    ∃ w, db.core.wallets.lookup id = some w ∧ w.userId = userId

structure KeyInv (db : WdDb) (h : WdHist) : Prop where
  book : KeyBook db
  remembered : Remembered db h

/-! ## Steps -/

theorem insertWithdrawal_eq_ok {c : Core} {db : WithdrawalsDb} {id : Uuid} {input : NewWithdrawal}
    {a : Unit} {ws : List WithdrawalsWrite} (h : db.insert c id input = .ok (a, ws)) :
    db.withdrawals.lookup id = none ∧ input.idempotencyKey.bind db.find = none ∧
      ∃ amount feeAmount, ws = [.put id (input.row amount feeAmount c.now)] := by
  unfold WithdrawalsDb.insert at h
  split at h
  · split at h
    · cases h
    · rename_i hk
      split at h
      · cases h
      · cases h
        rw [not_or] at hk
        exact ⟨by simpa using hk.1, by simpa using hk.2, _, _, rfl⟩
  · cases h

theorem find_eq_none {db : WithdrawalsDb} {key : String} (h : db.find key = none) {j : Uuid}
    {s : Withdrawal} (hs : db.withdrawals.lookup j = some s) : s.idempotencyKey ≠ some key := by
  intro hk
  have hm : (⟨j, s⟩ : Sigma fun _ : Uuid => Withdrawal) ∈ db.withdrawals.entries :=
    AList.mem_lookup_iff.1 hs
  have := List.find?_eq_none.1 (Option.map_eq_none_iff.1 h) _ hm
  simp [hk] at this

theorem find_eq_some {db : WithdrawalsDb} {key : String} {id : Uuid} {r : Withdrawal}
    (h : db.find key = some (id, r)) :
    db.withdrawals.lookup id = some r ∧ r.idempotencyKey = some key := by
  obtain ⟨x, hx, he⟩ := Option.map_eq_some_iff.1 h
  cases he
  exact ⟨AList.mem_lookup_iff.2 (List.mem_of_find?_eq_some hx), by simpa using List.find?_some hx⟩

theorem applyAll_entries : ∀ (es : List LedgerEntry) (db : WdDb),
    applyAll (S := satsPay withdrawalsExt) (es.map fun e => .core (.addEntry e)) db =
      { db with core := { db.core with ledger := es.reverse ++ db.core.ledger } }
  | [], _ => rfl
  | e :: es, db => by
    rw [List.map_cons, applyAll_cons, applyAll_entries es]
    simp [Write.apply, CoreWrite.apply]

section
variable {t t' : WdTrace} {u u' : Tx (satsPay withdrawalsExt)} {db : WdDb} {id id' : Uuid}
  {r r' : Withdrawal} {es es' : List LedgerEntry} {h : WdHist}

namespace Entered

theorem view (he : Entered t u db id r es) : u.view db =
    { core := { db.core with ledger := es.reverse ++ db.core.ledger },
      ext := { db.ext with withdrawals := db.ext.withdrawals.insert id r } } := by
  rw [Tx.view, he.writes, applyAll_cons, applyAll_entries]
  rfl

theorem rowOf_view (he : Entered t u db id r es) (j : Uuid) :
    rowOf j (u.view db) = if j = id then some r else rowOf j db := by
  rw [he.view]
  by_cases hj : j = id
  · subst hj
    simp [rowOf]
  · simp [rowOf, hj, AList.lookup_insert_ne hj]

theorem wallets_view (he : Entered t u db id r es) :
    (u.view db).core.wallets = db.core.wallets := by rw [he.view]

theorem rows_kept (he : Entered t u db id r es) {j : Uuid} {s : Withdrawal}
    (hs : rowOf j db = some s) : rowOf j (u.view db) = some s := by
  rw [he.rowOf_view, if_neg]
  · exact hs
  · rintro rfl
    exact nomatch he.absent.symm.trans hs

theorem debits_view (he : Entered t u db id r es) (j : Uuid) :
    SatsPay.debits j (u.view db).core.ledger =
      (if j = id then SatsPay.debits id es else 0) + SatsPay.debits j db.core.ledger := by
  rw [he.view]
  show List.countP _ (es.reverse ++ _) = _
  rw [List.countP_append, List.countP_reverse]
  congr 1
  split
  · rename_i hj
    rw [hj]
    rfl
  · rename_i hj
    rw [List.countP_eq_zero]
    intro e hm
    simp [isDebitOf, he.refs e hm, Ne.symm hj]

theorem book (he : Entered t u db id r es) (hb : KeyBook db) : KeyBook (u.view db) where
  unique i j ri rj key hi hj hki hkj := by
    rw [he.rowOf_view] at hi hj
    split at hi <;> split at hj
    · rename_i h₁ h₂
      rw [h₁, h₂]
    · cases hi
      exact absurd hkj ((he.free key hki).2 j rj hj)
    · cases hj
      exact absurd hki ((he.free key hkj).2 i ri hi)
    · exact hb.unique i j ri rj key hi hj hki hkj
  own i ri key hi hk := by
    rw [he.wallets_view]
    rw [he.rowOf_view] at hi
    split at hi
    · cases hi
      exact he.own key hk
    · exact hb.own i ri key hi hk
  debits i := by
    rw [he.debits_view, he.rowOf_view]
    have := hb.debits i
    split
    · rename_i hi
      rw [hi, he.absent] at this
      have hd := he.debits
      rw [hi]
      simp only [Option.isSome_none, Bool.false_eq_true, if_false, Option.isSome_some,
        if_true] at this ⊢
      omega
    · omega

/-- The commit of another request leaves it standing: they share no lock. -/
theorem other (he' : Entered t' u' db id' r' es') (he : Entered t u db id r es)
    (hl : ∀ k ∈ u.locks, k ∉ u'.locks) : Entered t' u' (u.view db) id' r' es' where
  inserted := he'.inserted
  only := he'.only
  writes := he'.writes
  absent := by
    rw [he.rowOf_view, if_neg]
    · exact he'.absent
    · rintro rfl
      exact hl _ he.locked he'.locked
  locked := he'.locked
  free key hk := by
    obtain ⟨hlock, hfree⟩ := he'.free key hk
    refine ⟨hlock, fun j s hs => ?_⟩
    rw [he.rowOf_view] at hs
    split at hs
    · cases hs
      intro hkr
      exact hl _ (he.free key hkr).1 hlock
    · exact hfree j s hs
  own key hk := by
    rw [he.wallets_view]
    exact he'.own key hk
  refs := he'.refs
  debits := he'.debits
  undebited := he'.undebited

/-- An operation that enters nothing does not disturb it. -/
theorem cons (he : Entered t u db id r es) {o : WdOp} {a : Op.Resp _ o}
    (ho : ∀ i input, o ≠ insertion i input) (hl : ∀ input, o ≠ ledgerInsertion input)
    (ks : List (Key withdrawalsExt)) (b : Bool) :
    Entered (⟨o, a⟩ :: t) ⟨u.writes, u.locks ++ ks, b⟩ db id r es where
  inserted := he.inserted.imp fun _ hm => List.mem_cons_of_mem _ hm
  only i input hm := by
    rcases List.mem_cons.1 hm with hm | hm
    · cases hm
      exact absurd rfl (ho i input)
    · exact he.only i input hm
  writes := he.writes
  absent := he.absent
  locked := List.mem_append_left _ he.locked
  free key hk := ⟨List.mem_append_left _ (he.free key hk).1, (he.free key hk).2⟩
  own := he.own
  refs := he.refs
  debits := he.debits
  undebited hn := he.undebited fun input hi hm => hn input hi (List.mem_cons_of_mem _ hm)

end Entered

theorem OpenRequest.cons (ho : OpenRequest t u db) {o : WdOp} {a : Op.Resp _ o}
    (hi : ∀ i input, o ≠ insertion i input) (hl : ∀ input, o ≠ ledgerInsertion input)
    (ks : List (Key withdrawalsExt)) :
    OpenRequest (⟨o, a⟩ :: t) ⟨u.writes, u.locks ++ ks, u.aborted⟩ db := by
  rcases ho with ⟨hw, hn⟩ | ⟨id, r, es, he⟩
  · exact .inl ⟨hw, hn.imp_right fun hn => hn.cons hi a⟩
  · exact .inr ⟨id, r, es, he.cons hi hl ks u.aborted⟩

theorem OpenRequest.empty_of_notInserted (ho : OpenRequest t u db) (hn : NotInserted t) :
    u.writes = [] := by
  rcases ho with ⟨hw, -⟩ | ⟨id, r, es, he⟩
  · exact hw
  · obtain ⟨input, hm⟩ := he.inserted
    exact absurd hm (hn id input)

theorem Tx.view_of_empty (hw : u.writes = []) : u.view db = db := by
  rw [Tx.view, hw, applyAll_nil]

namespace Remembered

theorem of_kept (hr : Remembered db h) {db' : WdDb}
    (hrows : ∀ j s, rowOf j db = some s → rowOf j db' = some s)
    (hwallets : db'.core.wallets = db.core.wallets) : Remembered db' h where
  found p key i s hf := (hr.found p key i s hf).imp_left (hrows i s)
  wallet p userId coin i hm := by
    rw [hwallets]
    exact hr.wallet p userId coin i hm

/-- An event that finds nothing new. -/
theorem cons (hr : Remembered db h) {e : WdEvent}
    (hf : ∀ p key i s, e = .did p (.pool (.ext (.findByIdempotencyKey key))) (.ok (some (i, s))) ∨
      e = .did p (.tx (.ext (.findByIdempotencyKey key))) (.ok (some (i, s))) →
      rowOf i db = some s ∧ s.idempotencyKey = some key)
    (hw : ∀ p userId coin i, e = .did p (.tx (.core (.walletOf userId coin .personal))) (.ok (some i)) →
      ∃ w, db.core.wallets.lookup i = some w ∧ w.userId = userId) : Remembered db (e :: h) where
  found p key i s := by
    by_cases he : e.pid = some p
    · cases e with
      | did q o a =>
        cases he
        intro hm
        rw [FoundBy, doneBy_self, List.mem_cons, List.mem_cons] at hm
        rcases hm with (hm | hm) | hm | hm
        · cases hm
          exact hf p key i s (.inl rfl)
        · exact hr.found p key i s (.inl hm)
        · cases hm
          exact hf p key i s (.inr rfl)
        · exact hr.found p key i s (.inr hm)
      | crashed q | ended q => exact hr.found p key i s
      | ticked => exact hr.found p key i s
    · rw [doneBy_of_ne he]
      exact hr.found p key i s
  wallet p userId coin i := by
    by_cases he : e.pid = some p
    · cases e with
      | did q o a =>
        cases he
        intro hm
        rw [doneBy_self] at hm
        rcases List.mem_cons.1 hm with hm | hm
        · cases hm
          exact hw p userId coin i rfl
        · exact hr.wallet p userId coin i hm
      | crashed q | ended q => exact hr.wallet p userId coin i
      | ticked => exact hr.wallet p userId coin i
    · rw [doneBy_of_ne he]
      exact hr.wallet p userId coin i

end Remembered

end

/-! ## Runs -/

section
variable {db : WdDb} {h : WdHist} {p : ℕ} {t : Tx (satsPay withdrawalsExt)}

/-- A row is entered. -/
theorem open_inserted {id : Uuid} {input : NewWithdrawal} {ws : List (Write withdrawalsExt)}
    (hi : KeyInv db h) (hφ : Requests (doneBy p h) (insertion id input))
    (ho : OpenRequest (doneBy p h) t db)
    (he : .ok ((), ws) ∈ (satsPay withdrawalsExt).eval (.ext (.insertWithdrawal id input)) (t.view db)) :
    OpenRequest (⟨insertion id input, .ok ()⟩ :: doneBy p h)
      ⟨t.writes ++ ws, t.locks ++ (satsPay withdrawalsExt).locks
        (.ext (.insertWithdrawal id input)) (t.view db), false⟩ db := by
  obtain ⟨hn, userId, key, coin, hm, hkey⟩ := hφ
  have hw := ho.empty_of_notInserted hn
  rw [Tx.view_of_empty hw] at he ⊢
  obtain ⟨ws', he', rfl⟩ := ext_eval_ok he
  obtain ⟨habs, hfind, amount, feeAmount, rfl⟩ :=
    insertWithdrawal_eq_ok (List.mem_singleton.1 he').symm
  have hkeys : ∀ k, input.idempotencyKey = some k → db.ext.find k = none := by
    intro k hk
    rw [hk] at hfind
    exact hfind
  refine .inr ⟨id, input.row amount feeAmount db.core.now, [], ⟨⟨input, List.mem_cons_self⟩, ?_, ?_,
    habs, ?_, fun k hk => ⟨?_, fun j s hs => find_eq_none (hkeys k hk) hs⟩, fun k hk => ?_, by simp,
    Nat.zero_le 1, fun _ => rfl⟩⟩
  · intro id' input' hm'
    rcases List.mem_cons.1 hm' with hm' | hm'
    · cases hm'
      rfl
    · exact absurd hm' (hn id' input')
  · rw [hw]
    rfl
  · exact List.mem_append_right _ List.mem_cons_self
  · refine List.mem_append_right _ (List.mem_cons_of_mem _ ?_)
    show _ ∈ (input.idempotencyKey.toList.map WithdrawalsKey.idempotencyKey).map
      (Key.ext (X := withdrawalsExt))
    rw [show input.idempotencyKey = some k from hk]
    exact List.mem_cons_self
  · have hk' : input.idempotencyKey = some k := hk
    rw [hkey] at hk'
    obtain ⟨k₀, -, rfl⟩ := Option.map_eq_some_iff.1 hk'
    obtain ⟨w, hwal, rfl⟩ := hi.remembered.wallet p userId coin _ hm
    exact ⟨w, k₀, hwal, rfl⟩

theorem open_entered {input : LedgerCreditInput} {ws : List (Write withdrawalsExt)}
    (hφ : Requests (doneBy p h) (ledgerInsertion input)) (ha : t.aborted = false)
    (ho : OpenRequest (doneBy p h) t db)
    (he : .ok ((), ws) ∈ (satsPay withdrawalsExt).eval (.core (.insertLedgerEntry input)) (t.view db)) :
    OpenRequest (⟨ledgerInsertion input, .ok ()⟩ :: doneBy p h)
      ⟨t.writes ++ ws, t.locks ++ (satsPay withdrawalsExt).locks
        (.core (.insertLedgerEntry input)) (t.view db), false⟩ db := by
  obtain ⟨⟨id, row, hm, href⟩, hdebit⟩ := hφ
  rcases ho with ⟨-, hb | hn⟩ | ⟨id', r, es, hen⟩
  · rw [ha] at hb
    cases hb
  · exact absurd hm (hn id row)
  obtain rfl := hen.only id row hm
  obtain ⟨ws', he', rfl⟩ := core_eval_ok he
  obtain ⟨n, -, -, -, rfl⟩ := insertLedgerEntry_ok (List.mem_singleton.1 he').symm
  have hcount : debits id (es ++ [input.entry n]) =
      debits id es + if input.ledgerType = .withdrawal then 1 else 0 := by
    rw [debits, List.countP_append, debits]
    congr 1
    simp [isDebitOf, LedgerCreditInput.entry, href]
  refine .inr ⟨id, r, es ++ [input.entry n], ⟨hen.inserted.imp fun _ hm => List.mem_cons_of_mem _ hm,
    ?_, ?_, hen.absent, List.mem_append_left _ hen.locked,
    fun k hk => ⟨List.mem_append_left _ (hen.free k hk).1, (hen.free k hk).2⟩, hen.own, ?_, ?_, ?_⟩⟩
  · intro i input' hm'
    rcases List.mem_cons.1 hm' with hm' | hm'
    · cases hm'
    · exact hen.only i input' hm'
  · simp [hen.writes]
  · intro e hm'
    rcases List.mem_append.1 hm' with hm' | hm'
    · exact hen.refs e hm'
    · cases List.mem_singleton.1 hm'
      exact href
  · rw [hcount]
    split
    · rename_i hty
      rw [hen.undebited (hdebit hty)]
    · exact hen.debits
  · intro hn
    have hty : input.ledgerType ≠ .withdrawal := fun hty => hn input hty List.mem_cons_self
    rw [hcount, if_neg hty]
    exact hen.undebited fun i hi hm' => hn i hi (List.mem_cons_of_mem _ hm')

end

section
variable {db : WdDb} {h : WdHist}

/-- A statement of a request that reads. -/
theorem reads_of_requests {t : WdTrace} {st : Stmt withdrawalsExt} (hφ : Requests t (.tx st))
    (hi : ∀ id input, st ≠ .ext (.insertWithdrawal id input))
    (hl : ∀ input, st ≠ .core (.insertLedgerEntry input)) {a : st.Ans}
    {ws : List (Write withdrawalsExt)} (he : .ok (a, ws) ∈ (satsPay withdrawalsExt).eval st db) :
    ws = [] := by
  cases st with
  | ext st =>
    cases st with
    | insertWithdrawal id input => exact absurd rfl (hi id input)
    | findByIdempotencyKey key => exact (ext_eval_one rfl he).2
    | update | withdrawalStatus | withdrawalToSend | withdrawalAmounts | listEligible
    | recordNetworkFee => exact hφ.elim
  | core st =>
    cases st with
    | insertLedgerEntry input => exact absurd rfl (hl input)
    | lockWallet | reorgHoldAt | walletBalance | walletOf => exact (core_eval_one rfl he).2
    | _ => exact hφ.elim

/-- What a statement finds. -/
theorem remembered_tx {p : ℕ} {t : Tx (satsPay withdrawalsExt)} {st : Stmt withdrawalsExt}
    {a : st.Ans} {ws : List (Write withdrawalsExt)} (hr : Remembered db h)
    (hφ : Requests (doneBy p h) (.tx st)) (ho : OpenRequest (doneBy p h) t db)
    (he : .ok (a, ws) ∈ (satsPay withdrawalsExt).eval st (t.view db)) :
    Remembered db (.did p (.tx st) (.ok a) :: h) := by
  refine hr.cons ?_ ?_
  · rintro q key i s (hq | hq)
    · cases hq
    · cases hq
      rw [Tx.view_of_empty (ho.empty_of_notInserted hφ)] at he
      exact find_eq_some (ext_eval_one rfl he).1.symm
  · rintro q userId coin i hq
    cases hq
    have hw := (core_eval_one rfl he).1
    obtain ⟨w, hw, hu, -⟩ := Core.wallet_of_walletOf hw.symm
    refine ⟨w, ?_, hu⟩
    rcases ho with ⟨hempty, -⟩ | ⟨id, r, es, hen⟩
    · rwa [Tx.view_of_empty hempty] at hw
    · rwa [hen.wallets_view] at hw

theorem open_tx {p : ℕ} {t : Tx (satsPay withdrawalsExt)} {st : Stmt withdrawalsExt} {a : st.Ans}
    {ws : List (Write withdrawalsExt)} (hi : KeyInv db h) (hφ : Requests (doneBy p h) (.tx st))
    (ho : OpenRequest (doneBy p h) t db) (ha : t.aborted = false)
    (he : .ok (a, ws) ∈ (satsPay withdrawalsExt).eval st (t.view db)) :
    OpenRequest (⟨.tx st, .ok a⟩ :: doneBy p h)
      ⟨t.writes ++ ws, t.locks ++ (satsPay withdrawalsExt).locks st (t.view db), false⟩ db := by
  by_cases hins : ∃ id input, st = .ext (.insertWithdrawal id input)
  · obtain ⟨id, input, rfl⟩ := hins
    exact open_inserted hi hφ ho he
  by_cases hled : ∃ input, st = .core (.insertLedgerEntry input)
  · obtain ⟨input, rfl⟩ := hled
    exact open_entered hφ ha ho he
  have hi' : ∀ id input, st ≠ .ext (.insertWithdrawal id input) :=
    fun id input hst => hins ⟨id, input, hst⟩
  have hl' : ∀ input, st ≠ .core (.insertLedgerEntry input) := fun input hst => hled ⟨input, hst⟩
  obtain rfl := reads_of_requests hφ hi' hl' he
  rw [List.append_nil, ← ha]
  exact ho.cons (fun i input hst => hi' i input (by cases hst; rfl))
    (fun input hst => hl' input (by cases hst; rfl)) _

end

def requestInvariant : TxInvariant (satsPay withdrawalsExt) Requests fun _ _ _ => True where
  Inv := KeyInv
  Open := OpenRequest
  begin_ok hi hn := ⟨⟨hi.book, hi.remembered.cons (by simp) (by simp)⟩,
    .inl ⟨rfl, .inr (NotInserted.cons hn (by simp) _)⟩⟩
  tx_ok hi hφ ho ha _ he := ⟨⟨hi.book, remembered_tx hi.remembered hφ ho he⟩, open_tx hi hφ ho ha he⟩
  tx_error hi _ _ _ := by
    refine ⟨⟨hi.book, hi.remembered.cons ?_ ?_⟩, .inl ⟨rfl, .inl rfl⟩⟩
    · rintro _ _ _ _ (he | he) <;> cases he
    · rintro _ _ _ _ he
      cases he
  commit_ok hi _ ho _ := by
    rcases ho with ⟨hw, -⟩ | ⟨id, r, es, he⟩
    · rw [Tx.view_of_empty hw]
      exact ⟨hi.book, hi.remembered.cons (by simp) (by simp)⟩
    · exact ⟨he.book hi.book, (hi.remembered.of_kept (fun _ _ => he.rows_kept) he.wallets_view).cons
        (by simp) (by simp)⟩
  commit_other _ _ _ ho ho' _ hl := by
    rcases ho with ⟨hw, -⟩ | ⟨id, r, es, he⟩
    · rwa [Tx.view_of_empty hw]
    · rcases ho' with hu | ⟨id', r', es', he'⟩
      · exact .inl hu
      · exact .inr ⟨id', r', es', he'.other he hl⟩
  pool_ok {p db h st a ws} hi hφ _ he := by
    cases st with
    | core st => exact hφ.elim
    | ext st =>
      cases st with
      | findByIdempotencyKey key =>
        obtain ⟨ha, rfl⟩ := ext_eval_one rfl he
        refine ⟨⟨hi.book, hi.remembered.cons ?_ (by simp)⟩, fun u hu => ?_, fun _ _ _ hu _ => hu⟩
        · rintro q k i s (hq | hq)
          · cases hq
            exact find_eq_some ha.symm
          · cases hq
        · have := hu.cons (o := .pool (.ext (.findByIdempotencyKey key))) (a := .ok a) (by simp)
            (by simp) []
          show OpenRequest _ u db
          simpa using this
      | _ => exact hφ.elim
  pool_error {p db h st e} hi _ := by
    refine ⟨⟨hi.book, hi.remembered.cons ?_ ?_⟩, fun u hu => ?_⟩
    · rintro _ _ _ _ (he | he) <;> cases he
    · rintro _ _ _ _ he
      cases he
    · have := hu.cons (o := .pool st) (a := .error e) (by simp) (by simp) []
      simpa using this
  call {p db h c r} hi _ _ := by
    refine ⟨⟨hi.book, hi.remembered.cons (by simp) (by simp)⟩, fun u hu => ?_⟩
    have := hu.cons (o := .call c) (a := r) (by simp) (by simp) []
    simpa using this
  idle hi he _ := by
    refine ⟨hi.book, hi.remembered.cons ?_ ?_⟩ <;> rcases he with rfl | rfl | rfl | rfl | rfl <;> simp
  tick hi ht := by
    obtain ⟨t, -, rfl⟩ := ht
    refine ⟨⟨⟨hi.book.unique, hi.book.own, hi.book.debits⟩, Remembered.cons ?_ (by simp) (by simp)⟩,
      fun q u hu => ?_⟩
    · exact ⟨hi.remembered.found, hi.remembered.wallet⟩
    · exact hu.imp_right fun ⟨id, r, es, he⟩ => ⟨id, r, es, ⟨he.inserted, he.only, he.writes,
        he.absent, he.locked, he.free, he.own, he.refs, he.debits, he.undebited⟩⟩

/-! ## Programs -/

def NothingEntered (t : WdTrace) : Prop := NotInserted t ∧ NotDebited t

theorem NothingEntered.cons {t : WdTrace} (h : NothingEntered t) {o : WdOp}
    (hi : ∀ id input, o ≠ insertion id input) (hl : ∀ input, o ≠ ledgerInsertion input)
    (r : Op.Resp _ o) : NothingEntered (⟨o, r⟩ :: t) := ⟨h.1.cons hi r, h.2.cons hl r⟩

theorem nothingEntered_nil : NothingEntered [] :=
  ⟨fun _ _ h => absurd h List.not_mem_nil, fun _ _ h => absurd h List.not_mem_nil⟩

section
variable {E : WithdrawalsEnv} {t : WdTrace} {userId : Uuid} {key : Option String} {ε : Type}

def LookedUp (userId : Uuid) (key : Option String) (t : WdTrace)
    (res : Except ε (Option (Uuid × Withdrawal))) : Prop :=
  NothingEntered t ∧ ∀ id r, res = .ok (some (id, r)) →
    ∃ k, key = some k ∧ FoundBy (scopedKey userId k) id r t

theorem leads_findPool [FromErr DbError ε] (ht : NothingEntered t) :
    (findByKey (fun key => wdPool (.findByIdempotencyKey key)) (key.map (scopedKey userId)) :
      Withdrawals ε _).Leads Requests (LookedUp userId key) t := by
  cases key with
  | none => exact ⟨ht, fun id r h => by cases h⟩
  | some k =>
    refine Prog.Leads.mono ?_ (leads_poolQuery (S := satsPay withdrawalsExt)
      (q := .ext (.findByIdempotencyKey (scopedKey userId k))) trivial)
    rintro t' res (⟨a, rfl, rfl⟩ | ⟨e, rfl, rfl⟩)
    · refine ⟨ht.cons (by rintro _ _ ⟨⟩) (by rintro _ ⟨⟩) _, fun id r h => ⟨k, rfl, .inl ?_⟩⟩
      cases h
      exact List.mem_cons_self
    · exact ⟨ht.cons (by rintro _ _ ⟨⟩) (by rintro _ ⟨⟩) _, fun id r h => by cases h⟩

theorem leads_findTx [FromErr DbError ε] (ht : NothingEntered t) :
    (findByKey (fun key => wdQuery (.findByIdempotencyKey key)) (key.map (scopedKey userId)) :
      Withdrawals ε _).Leads Requests (LookedUp userId key) t := by
  cases key with
  | none => exact ⟨ht, fun id r h => by cases h⟩
  | some k =>
    refine Prog.Leads.mono ?_ (leads_query (S := satsPay withdrawalsExt)
      (q := .ext (.findByIdempotencyKey (scopedKey userId k))) ht.1)
    rintro t' res (⟨a, rfl, rfl⟩ | ⟨e, rfl, rfl⟩)
    · refine ⟨ht.cons (by rintro _ _ ⟨⟩) (by rintro _ ⟨⟩) _, fun id r h => ⟨k, rfl, .inr ?_⟩⟩
      cases h
      exact List.mem_cons_self
    · exact ⟨ht.cons (by rintro _ _ ⟨⟩) (by rintro _ ⟨⟩) _, fun id r h => by cases h⟩

def MayEnter (input : LedgerCreditInput) (t : WdTrace) : Prop :=
  (∃ id row, (⟨insertion id row, .ok ()⟩ : WdDid) ∈ t ∧ input.referenceId = some id) ∧
    (input.ledgerType = .withdrawal → NotDebited t)

theorem MayEnter.cons {input : LedgerCreditInput} (h : MayEnter input t) {o : WdOp}
    (hl : ∀ input, o ≠ ledgerInsertion input) (r : Op.Resp _ o) : MayEnter input (⟨o, r⟩ :: t) :=
  ⟨h.1.imp fun _ => .imp fun _ => .imp_left (List.mem_cons_of_mem _), fun hi => (h.2 hi).cons hl r⟩

def Extends (t t' : WdTrace) (_ : Except ε Unit) : Prop := t <:+ t'

theorem leads_reading {st : CoreStmt} (hst : ∀ t, Requests t (.tx (.core st))) {α : Type}
    {f : st.Ans → Withdrawals LedgerError α} {Q : WdTrace → Except LedgerError α → Prop}
    (hf : ∀ a, (f a).Leads Requests Q (⟨.tx (.core st), .ok a⟩ :: t))
    (he : ∀ e, Q (⟨.tx (.core st), .error e⟩ :: t) (.error (.db e))) :
    (coreQuery st >>= f : Withdrawals LedgerError α).Leads Requests Q t := by
  refine Prog.Leads.bind (fun a t' => ?_) (fun e t' => ?_)
    (leads_query (S := satsPay withdrawalsExt) (ε := LedgerError) (q := .core st) (hst t))
  · rintro (⟨b, hb, rfl⟩ | ⟨e, he', -⟩)
    · cases hb
      exact hf a
    · cases he'
  · rintro (⟨b, hb, -⟩ | ⟨e', he', rfl⟩)
    · cases hb
    · cases he'
      exact he e'

theorem leads_apply {input : LedgerCreditInput} (hm : MayEnter input t) :
    (applyLedgerEntry input : Withdrawals LedgerError Unit).Leads Requests (Extends t) t := by
  have insert {t' : WdTrace} (hm : MayEnter input t') (hs : t <:+ t') :
      (coreQuery (.insertLedgerEntry input) : Withdrawals LedgerError Unit).Leads Requests
        (Extends t) t' := by
    refine Prog.Leads.mono ?_ (leads_query (S := satsPay withdrawalsExt)
      (q := .core (.insertLedgerEntry input)) hm)
    rintro t'' res (⟨a, rfl, rfl⟩ | ⟨e, rfl, rfl⟩)
    · exact hs.trans (List.suffix_cons _ _)
    · exact hs.trans (List.suffix_cons _ _)
  unfold applyLedgerEntry lockWallet
  refine Prog.Leads.bind (Q := fun t' r => MayEnter input t' ∧ t <:+ t') (fun _ t₁ h₁ => ?_)
    (fun e t₁ h₁ => h₁.2) (leads_reading (by intro _; trivial) (fun a => ?_) fun e => ?_)
  · refine leads_reading (by intro _; trivial) (fun hold => ?_) fun e => ?_
    · have h₂ := h₁.1.cons (o := .tx (.core (.reorgHoldAt input.walletId))) (by simp) (.ok hold)
      have hs₂ := h₁.2.trans (List.suffix_cons (⟨.tx (.core (.reorgHoldAt input.walletId)), .ok hold⟩ : WdDid) t₁)
      unfold checkReorgHold
      split
      · exact hs₂
      show (checkBalance input >>= fun _ => coreQuery (.insertLedgerEntry input) :
        Withdrawals LedgerError Unit).Leads Requests (Extends t) _
      refine Prog.Leads.bind (Q := fun t' r => MayEnter input t' ∧ t <:+ t') (fun _ t₃ h₃ => ?_)
        (fun e t₃ h₃ => h₃.2) ?_
      · exact insert h₃.1 h₃.2
      unfold checkBalance getWalletBalance
      split
      · refine leads_reading (by intro _; trivial) (fun balance => ?_) fun e => ?_
        · have h₃ := h₂.cons (o := .tx (.core (.walletBalance input.walletId))) (by simp) (.ok balance)
          have hs₃ := hs₂.trans (List.suffix_cons
            (⟨.tx (.core (.walletBalance input.walletId)), .ok balance⟩ : WdDid) _)
          split
          · exact ⟨h₃, hs₃⟩
          · exact ⟨h₃, hs₃⟩
        · exact ⟨h₂.cons (by simp) _, hs₂.trans (List.suffix_cons _ _)⟩
      · exact ⟨h₂, hs₂⟩
    · exact h₁.2.trans (List.suffix_cons _ _)
  · exact ⟨hm.cons (by simp) _, List.suffix_cons _ _⟩
  · exact ⟨hm.cons (by simp) _, List.suffix_cons _ _⟩

theorem leads_debitWithdrawal {id : Uuid} {input : NewWithdrawal}
    (hm : (⟨insertion id input, .ok ()⟩ : WdDid) ∈ t) (hn : NotDebited t) :
    (debitWithdrawal E id input).Leads Requests (fun _ _ => True) t := by
  have committing {t' : WdTrace} :
      (commit : Withdrawals WithdrawalsError Unit).Leads Requests (fun _ _ => True) t' :=
    leads_commit trivial trivial fun _ => trivial
  have debit : MayEnter (withdrawalDebit input.walletId id input.amount) t :=
    ⟨⟨id, input, hm, rfl⟩, fun _ => hn⟩
  refine Prog.Leads.bind (Q := fun t' _ => t <:+ t') (fun _ t₁ h₁ => ?_) (fun _ _ _ => trivial)
    (Prog.Leads.mapErr (leads_apply debit))
  dsimp only
  split
  · have fee : MayEnter (withdrawalFeeDebit input.walletId id input.feeAmount) t₁ :=
      ⟨⟨id, input, h₁.subset hm, rfl⟩, fun h => nomatch h⟩
    exact Prog.Leads.bind (Q := fun t' _ => t₁ <:+ t') (fun _ _ _ => committing)
      (fun _ _ _ => trivial) (Prog.Leads.mapErr (leads_apply fee))
  · exact committing

/-- Where no row was made, nothing has been entered, and a row that is named was found. -/
def Resolved (userId : Uuid) (key : Option String) (t : WdTrace) :
    Except WithdrawalsError Requested → Prop
  | .ok (.found id r) => NothingEntered t ∧ ∃ k, key = some k ∧ FoundBy (scopedKey userId k) id r t
  | .ok .raced => NothingEntered t
  | _ => True

def Tried (id : Uuid) (input : NewWithdrawal) (t : WdTrace) :
    Except WithdrawalsError (Except DbError Unit) → Prop
  | .ok (.ok ()) => (⟨insertion id input, .ok ()⟩ : WdDid) ∈ t ∧ NotDebited t
  | .ok (.error _) => NothingEntered t
  | .error _ => False

theorem leads_createWithdrawal {toAddress : String} {id : Uuid} {input : NewWithdrawal}
    (ht : NothingEntered t) (hφ : Requests t (insertion id input)) :
    (createWithdrawal E toAddress id input).Leads Requests (Resolved userId key) t := by
  have hq := leads_query (S := satsPay withdrawalsExt) (ε := DbError)
    (q := .ext (.insertWithdrawal id input)) hφ
  refine Prog.Leads.bind (Q := Tried id input) (fun r t₁ h₁ => ?_) (fun _ _ h => h.elim)
    (Prog.Leads.attempt (hq.mono ?_))
  · match r with
    | .ok () =>
      refine Prog.Leads.bind (Q := fun _ _ => True) (fun _ _ _ => ?_) (fun _ _ _ => trivial)
        (leads_debitWithdrawal h₁.1 h₁.2)
      exact trivial
    | .error .uniqueViolation => exact h₁
    | .error .io | .error .foreignKey | .error .numericOverflow | .error (.protocol _) => exact trivial
  · rintro t' res (⟨a, rfl, rfl⟩ | ⟨e, rfl, rfl⟩)
    · exact ⟨List.mem_cons_self, ht.2.cons (by rintro _ ⟨⟩) _⟩
    · exact ⟨ht.1.cons_error id input e, ht.2.cons (by rintro _ ⟨⟩) _⟩

theorem leads_requestTx (coin : Coin) (toAddress : String) (amount : ℚ) (ip : String)
    (ht : NothingEntered t) :
    (requestTx E userId coin toAddress amount ip (key.map (scopedKey userId))).Leads Requests
      (Resolved userId key) t := by
  refine Prog.Leads.bind (Q := LookedUp userId key) (fun existing t₁ h₁ => ?_) (fun _ _ _ => trivial)
    (leads_findTx ht)
  match existing with
  | some (id, r) =>
    obtain ⟨h₁, hf⟩ := h₁
    obtain ⟨k, hk, hf⟩ := hf id r rfl
    refine Prog.Leads.bind (Q := fun t' _ => NothingEntered t' ∧ FoundBy (scopedKey userId k) id r t')
      (fun _ t₂ h₂ => ?_) (fun _ _ _ => trivial) (leads_commit trivial ?_ fun e => ?_)
    · exact ⟨h₂.1, k, hk, h₂.2⟩
    · exact ⟨h₁.cons (by simp) (by simp) _,
        hf.imp (List.mem_cons_of_mem _) (List.mem_cons_of_mem _)⟩
    · exact ⟨h₁.cons (by simp) (by simp) _,
        hf.imp (List.mem_cons_of_mem _) (List.mem_cons_of_mem _)⟩
  | none =>
    refine Prog.Leads.bind (fun walletId t₂ h₂ => ?_) (fun _ _ _ => trivial)
      (leads_query (S := satsPay withdrawalsExt) (ε := WithdrawalsError)
        (q := .core (.walletOf userId coin .personal)) trivial)
    match walletId with
    | none => exact trivial
    | some walletId =>
      obtain rfl : t₂ = ⟨.tx (.core (.walletOf userId coin .personal)), .ok (some walletId)⟩ :: t₁ := by
        rcases h₂ with ⟨a, ha, rfl⟩ | ⟨e, he, -⟩
        · cases ha
          rfl
        · cases he
      refine ⟨trivial, fun id => leads_createWithdrawal ?_ ⟨?_, userId, key, coin, ?_, rfl⟩⟩
      · exact (h₁.1.cons (by simp) (by simp) _).cons (by simp) (by simp) _
      · exact ((h₁.1.cons (by simp) (by simp) _).cons (by simp) (by simp) _).1
      · exact List.mem_cons_of_mem _ List.mem_cons_self

/-- A request that made no row has entered nothing, and answers the row it found. -/
def Answered (E : WithdrawalsEnv) (userId : Uuid) (key : Option String) (t : WdTrace) :
    Except WithdrawalsError (WithdrawalRow × Bool) → Prop
  | .ok (row, false) => NothingEntered t ∧
      ∃ k id r, key = some k ∧ FoundBy (scopedKey userId k) id r t ∧ row = openRow E id r
  | _ => True

theorem leads_requestWithdrawal (coin : Coin) (toAddress : String) (amount : ℚ) (ip : String) :
    (requestWithdrawal E userId coin toAddress amount ip key).Leads Requests
      (Answered E userId key) [] := by
  unfold requestWithdrawal
  split
  · exact trivial
  split
  · exact trivial
  refine Prog.Leads.bind (Q := LookedUp userId key) (fun existing t₁ h₁ => ?_) (fun _ _ _ => trivial)
    (leads_findPool nothingEntered_nil)
  match existing with
  | some (id, r) =>
    obtain ⟨k, hk, hf⟩ := h₁.2 id r rfl
    exact ⟨h₁.1, k, id, r, hk, hf, rfl⟩
  | none =>
    refine Prog.Leads.bind (Q := Resolved userId key) (fun requested t₂ h₂ => ?_)
      (fun _ _ _ => trivial) (leads_transaction h₁.1.1 (fun _ => trivial)
        (leads_requestTx coin toAddress amount ip (h₁.1.cons (by simp) (by simp) _)) ?_
        fun _ => trivial)
    · match requested with
      | .found id r =>
        obtain ⟨h₂, k, hk, hf⟩ := h₂
        exact ⟨h₂, k, id, r, hk, hf, rfl⟩
      | .created row => exact trivial
      | .raced =>
        refine Prog.Leads.bind (Q := LookedUp userId key) (fun winner t₃ h₃ => ?_)
          (fun _ _ _ => trivial) (leads_findPool h₂)
        match winner with
        | some (id, r) =>
          obtain ⟨k, hk, hf⟩ := h₃.2 id r rfl
          exact ⟨h₃.1, k, id, r, hk, hf, rfl⟩
        | none => exact trivial
    · intro t' r h
      match r with
      | .ok (.found id r) =>
        obtain ⟨h, k, hk, hf⟩ := h
        exact ⟨h.cons (by simp) (by simp) _, k, hk,
          hf.imp (List.mem_cons_of_mem _) (List.mem_cons_of_mem _)⟩
      | .ok (.created row) => exact trivial
      | .ok .raced => exact NothingEntered.cons h (by simp) (by simp) _
      | .error e => exact trivial

end

/-! ## The law -/

def WithdrawalRequest (c : Withdrawals Empty Unit) : Prop :=
  ∃ E userId coin toAddress amount ip key,
    c = (requestWithdrawal E userId coin toAddress amount ip key).spawn

abbrev RequestRun (db : WdDb) (w : World (machine (satsPay withdrawalsExt))) : Prop :=
  Run WithdrawalRequest (anyStep _) db w

abbrev RequestSteps (w w' : World (machine (satsPay withdrawalsExt))) : Prop :=
  Steps (machine (satsPay withdrawalsExt)) WithdrawalRequest (anyStep _) w w'

def keyDebits (key : String) (db : WdDb) : ℕ :=
  db.core.ledger.countP fun e => e.type == .withdrawal &&
    (e.referenceId.bind fun id => (rowOf id db).bind Withdrawal.idempotencyKey) == some key

def ownerOf (wallets : Table Wallet) (walletId : Uuid) : Option Uuid :=
  (wallets.lookup walletId).map Wallet.userId

structure KeyLaw (db : WdDb) : Prop where
  oneRow : ∀ w, RequestRun db w → ∀ userId key i j r s, rowOf i w.conf.s.db = some r →
    rowOf j w.conf.s.db = some s → r.idempotencyKey = some (scopedKey userId key) →
    s.idempotencyKey = some (scopedKey userId key) → i = j
  oneDebit : ∀ w, RequestRun db w → ∀ userId key,
    keyDebits (scopedKey userId key) w.conf.s.db ≤ 1
  /-- A call that answers `created = false` answers a row of its user, for its key. -/
  replayed : ∀ w, RequestRun db w → ∀ p E userId coin toAddress amount ip key row,
    (requestWithdrawal E userId coin toAddress amount ip key).After (doneBy p w.conf.hist)
      (.ret (row, false)) → ∃ k r, key = some k ∧ rowOf row.id w.conf.s.db = some r ∧
        r.idempotencyKey = some (scopedKey userId k) ∧ row = openRow E row.id r ∧
        ownerOf w.conf.s.db.core.wallets r.walletId = some userId
  /-- And none of its steps has changed the store. -/
  unmoved : ∀ u u' w e p E userId coin toAddress amount ip key row, RequestRun db u →
    Step _ WithdrawalRequest (anyStep _) u u' → RequestSteps u' w →
    (requestWithdrawal E userId coin toAddress amount ip key).After (doneBy p w.conf.hist)
      (.ret (row, false)) → u'.conf.hist = e :: u.conf.hist → e.pid = some p →
    u'.conf.s.db = u.conf.s.db
  /-- A request is refused as a duplicate of a row of its own user, but for an id drawn twice. -/
  refused : ∀ u u' p id input, RequestRun db u → Step _ WithdrawalRequest (anyStep _) u u' →
    u'.conf.hist = .did p (insertion id input) (.error .uniqueViolation) :: u.conf.hist →
    (rowOf id u.conf.s.db).isSome ∨ ∃ j r key, rowOf j u.conf.s.db = some r ∧
      r.idempotencyKey = some key ∧ input.idempotencyKey = some key ∧
      ownerOf u.conf.s.db.core.wallets r.walletId =
        ownerOf u.conf.s.db.core.wallets input.walletId

section
variable {db : WdDb} {w u u' : World (machine (satsPay withdrawalsExt))}

theorem heeds_withdrawalRequest (c : Withdrawals Empty Unit) (hc : WithdrawalRequest c) :
    c.Heeds Requests [] := by
  obtain ⟨E, userId, coin, toAddress, amount, ip, key, rfl⟩ := hc
  exact Prog.Heeds.bind (fun _ => .ret _)
    (Prog.Heeds.attempt (leads_requestWithdrawal coin toAddress amount ip).heeds)

theorem holds_of_requestRun (hb : KeyBook db) (hw : RequestRun db w) :
    requestInvariant.Holds w.conf := by
  refine requestInvariant.run heeds_withdrawalRequest ⟨hb, ⟨?_, ?_⟩⟩ hw
  · rintro _ _ _ _ (h | h) <;> cases h
  · rintro _ _ _ _ h
    cases h

theorem keyDebits_le_one {userId : Uuid} {key : String} (hb : KeyBook db) :
    keyDebits (scopedKey userId key) db ≤ 1 := by
  by_cases hrow : ∃ i r, rowOf i db = some r ∧ r.idempotencyKey = some (scopedKey userId key)
  · obtain ⟨i, r, hr, hk⟩ := hrow
    have hd := hb.debits i
    rw [hr] at hd
    refine le_trans (List.countP_mono_left fun e _ he => ?_) hd
    rw [Bool.and_eq_true] at he
    cases href : e.referenceId with
    | none => simp [href] at he
    | some j =>
      cases hj : rowOf j db with
      | none => simp [href, hj] at he
      | some s =>
        simp only [href, Option.bind_some, hj, beq_iff_eq] at he
        obtain rfl := hb.unique i j r s _ hr hj hk he.2
        simp [isDebitOf, href, he.1]
  · rw [keyDebits, List.countP_eq_zero.2]
    · exact Nat.zero_le 1
    · intro e _ he
      rw [Bool.and_eq_true, beq_iff_eq, beq_iff_eq] at he
      obtain ⟨i, -, hi⟩ := Option.bind_eq_some_iff.1 he.2
      obtain ⟨r, hr, hk⟩ := Option.bind_eq_some_iff.1 hi
      exact hrow ⟨i, r, hr, hk⟩

theorem ownerOf_of_ownKey {wallets : Table Wallet} {walletId userId : Uuid} {k : String}
    (h : OwnKey wallets walletId (scopedKey userId k)) : ownerOf wallets walletId = some userId := by
  obtain ⟨w, l, hw, hk⟩ := h
  rw [ownerOf, hw, Option.map_some, scopedKey_inj hk]

/-- A process that has entered nothing changes nothing. -/
theorem unmoved_of_notInserted (hu : requestInvariant.Holds u.conf)
    (hs : Step _ WithdrawalRequest (anyStep _) u u') (hh : Heeding Requests u) {p : ℕ} {e : WdEvent}
    (he : u'.conf.hist = e :: u.conf.hist) (hp : e.pid = some p)
    (hn : NotInserted (doneBy p u.conf.hist)) : u'.conf.s.db = u.conf.s.db := by
  cases hs with
  | start q c hq hm => exact absurd he (by simp)
  | finish q hq hc' | crash q c' hq hc' => rfl
  | env s hx hc' =>
    cases he
    cases hp
  | act q o k a s hq hx hc' =>
    cases he
    obtain rfl := Option.some.inj hp
    have hφ := (hh.2 q _ hq).1
    cases hx with
    | commit_ok _ t ht => exact Tx.view_of_empty ((hu.opens q t ht).empty_of_notInserted hn)
    | pool_ok _ st b ws hfree hev =>
      cases st with
      | core st => exact hφ.elim
      | ext st =>
        cases st with
        | findByIdempotencyKey key =>
          obtain ⟨-, rfl⟩ := ext_eval_one rfl hev
          rfl
        | _ => exact hφ.elim
    | _ => rfl

theorem NotInserted.of_append {t t' : WdTrace} (h : NotInserted (t ++ t')) : NotInserted t' :=
  fun id input hm => h id input (List.mem_append_right _ hm)

/-- What has been done by then is done later. -/
theorem notInserted_before {p : ℕ} {e : WdEvent} (hs : RequestSteps u' w)
    (he : u'.conf.hist = e :: u.conf.hist) (hn : NotInserted (doneBy p w.conf.hist)) :
    NotInserted (doneBy p u.conf.hist) := by
  obtain ⟨l, hl⟩ := hist_of_steps hs
  rw [hl, he, ← List.singleton_append, doneBy_append, doneBy_append] at hn
  exact hn.of_append.of_append

/-- A statement that fails in a transaction has failed on what the transaction saw. -/
theorem failed_of_step {p : ℕ} {st : Stmt withdrawalsExt} {e : DbError}
    (hs : Step _ WithdrawalRequest (anyStep _) u u')
    (he : u'.conf.hist = .did p (.tx st) (.error e) :: u.conf.hist) :
    e = .io ∨ ∃ t, u.conf.s.tx p = some t ∧ .error e ∈ (satsPay withdrawalsExt).eval st (t.view u.conf.s.db) := by
  cases hs with
  | start q c hq hm => exact absurd he (by simp)
  | finish q hq hc' | crash q c' hq hc' => cases he
  | env s hx hc' => cases he
  | act q o k a s hq hx hc' =>
    cases he
    cases hx with
    | tx_error _ _ t _ ht ha hf hev => exact .inr ⟨t, ht, hev⟩
    | tx_fail => exact .inl rfl

theorem insertWithdrawal_eq_duplicate {c : Core} {db : WithdrawalsDb} {id : Uuid}
    {input : NewWithdrawal} (h : db.insert c id input = .error .uniqueViolation) :
    (db.withdrawals.lookup id).isSome ∨
      ∃ j r key, input.idempotencyKey = some key ∧ db.find key = some (j, r) := by
  unfold WithdrawalsDb.insert at h
  split at h
  · split at h
    · rename_i hk
      refine hk.imp_right fun hk => ?_
      obtain ⟨⟨j, r⟩, hf⟩ := Option.isSome_iff_exists.1 hk
      obtain ⟨key, hkey, hf⟩ := Option.bind_eq_some_iff.1 hf
      exact ⟨j, r, key, hkey, hf⟩
    · split at h <;> cases h
  · cases h

theorem ext_eval_error {st : WithdrawalsStmt} {e : DbError}
    (h : .error e ∈ (satsPay withdrawalsExt).eval (.ext st) db) :
    .error e ∈ withdrawalsExt.eval st db.core db.ext := by
  obtain ⟨r, hr, he⟩ := List.mem_map.1 h
  cases r with
  | error e' => cases he; exact hr
  | ok x => cases he

theorem refused_of_step {p : ℕ} {id : Uuid} {input : NewWithdrawal}
    (hu : requestInvariant.Holds u.conf) (hh : Heeded Requests u'.conf.hist)
    (hs : Step _ WithdrawalRequest (anyStep _) u u')
    (he : u'.conf.hist = .did p (insertion id input) (.error .uniqueViolation) :: u.conf.hist) :
    (rowOf id u.conf.s.db).isSome ∨ ∃ j r key, rowOf j u.conf.s.db = some r ∧
      r.idempotencyKey = some key ∧ input.idempotencyKey = some key ∧
      ownerOf u.conf.s.db.core.wallets r.walletId =
        ownerOf u.conf.s.db.core.wallets input.walletId := by
  rcases failed_of_step hs he with he' | ⟨t, ht, hev⟩
  · cases he'
  obtain ⟨hn, userId, key₀, coin, hm, hkey₀⟩ := hh [] p _ _ _ he
  rw [Tx.view_of_empty ((hu.opens p t ht).empty_of_notInserted hn)] at hev
  refine (insertWithdrawal_eq_duplicate (List.mem_singleton.1 (ext_eval_error hev)).symm).imp_right ?_
  rintro ⟨j, r, key, hkey, hf⟩
  obtain ⟨hr, hrk⟩ := find_eq_some hf
  refine ⟨j, r, key, hr, hrk, hkey, ?_⟩
  obtain ⟨w, hw, rfl⟩ := hu.inv.remembered.wallet p userId coin _ hm
  obtain ⟨k, -, rfl⟩ := Option.map_eq_some_iff.1 (hkey₀.symm.trans hkey)
  rw [ownerOf_of_ownKey (hu.inv.book.own j r _ hr hrk), ownerOf, hw, Option.map_some]

/-- For any requests of any users with any keys: a key of a user has one row and one debit,
a request that made no row has changed nothing and answers its user's own row, and it is
only that user's rows that refuse it. -/
theorem keyLaw_of_book (hb : KeyBook db) : KeyLaw db where
  oneRow w hw userId key i j r s hi hj hri hsj :=
    (holds_of_requestRun hb hw).inv.book.unique i j r s _ hi hj hri hsj
  oneDebit w hw userId key := keyDebits_le_one (holds_of_requestRun hb hw).inv.book
  replayed w hw p E userId coin toAddress amount ip key row hafter := by
    have hI := (holds_of_requestRun hb hw).inv
    obtain ⟨-, k, id, r, rfl, hf, rfl⟩ :=
      (leads_requestWithdrawal coin toAddress amount ip).after hafter
    obtain ⟨hr, hk⟩ := hI.remembered.found p _ id r hf
    exact ⟨k, r, rfl, hr, hk, rfl, ownerOf_of_ownKey (hI.book.own id r _ hr hk)⟩
  unmoved u u' w e p E userId coin toAddress amount ip key row hu hs hs' hafter he hp := by
    have ha := (leads_requestWithdrawal coin toAddress amount ip).after hafter
    exact unmoved_of_notInserted (holds_of_requestRun hb hu) hs
      (heeding_of_start heeds_withdrawalRequest hu) he hp (notInserted_before hs' he ha.1.1)
  refused u u' p id input hu hs he :=
    refused_of_step (holds_of_requestRun hb hu)
      (heeded_of_start heeds_withdrawalRequest (hu.tail hs)) hs he

end

/-! One run: a user requests twice with one key. -/

def repeatRunner : Runner (satsPay withdrawalsExt) :=
  ⟨2, List.replicate 2 (requestWithdrawal plainEnv 7 .btc "address" 200000 "ip" (some "key")).spawn,
    Db.wait, fun _ _ => true⟩

/-- Both look the key up before one of them makes the row. -/
def bothRequest : List (Act (satsPay withdrawalsExt)) :=
  let reply p : Act (satsPay withdrawalsExt) := .op p (.answer outside)
  .start 0 0 :: .start 1 1 :: goes 0 1 ++ goes 1 1 ++ goes 0 3 ++ [reply 0] ++ goes 0 11 ++ goes 1 4

theorem keyLaw_fundedDb : KeyLaw fundedDb ∧ ∃ w, RequestRun fundedDb w ∧
    keyDebits (scopedKey 7 "key") w.conf.s.db = 1 := by
  refine ⟨keyLaw_of_book ⟨?_, ?_, ?_⟩, ?_⟩
  · rintro i j r s key ⟨⟩
  · rintro i r key ⟨⟩
  · intro i
    simp [debits, fundedDb, isDebitOf]
  · have hrun : (repeatRunner.run bothRequest (.init _ (.start fundedDb))).map
        (fun w => keyDebits (scopedKey 7 "key") w.conf.s.db) = some 1 := by
      decide +kernel
    obtain ⟨w, hw, hd⟩ := Option.map_eq_some_iff.1 hrun
    refine ⟨w, Runner.steps_of_run (R := repeatRunner) (fun c hc => ?_) Db.tick_wait
      (fun _ _ _ => trivial) (fun _ _ => rfl) hw, hd⟩
    cases List.eq_of_mem_replicate hc
    exact ⟨plainEnv, 7, .btc, "address", 200000, "ip", some "key", rfl⟩

end SatsPay
