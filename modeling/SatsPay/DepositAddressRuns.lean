import SatsPay.DepositAddresses
import SatsPay.RowProtocol
import SatsPay.Script

/-!
# Runs of the requests for addresses

However requests interleave, no two wallets share an address, and a wallet keeps the address it has
got. No number of a sequence is drawn twice, so that none is used for two wallets or for a wallet
and an invoice of one coin, until the sequence is past what fits a `u32`.
-/

namespace SatsPay

open Interleave ReadCommitted RowProtocol

abbrev AddressHist := Hist (sig addressStore)
abbrev AddressEvent := Event (sig addressStore)

structure AddressTables.Indexed (db : AddressTables) : Prop where
  owner : ∀ o id, db.byOwner o = some id ↔ ∃ r, db.wallets id = some r ∧ r.owner = o
  address : ∀ a id, db.byAddress a = some id ↔ ∃ r, db.wallets id = some r ∧ r.address = some a

structure AddressTables.Sound (db : AddressTables) : Prop where
  indexed : db.Indexed
  numbered : ∀ id r i, db.wallets id = some r → r.hdIndex = some i → i ≤ db.drawn r.coin
  distinct : ∀ id id' r r' i, db.wallets id = some r → db.wallets id' = some r' →
    r.coin = r'.coin → r.hdIndex = some i → r'.hdIndex = some i → id = id'

/-! ## Numbers -/

def Drew (h : AddressHist) (p : Nat) (coin : Coin) (n : ℕ) : Prop :=
  (.did p (.pool (.nextval coin)) (.ok n) : AddressEvent) ∈ h

def drawOf : AddressEvent → Option (Coin × Nat × ℕ)
  | .did p (.pool (.nextval c)) (.ok n) => some (c, p, n)
  | _ => none

def draws (coin : Coin) (h : AddressHist) : List (Nat × ℕ) :=
  ((h.filterMap drawOf).filter fun x => x.1 = coin).map Prod.snd

/-! ## The law -/

section
variable (L : AddressLib) (H : HdLib) (setup : Coin → ClientSetup)

/-- The row has its address from a number that `p` has drawn, and has committed. -/
structure IssuedBy (h : AddressHist) (p : Nat) (n : ℕ) (r : AddressedWallet) : Prop where
  kind : r.kind = .personal
  drew : Drew h p r.coin n
  committed : .did p .commit (.ok ()) ∈ h
  index : r.hdIndex = some ((n % 2 ^ 32 : ℕ) : ℤ)
  address : ∃ a, r.address = some a ∧ clientAddress L H setup r.coin (n % 2 ^ 32) = .ok a

/-- The user has the address in the wallet of the coin, and no number was drawn in vain for it. -/
def GivenTo (h : AddressHist) (p : Nat) (db : AddressTables) (user : Uuid) (coin : Coin)
    (a : String) : Prop :=
  ∃ id r, db.wallets id = some r ∧ r.owner = (user, coin, .personal) ∧ r.address = some a ∧
    ∀ c n, Drew h p c n → IssuedBy L H setup h p n r

inductive AddressProcess : Addressing Empty Unit → Prop
  | serve (personalId developerId userId : Uuid) (coinStr : String) :
      AddressProcess (serveAddress L H setup personalId developerId userId coinStr)
  | invoice (coin : Coin) : AddressProcess (serveInvoiceAddress L H setup coin)

abbrev AddressRun (db : AddressTables) (w : World (machine addressStore)) : Prop :=
  Run (AddressProcess L H setup) (anyStep _) db w

abbrev AddressSteps : World (machine addressStore) → World (machine addressStore) → Prop :=
  Steps (machine addressStore) (AddressProcess L H setup) (anyStep _)

structure AddressLaw (db : AddressTables) : Prop where
  unique : ∀ w id id' r r' a, AddressRun L H setup db w → w.conf.s.db.wallets id = some r →
    w.conf.s.db.wallets id' = some r' → r.address = some a → r'.address = some a → id = id'
  /-- No wallet is lost, and one that has an address is not changed. -/
  kept : ∀ w w' id r, AddressRun L H setup db w → AddressSteps L H setup w w' →
    w.conf.s.db.wallets id = some r → ∃ r', w'.conf.s.db.wallets id = some r' ∧
      r'.owner = r.owner ∧ (r.address.isSome → r' = r)
  /-- An address is new only where its number has been drawn for it, and passes the check then. -/
  issued : ∀ w id r, AddressRun L H setup db w → w.conf.s.db.wallets id = some r →
    r.address.isSome → db.wallets id = some r ∨
      ((∃ p n, IssuedBy L H setup w.conf.hist p n r) ∧
        ∃ a, r.address = some a ∧ validateAddress L r.coin (setup r.coin).network a = true)
  answered : ∀ w p user coinStr a, AddressRun L H setup db w →
    .did p (.call (.answer user coinStr (.ok a))) () ∈ w.conf.hist →
    ∃ coin, Coin.fromStr coinStr = some coin ∧ isDepositWithdrawPaused coin = false ∧
      GivenTo L H setup w.conf.hist p w.conf.s.db user coin a
  same : ∀ w p p' user coinStr coinStr' a a', AddressRun L H setup db w →
    .did p (.call (.answer user coinStr (.ok a))) () ∈ w.conf.hist →
    .did p' (.call (.answer user coinStr' (.ok a'))) () ∈ w.conf.hist →
    Coin.fromStr coinStr = Coin.fromStr coinStr' → a = a'
  /-- A request that fails has given no wallet its address. -/
  failed : ∀ w p user coinStr e n id r, AddressRun L H setup db w →
    .did p (.call (.answer user coinStr (.error e))) () ∈ w.conf.hist →
    w.conf.s.db.wallets id = some r → ¬ IssuedBy L H setup w.conf.hist p n r
  /-- No number is drawn twice. -/
  drawn : ∀ w coin, AddressRun L H setup db w →
    (draws coin w.conf.hist).Pairwise fun x y => y.2 < x.2
  numbered : ∀ w id id' r r' i, AddressRun L H setup db w → w.conf.s.db.drawn r.coin < 2 ^ 32 →
    w.conf.s.db.wallets id = some r → w.conf.s.db.wallets id' = some r' → r.coin = r'.coin →
    r.hdIndex = some i → r'.hdIndex = some i → id = id'
  /-- Nor is the number of a wallet given to an invoice, or that of an invoice to another. -/
  apart : ∀ w p coin g (i : ℕ), AddressRun L H setup db w → w.conf.s.db.drawn coin < 2 ^ 32 →
    .did p (.call (.invoice coin (.ok g))) () ∈ w.conf.hist → g.hdIndex = some i →
    (∀ id r, w.conf.s.db.wallets id = some r → r.coin = coin → r.hdIndex ≠ some (i : ℤ)) ∧
    ∀ q g', q ≠ p → .did q (.call (.invoice coin (.ok g'))) () ∈ w.conf.hist → g'.hdIndex ≠ some i

/-! ## The invariant -/

variable (old : AddressTables)

structure AddressInv (db : AddressTables) (h : AddressHist) : Prop where
  indexed : db.Indexed
  advanced : ∀ coin, old.drawn coin ≤ db.drawn coin
  ordered : ∀ coin, (draws coin h).Pairwise fun x y => y.2 < x.2
  bounded : ∀ p coin n, Drew h p coin n → old.drawn coin < n ∧ n ≤ db.drawn coin
  issued : ∀ id r, db.wallets id = some r → r.address.isSome →
    old.wallets id = some r ∨ ∃ p n, IssuedBy L H setup h p n r
  bare : ∀ id r, db.wallets id = some r → r.address = none →
    old.wallets id = some r ∨ r.hdIndex = none
  answered : ∀ p user coinStr a, .did p (.call (.answer user coinStr (.ok a))) () ∈ h →
    ∃ coin, Coin.fromStr coinStr = some coin ∧ isDepositWithdrawPaused coin = false ∧
      GivenTo L H setup h p db user coin a
  failed : ∀ p user coinStr e, .did p (.call (.answer user coinStr (.error e))) () ∈ h →
    .did p .commit (.ok ()) ∉ h
  invoiced : ∀ p coin g, .did p (.call (.invoice coin (.ok g))) () ∈ h →
    .did p .commit (.ok ()) ∉ h ∧ ∃ n, Drew h p coin n ∧ g.hdIndex = some (n % 2 ^ 32)

end

def AddressRel (db db' : AddressTables) : Prop :=
  ∀ id r, db.wallets id = some r → ∃ r', db'.wallets id = some r' ∧ r'.owner = r.owner ∧
    (r.address.isSome → r' = r)

/-- Anything but a draw, a commit and an answer. -/
def AddressQuiet : AddressEvent → Prop
  | .did _ (.pool (.nextval _)) (.ok _) => False
  | .did _ .commit (.ok _) => False
  | .did _ (.call _) _ => False
  | _ => True

section
variable {L : AddressLib} {H : HdLib} {setup : Coin → ClientSetup} {old db db' : AddressTables}
variable {h : AddressHist} {e : AddressEvent} {p : Nat}

theorem AddressRel.refl (db : AddressTables) : AddressRel db db :=
  fun _ r hr => ⟨r, hr, rfl, fun _ => rfl⟩

theorem AddressRel.trans {db₁ db₂ db₃ : AddressTables} (h₁ : AddressRel db₁ db₂)
    (h₂ : AddressRel db₂ db₃) : AddressRel db₁ db₃ := by
  intro id r hr
  obtain ⟨r₂, hr₂, ho₂, hk₂⟩ := h₁ id r hr
  obtain ⟨r₃, hr₃, ho₃, hk₃⟩ := h₂ id r₂ hr₂
  refine ⟨r₃, hr₃, ho₃.trans ho₂, fun hs => ?_⟩
  obtain rfl := hk₂ hs
  exact hk₃ hs

theorem drawOf_of_quiet (he : AddressQuiet e) : drawOf e = none := by
  unfold drawOf
  split
  · exact he.elim
  · rfl

theorem draws_cons_of_none (he : drawOf e = none) (coin : Coin) : draws coin (e :: h) = draws coin h := by
  simp [draws, he]

theorem mem_draws {coin : Coin} {n : ℕ} : (p, n) ∈ draws coin h ↔ Drew h p coin n := by
  have key (e : AddressEvent) (c : Coin) : drawOf e = some (c, p, n) ↔
      e = .did p (.pool (.nextval c)) (.ok n) := by
    constructor
    · intro he
      unfold drawOf at he
      split at he
      · cases he
        rfl
      · cases he
    · rintro rfl
      rfl
  simp [draws, Drew, key]

theorem mem_of_quiet {e' : AddressEvent} (he : AddressQuiet e) (he' : ¬ AddressQuiet e') :
    e' ∈ e :: h ↔ e' ∈ h := by
  rw [List.mem_cons, or_iff_right]
  rintro rfl
  exact he' he

theorem drew_of_quiet (he : AddressQuiet e) {q : Nat} {c : Coin} {n : ℕ} :
    Drew (e :: h) q c n ↔ Drew h q c n :=
  mem_of_quiet he fun h => h

theorem call_mem_of_quiet (he : AddressQuiet e) {q : Nat} {c : AddressCall} :
    .did q (.call c) () ∈ e :: h ↔ .did q (.call c) () ∈ h :=
  mem_of_quiet he fun h => h

theorem commit_mem_of_quiet (he : AddressQuiet e) {q : Nat} :
    .did q .commit (.ok ()) ∈ e :: h ↔ .did q .commit (.ok ()) ∈ h :=
  mem_of_quiet he fun h => h

theorem IssuedBy.mono {n : ℕ} {r : AddressedWallet} (l : AddressHist)
    (hi : IssuedBy L H setup h p n r) : IssuedBy L H setup (l ++ h) p n r where
  kind := hi.kind
  drew := List.mem_append_right _ hi.drew
  committed := List.mem_append_right _ hi.committed
  index := hi.index
  address := hi.address

/-- What is known of the rows where their indexes, and those rows that have an address, stay. -/
theorem AddressInv.quiet (he : AddressQuiet e) (hv : AddressInv L H setup old db h) :
    AddressInv L H setup old db (e :: h) := by
  refine ⟨hv.indexed, hv.advanced, fun coin => ?_, fun q c n hd => hv.bounded q c n ((drew_of_quiet he).1 hd),
    fun id r hr hs => ?_, hv.bare, fun q user s a hm => ?_, fun q user s x hm => ?_,
    fun q c g hm => ?_⟩
  · rw [draws_cons_of_none (drawOf_of_quiet he)]
    exact hv.ordered coin
  · refine (hv.issued id r hr hs).imp_right ?_
    rintro ⟨q, n, hi⟩
    exact ⟨q, n, hi.mono [e]⟩
  · obtain ⟨c, hc, hp, id, r, hr, ho, ha, hd⟩ := hv.answered q user s a ((call_mem_of_quiet he).1 hm)
    exact ⟨c, hc, hp, id, r, hr, ho, ha, fun c n h => (hd c n ((drew_of_quiet he).1 h)).mono [e]⟩
  · rw [commit_mem_of_quiet he]
    exact hv.failed q user s x ((call_mem_of_quiet he).1 hm)
  · rw [commit_mem_of_quiet he]
    obtain ⟨hn, n, hd, hg⟩ := hv.invoiced q c g ((call_mem_of_quiet he).1 hm)
    exact ⟨hn, n, (drew_of_quiet he).2 hd, hg⟩

theorem AddressInv.tick (hv : AddressInv L H setup old db h) (ht : db.Tick db') :
    AddressInv L H setup old db' h := by
  obtain ⟨hw, ho, ha, hd⟩ := ht
  refine ⟨⟨?_, ?_⟩, fun c => (hv.advanced c).trans (hd c), hv.ordered, fun q c n hn =>
    ⟨(hv.bounded q c n hn).1, (hv.bounded q c n hn).2.trans (hd c)⟩, ?_, ?_, ?_, hv.failed,
    hv.invoiced⟩
  · rw [ho, hw]
    exact hv.indexed.owner
  · rw [ha, hw]
    exact hv.indexed.address
  all_goals simp only [GivenTo, hw]
  · exact hv.issued
  · exact hv.bare
  · exact hv.answered

theorem rel_of_tick (ht : db.Tick db') : AddressRel db db' := by
  intro id r hr
  rw [← ht.1] at hr
  exact ⟨r, hr, rfl, fun _ => rfl⟩

variable (L H setup old) in
def addressProtocol : RowProtocol addressStore fun _ _ _ => True where
  inv := AddressInv L H setup old
  rel _ db _ db' _ := AddressRel db db'
  done _ _ _ := True
  quiet := AddressQuiet
  rel_refl _ db _ := .refl db
  rel_trans _ _ _ _ _ _ _ := .trans
  quiet_begin _ _ := trivial
  quiet_rollback _ := trivial
  quiet_tx _ _ _ := trivial
  quiet_commit _ _ := trivial
  inv_quiet := AddressInv.quiet
  rel_quiet _ _ _ := .refl _
  finish h _ _ := ⟨h.quiet trivial, fun _ _ => .refl _⟩
  crash h _ := ⟨h.quiet trivial, fun _ _ => .refl _⟩
  env h ht _ := ⟨(h.tick ht).quiet trivial, fun _ => rel_of_tick ht⟩

/-! ## What a process knows -/

/-- Beside what is quiet `p` has done no more than `l`. -/
def Only (p : Nat) (l : List AddressEvent) (h : AddressHist) : Prop :=
  ∀ e ∈ h, e.pid = some p → AddressQuiet e ∨ e ∈ l

def Owns (o : Owner) (id : Uuid) (db : AddressTables) : Prop :=
  ∃ r, db.wallets id = some r ∧ r.owner = o

theorem Only.cons {l : List AddressEvent} (hl : Only p l h) (e : AddressEvent) :
    Only p (e :: l) (e :: h) := by
  intro e' he' hp
  rcases List.mem_cons.1 he' with rfl | he'
  · exact .inr List.mem_cons_self
  · exact (hl e' he' hp).imp_right (List.mem_cons_of_mem _)

theorem Only.not_mem {l : List AddressEvent} (hl : Only p l h) (he : ¬ AddressQuiet e)
    (hp : e.pid = some p) (hm : e ∉ l) : e ∉ h := by
  intro h
  rcases hl e h hp with hq | hq
  · exact he hq
  · exact hm hq

theorem Only.quiet {l : List AddressEvent} (hl : Only p l h) (hq : AddressQuiet e) :
    Only p l (e :: h) := by
  intro e' he' hp
  rcases List.mem_cons.1 he' with rfl | he'
  · exact .inl hq
  · exact hl e' he' hp

theorem only_of_unborn (hp : Unborn (S := addressStore) p db h) : Only p [] h :=
  fun e he h => absurd h (hp e he)

theorem framed_only (l : List AddressEvent) :
    (addressProtocol L H setup old).Framed p fun _ h => Only p l h where
  stable := by
    rintro db h db' _ hl - ⟨l', rfl, hp⟩ - e he h
    rcases List.mem_append.1 he with he | he
    · exact absurd h (hp e he)
    · exact hl e he h
  own _ _ _ hq _ hl := hl.quiet hq

theorem Owns.mono {o : Owner} {id : Uuid} (ho : Owns o id db) (hr : AddressRel db db') :
    Owns o id db' := by
  obtain ⟨r, hr₁, ho⟩ := ho
  obtain ⟨r', hr', ho', -⟩ := hr id r hr₁
  exact ⟨r', hr', ho'.trans ho⟩

theorem framed_owns (o : Owner) (id : Uuid) :
    (addressProtocol L H setup old).Framed p fun db _ => Owns o id db :=
  ⟨fun _ _ _ _ ho hr _ _ => ho.mono hr, fun _ _ _ _ _ ho => ho⟩

/-! ## Steps -/

theorem AddressTables.Indexed.insert (hd : db.Indexed) {id : Uuid} {o : Owner}
    (ho : db.byOwner o = none) (hid : db.wallets id = none) :
    ((AddressWrite.insertWallet id o).apply db).Indexed := by
  have hne {id' : Uuid} {r : AddressedWallet} (hr : db.wallets id' = some r) : id' ≠ id := by
    rintro rfl
    rw [hid] at hr
    cases hr
  refine ⟨fun o' id' => ?_, fun a id' => ?_⟩
  · show Function.update db.byOwner o (some id) o' = some id' ↔
      ∃ r, Function.update db.wallets id (some (newRow o)) id' = some r ∧ r.owner = o'
    by_cases hi : id' = id
    · subst hi
      by_cases e : o' = o
      · subst e
        simp [newRow, AddressedWallet.owner]
      · rw [Function.update_of_ne e, hd.owner]
        simp [newRow, AddressedWallet.owner, hid, Ne.symm e]
    · rw [Function.update_of_ne hi, ← hd.owner]
      by_cases e : o' = o
      · subst e
        simp [ho, Ne.symm hi]
      · rw [Function.update_of_ne e]
  · show db.byAddress a = some id' ↔
      ∃ r, Function.update db.wallets id (some (newRow o)) id' = some r ∧ r.address = some a
    rw [hd.address]
    by_cases hi : id' = id
    · subst hi
      simp [newRow, hid]
    · rw [Function.update_of_ne hi]

theorem AddressTables.Indexed.setAddress (hd : db.Indexed) {id : Uuid} {r : AddressedWallet}
    {a : String} (hr : db.wallets id = some r) (hnone : r.address = none)
    (ha : db.byAddress a = none) (i : Option ℤ) :
    ((AddressWrite.setAddress id none a i).apply db).Indexed := by
  refine ⟨fun o id' => ?_, fun b id' => ?_⟩
  · show db.byOwner o = some id' ↔ ∃ r', Function.update db.wallets id
      ((db.wallets id).map (·.setAddress a i)) id' = some r' ∧ r'.owner = o
    rw [hd.owner, hr]
    by_cases hi : id' = id
    · subst hi
      simp [hr, AddressedWallet.setAddress, AddressedWallet.owner]
    · rw [Function.update_of_ne hi]
  · show reindex db.byAddress id none a b = some id' ↔ ∃ r', Function.update db.wallets id
      ((db.wallets id).map (·.setAddress a i)) id' = some r' ∧ r'.address = some b
    have hold := hd.address b id'
    have hfree := hd.address a id'
    rw [hr, reindex]
    by_cases hi : id' = id
    · subst hi
      rw [hr] at hold
      by_cases e : b = a
      · simp [e, AddressedWallet.setAddress]
      · simpa [e, Ne.symm e, AddressedWallet.setAddress, hnone] using hold
    · rw [Function.update_of_ne hi]
      by_cases e : b = a
      · rw [if_pos e, ← hold, e, ha]
        simp [Ne.symm hi]
      · rw [if_neg e, if_neg (by simp), hold]

theorem AddressInv.insert (hv : AddressInv L H setup old db h) {id : Uuid} {o : Owner}
    (ho : db.byOwner o = none) (hid : db.wallets id = none) :
    AddressInv L H setup old ((AddressWrite.insertWallet id o).apply db) h ∧
      AddressRel db ((AddressWrite.insertWallet id o).apply db) := by
  have hkeep {id' : Uuid} {r : AddressedWallet} (hr : db.wallets id' = some r) :
      Function.update db.wallets id (some (newRow o)) id' = some r := by
    rw [Function.update_of_ne, hr]
    rintro rfl
    rw [hid] at hr
    cases hr
  have hnew {id' : Uuid} {r : AddressedWallet}
      (hr : ((AddressWrite.insertWallet id o).apply db).wallets id' = some r) :
      db.wallets id' = some r ∨ r = newRow o := by
    have hr : Function.update db.wallets id (some (newRow o)) id' = some r := hr
    by_cases hi : id' = id
    · subst hi
      rw [Function.update_self] at hr
      exact .inr (Option.some.inj hr).symm
    · rw [Function.update_of_ne hi] at hr
      exact .inl hr
  refine ⟨⟨hv.indexed.insert ho hid, hv.advanced, hv.ordered, hv.bounded, fun id' r hr hs => ?_,
    fun id' r hr hn => ?_, fun q user s a hm => ?_, hv.failed, hv.invoiced⟩,
    fun id' r hr => ⟨r, hkeep hr, rfl, fun _ => rfl⟩⟩
  · rcases hnew hr with hr | rfl
    · exact hv.issued id' r hr hs
    · cases hs
  · rcases hnew hr with hr | rfl
    · exact hv.bare id' r hr hn
    · exact .inr rfl
  · obtain ⟨c, hc, hp, id', r, hr, ho, ha, hd⟩ := hv.answered q user s a hm
    exact ⟨c, hc, hp, id', r, hkeep hr, ho, ha, hd⟩

/-- A number is drawn by who has not been answered. -/
theorem AddressInv.draw (hv : AddressInv L H setup old db h) (hp : Only p [] h) (coin : Coin) :
    AddressInv L H setup old ((AddressWrite.advance coin (db.drawn coin + 1)).apply db)
      (.did p (.pool (.nextval coin)) (.ok (db.drawn coin + 1)) :: h) := by
  have hdrawn (c : Coin) : db.drawn c ≤
      ((AddressWrite.advance coin (db.drawn coin + 1)).apply db).drawn c := by
    show _ ≤ Function.update db.drawn coin _ c
    by_cases e : c = coin
    · subst e
      simp
    · rw [Function.update_of_ne e]
  have hself : ((AddressWrite.advance coin (db.drawn coin + 1)).apply db).drawn coin =
      db.drawn coin + 1 := Function.update_self ..
  have of_mem {e : AddressEvent} (he : ∀ n, e ≠ .did p (.pool (.nextval coin)) (.ok n))
      (hm : e ∈ (.did p (.pool (.nextval coin)) (.ok (db.drawn coin + 1)) :: h : AddressHist)) :
      e ∈ h := (List.mem_cons.1 hm).resolve_left (he _)
  refine ⟨⟨hv.indexed.owner, hv.indexed.address⟩, fun c => (hv.advanced c).trans (hdrawn c),
    fun c => ?_, fun q c n hn => ?_, fun id r hr hs => ?_, hv.bare, fun q user s a hm => ?_,
    fun q user s x hm hc => ?_, fun q c g hm => ?_⟩
  · by_cases e : c = coin
    · subst e
      have hcons : draws c (.did p (.pool (.nextval c)) (.ok (db.drawn c + 1)) :: h) =
          (p, db.drawn c + 1) :: draws c h := by
        simp [draws, drawOf]
      rw [hcons]
      refine .cons (fun x hx => ?_) (hv.ordered c)
      have := (hv.bounded x.1 c x.2 (mem_draws.1 hx)).2
      show x.2 < db.drawn c + 1
      omega
    · have hcons : draws c (.did p (.pool (.nextval coin)) (.ok (db.drawn coin + 1)) :: h) =
          draws c h := by
        simp [draws, drawOf, Ne.symm e]
      rw [hcons]
      exact hv.ordered c
  · rcases List.mem_cons.1 hn with hn | hn
    · cases hn
      rw [hself]
      exact ⟨Nat.lt_succ_of_le (hv.advanced coin), le_rfl⟩
    · obtain ⟨h₁, h₂⟩ := hv.bounded q c n hn
      exact ⟨h₁, h₂.trans (hdrawn c)⟩
  · refine (hv.issued id r hr hs).imp_right ?_
    rintro ⟨q, n, hi⟩
    exact ⟨q, n, hi.mono [_]⟩
  · have hm := of_mem (by simp) hm
    obtain ⟨c, hc, hpause, id, r, hr, ho, ha, hd⟩ := hv.answered q user s a hm
    refine ⟨c, hc, hpause, id, r, hr, ho, ha, fun c' n hn => ?_⟩
    rcases List.mem_cons.1 hn with hn | hn
    · cases hn
      exact absurd hm (hp.not_mem (fun h => h) rfl List.not_mem_nil)
    · exact (hd c' n hn).mono [_]
  · exact hv.failed q user s x (of_mem (by simp) hm) (of_mem (by simp) hc)
  · obtain ⟨hn, n, hd, hg⟩ := hv.invoiced q c g (of_mem (by simp) hm)
    exact ⟨fun hc => hn (of_mem (by simp) hc), n, List.mem_cons_of_mem _ hd, hg⟩

/-- A commit of what leaves the rows and the answers that have been given. -/
theorem AddressInv.commit (hv : AddressInv L H setup old db h) {l : List AddressEvent}
    (hp : Only p l h) (hl : ∀ c r, .did p (.call c) r ∉ l) :
    AddressInv L H setup old db (.did p .commit (.ok ()) :: h) := by
  have of_mem {e : AddressEvent} (he : e ≠ .did p .commit (.ok ()))
      (hm : e ∈ (.did p .commit (.ok ()) :: h : AddressHist)) : e ∈ h :=
    (List.mem_cons.1 hm).resolve_left he
  have other {q : Nat} {c : AddressCall} {r : Unit} (hc : .did q (.call c) r ∈ h) : q ≠ p := by
    rintro rfl
    exact hp.not_mem (e := .did q (.call c) r) (fun h => h) rfl (hl c r) hc
  refine ⟨hv.indexed, hv.advanced, fun c => ?_, fun q c n hn => hv.bounded q c n (of_mem (by simp) hn),
    fun id r hr hs => ?_, hv.bare, fun q user s a hm => ?_, fun q user s x hm hc => ?_,
    fun q c g hm => ?_⟩
  · rw [draws_cons_of_none rfl]
    exact hv.ordered c
  · refine (hv.issued id r hr hs).imp_right ?_
    rintro ⟨q, n, hi⟩
    exact ⟨q, n, hi.mono [_]⟩
  · obtain ⟨c, hc, hpause, id, r, hr, ho, ha, hd⟩ := hv.answered q user s a (of_mem (by simp) hm)
    exact ⟨c, hc, hpause, id, r, hr, ho, ha, fun c' n hn => (hd c' n (of_mem (by simp) hn)).mono [_]⟩
  · have hm := of_mem (by simp) hm
    refine hv.failed q user s x hm (of_mem ?_ hc)
    rintro ⟨⟩
    exact other hm rfl
  · have hm := of_mem (by simp) hm
    obtain ⟨hn, n, hd, hg⟩ := hv.invoiced q c g hm
    refine ⟨fun hc => hn (of_mem ?_ hc), n, List.mem_cons_of_mem _ hd, hg⟩
    rintro ⟨⟩
    exact other hm rfl

/-- A row without an address gets the one that has been derived for it. -/
theorem AddressInv.assign (hv : AddressInv L H setup old db h) {id : Uuid} {r : AddressedWallet}
    {a : String} {i : Option ℤ} {n : ℕ} (hr : db.wallets id = some r) (hnone : r.address = none)
    (ha : db.byAddress a = none) (hi : IssuedBy L H setup h p n (r.setAddress a i)) :
    AddressInv L H setup old ((AddressWrite.setAddress id none a i).apply db) h ∧
      AddressRel db ((AddressWrite.setAddress id none a i).apply db) := by
  have hself : ((AddressWrite.setAddress id none a i).apply db).wallets id = some (r.setAddress a i) := by
    show Function.update db.wallets id _ id = _
    rw [Function.update_self, hr, Option.map_some]
  have hother {id' : Uuid} (hne : id' ≠ id) :
      ((AddressWrite.setAddress id none a i).apply db).wallets id' = db.wallets id' :=
    Function.update_of_ne hne ..
  refine ⟨⟨hv.indexed.setAddress hr hnone ha i, hv.advanced, hv.ordered, hv.bounded,
    fun id' r' hr' hs => ?_, fun id' r' hr' hn => ?_, fun q user s b hm => ?_, hv.failed,
    hv.invoiced⟩, fun id' r' hr' => ?_⟩
  · by_cases e : id' = id
    · subst e
      obtain rfl := Option.some.inj (hself.symm.trans hr')
      exact .inr ⟨p, n, hi⟩
    · rw [hother e] at hr'
      exact hv.issued id' r' hr' hs
  · by_cases e : id' = id
    · subst e
      obtain rfl := Option.some.inj (hself.symm.trans hr')
      cases hn
    · rw [hother e] at hr'
      exact hv.bare id' r' hr' hn
  · obtain ⟨c, hc, hp, id', r', hr', ho, hb, hd⟩ := hv.answered q user s b hm
    have e : id' ≠ id := by
      rintro rfl
      obtain rfl := Option.some.inj (hr.symm.trans hr')
      rw [hnone] at hb
      cases hb
    exact ⟨c, hc, hp, id', r', (hother e).trans hr', ho, hb, hd⟩
  · by_cases e : id' = id
    · subst e
      obtain rfl := Option.some.inj (hr.symm.trans hr')
      refine ⟨_, hself, rfl, fun hs => ?_⟩
      rw [hnone] at hs
      cases hs
    · exact ⟨r', (hother e).trans hr', rfl, fun _ => rfl⟩

/-- An answer, or an invoice, of what is known of it. -/
theorem AddressInv.call (hv : AddressInv L H setup old db h) {c : AddressCall}
    (hok : ∀ user s a, c = .answer user s (.ok a) → ∃ coin, Coin.fromStr s = some coin ∧
      isDepositWithdrawPaused coin = false ∧ GivenTo L H setup h p db user coin a)
    (herr : ∀ user s x, c = .answer user s (.error x) → .did p .commit (.ok ()) ∉ h)
    (hinv : ∀ coin g, c = .invoice coin (.ok g) → .did p .commit (.ok ()) ∉ h ∧
      ∃ n, Drew h p coin n ∧ g.hdIndex = some (n % 2 ^ 32)) :
    AddressInv L H setup old db (.did p (.call c) () :: h) := by
  have drew {q : Nat} {c' : Coin} {n : ℕ} (hd : Drew (.did p (.call c) () :: h) q c' n) :
      Drew h q c' n := (List.mem_cons.1 hd).resolve_left (by simp)
  have uncommitted {q : Nat} (hq : .did q .commit (.ok ()) ∉ h) :
      .did q .commit (.ok ()) ∉ (.did p (.call c) () :: h : AddressHist) := by
    simpa using hq
  have given {q : Nat} {user : Uuid} {coin : Coin} {a : String}
      (hg : GivenTo L H setup h q db user coin a) :
      GivenTo L H setup (.did p (.call c) () :: h) q db user coin a := by
    obtain ⟨id, r, hr, ho, ha, hd⟩ := hg
    exact ⟨id, r, hr, ho, ha, fun c n hn => (hd c n (drew hn)).mono [_]⟩
  refine ⟨hv.indexed, hv.advanced, fun coin => ?_, fun q c n hn => hv.bounded q c n (drew hn),
    fun id r hr hs => ?_, hv.bare, fun q user s a hm => ?_, fun q user s x hm => ?_,
    fun q coin g hm => ?_⟩
  · rw [draws_cons_of_none rfl]
    exact hv.ordered coin
  · refine (hv.issued id r hr hs).imp_right ?_
    rintro ⟨q, n, hi⟩
    exact ⟨q, n, hi.mono [_]⟩
  · rcases List.mem_cons.1 hm with hm | hm
    · cases hm
      obtain ⟨coin, hc, hp, hg⟩ := hok user s a rfl
      exact ⟨coin, hc, hp, given hg⟩
    · obtain ⟨coin, hc, hp, hg⟩ := hv.answered q user s a hm
      exact ⟨coin, hc, hp, given hg⟩
  · rcases List.mem_cons.1 hm with hm | hm
    · cases hm
      exact uncommitted (herr user s x rfl)
    · exact uncommitted (hv.failed q user s x hm)
  · rcases List.mem_cons.1 hm with hm | hm
    · cases hm
      obtain ⟨hn, n, hd, hg⟩ := hinv coin g rfl
      exact ⟨uncommitted hn, n, List.mem_cons_of_mem _ hd, hg⟩
    · obtain ⟨hn, n, hd, hg⟩ := hv.invoiced q coin g hm
      exact ⟨uncommitted hn, n, List.mem_cons_of_mem _ hd, hg⟩

/-! ## What the statements keep -/

theorem GivenTo.quiet {user : Uuid} {coin : Coin} {a : String} (hq : AddressQuiet e)
    (hg : GivenTo L H setup h p db user coin a) : GivenTo L H setup (e :: h) p db user coin a := by
  obtain ⟨id, r, hr, ho, ha, hd⟩ := hg
  exact ⟨id, r, hr, ho, ha, fun c n hn => (hd c n ((drew_of_quiet hq).1 hn)).mono [e]⟩

theorem framed_given (user : Uuid) (coin : Coin) (a : String) :
    (addressProtocol L H setup old).Framed p fun db h => GivenTo L H setup h p db user coin a where
  stable := by
    rintro db h db' _ ⟨id, r, hr, ho, ha, hd⟩ hrel ⟨l, rfl, hl⟩ -
    obtain ⟨r', hr', -, hkeep⟩ := hrel id r hr
    obtain rfl := hkeep (by simp [ha])
    refine ⟨id, r', hr', ho, ha, fun c n hn => ?_⟩
    rcases List.mem_append.1 hn with hn | hn
    · exact absurd rfl (hl _ hn)
    · exact (hd c n hn).mono l
  own _ _ _ hq _ hg := hg.quiet hq

theorem framed_uncommitted :
    (addressProtocol L H setup old).Framed p fun _ h => .did p .commit (.ok ()) ∉ h where
  stable := by
    rintro db h db' _ hn - ⟨l, rfl, hl⟩ - hm
    rcases List.mem_append.1 hm with hm | hm
    · exact absurd rfl (hl _ hm)
    · exact hn hm
  own _ h e hq _ hn := by
    rwa [commit_mem_of_quiet hq]

theorem Only.uncommitted {l : List AddressEvent} (hl : Only p l h)
    (hc : .did p .commit (.ok ()) ∉ l) : .did p .commit (.ok ()) ∉ h :=
  hl.not_mem (fun h => h) rfl hc

theorem evalInsertWallet_ok {id : Uuid} {o : Owner} {a : Unit} {ws : List AddressWrite}
    (he : .ok (a, ws) ∈ evalInsertWallet id o db) : ws = [] ∨
      ws = [.insertWallet id o] ∧ db.byOwner o = none ∧ db.wallets id = none := by
  unfold evalInsertWallet at he
  split at he
  · cases List.mem_singleton.1 he
    exact .inl rfl
  · rename_i ho
    split at he
    · cases List.mem_singleton.1 he
    · rename_i hid
      rcases List.mem_cons.1 he with he | he
      · cases he
        exact .inr ⟨rfl, by simpa using ho, by simpa using hid⟩
      · cases List.mem_singleton.1 he

/-- A statement that reads, on its own. -/
theorem triple_readPool {ε : Type} [FromErr AddressDbError ε] (st : AddressStmt)
    {A : AddressTables → AddressHist → Prop} {B : st.Ans → AddressTables → AddressHist → Prop}
    (hq : ∀ r, AddressQuiet (.did p (.pool st) r)) (hA : (addressProtocol L H setup old).Framed p A)
    (hB : ∀ a, (addressProtocol L H setup old).Framed p (B a))
    (hok : ∀ db h a ws, AddressInv L H setup old db h → A db h → .ok (a, ws) ∈ st.eval db →
      ws = [] ∧ B a db h) :
    (addressProtocol L H setup old).toProtocol.Triple p (Idle p A)
      (poolQuery (S := addressStore) st : Addressing ε _)
      (outcome (fun a => Idle p (B a)) fun _ => Idle p A) := by
  refine triple_poolQuery (S := addressStore) st (fun a => (hB a).stable) (fun _ => hA.stable) ?_ ?_
  · intro db h a ws hi ha he _
    obtain ⟨rfl, hb⟩ := hok db h a ws hi ha he
    exact ⟨⟨by simp, hi.quiet (hq _), fun q _ => .refl _⟩, (hB a).own _ _ _ (hq _) rfl hb⟩
  · intro db h e hi ha _ _
    exact ⟨⟨hi.quiet (hq _), fun q _ => .refl _⟩, hA.own _ _ _ (hq _) rfl ha⟩

theorem triple_makeWallet {ε : Type} [FromErr AddressDbError ε] (id : Uuid) (o : Owner) :
    (addressProtocol L H setup old).toProtocol.Triple p (Idle p fun _ h => Only p [] h)
      (poolQuery (S := addressStore) (.insertWallet id o) : Addressing ε _)
      (outcome (fun _ => Idle p fun _ h => Only p [] h) fun _ => Idle p fun _ h => Only p [] h) := by
  have hA : (addressProtocol L H setup old).Framed p fun _ h => Only p [] h := framed_only []
  refine triple_poolQuery (S := addressStore) (.insertWallet id o) (fun _ => hA.stable)
    (fun _ => hA.stable) ?_ ?_
  · intro db h a ws hi ha he _
    have hown := hA.own db h (.did p (.pool (.insertWallet id o)) (.ok a)) trivial rfl ha
    rcases evalInsertWallet_ok he with rfl | ⟨rfl, ho, hid⟩
    · exact ⟨⟨by simp, hi.quiet trivial, fun q _ => .refl _⟩, hown⟩
    · obtain ⟨hv, hrel⟩ := hi.insert ho hid
      refine ⟨⟨?_, hv.quiet trivial, fun q _ => hrel⟩, hown⟩
      simp [AddressWrite.touches, AddressStmt.locks, ho]
  · intro db h e hi ha _ _
    exact ⟨⟨hi.quiet trivial, fun q _ => .refl _⟩, hA.own db _ _ trivial rfl ha⟩

/-! ## In the transaction -/

def AddressHeld (o : Owner) (id : Uuid) (a : Option String) (l : List AddressEvent) (p : Nat)
    (ws : List AddressWrite) (ks : List AddressKey) (db : AddressTables) (h : AddressHist) : Prop :=
  ws = [] ∧ .wallet id ∈ ks ∧ Only p l h ∧ ∃ r, db.wallets id = some r ∧ r.owner = o ∧ r.address = a

def Unsettled (p : Nat) (_ : List AddressWrite) (_ : List AddressKey) (_ : AddressTables)
    (h : AddressHist) : Prop :=
  .did p .commit (.ok ()) ∉ h

theorem framed_unsettled : (addressProtocol L H setup old).FramedTx p (Unsettled p) :=
  framed_uncommitted.inTx

theorem AddressHeld.quiet {o : Owner} {id : Uuid} {a : Option String} {l : List AddressEvent}
    {ws : List AddressWrite} {ks : List AddressKey} (hg : AddressHeld o id a l p ws ks db h)
    (hq : AddressQuiet e) : AddressHeld o id a l p ws ks db (e :: h) :=
  ⟨hg.1, hg.2.1, hg.2.2.1.quiet hq, hg.2.2.2⟩

theorem framed_addressHeld (o : Owner) (id : Uuid) (a : Option String) (l : List AddressEvent) :
    (addressProtocol L H setup old).FramedTx p (AddressHeld o id a l p) where
  stable := by
    rintro ws ks db h db' h' ⟨rfl, hk, hl, r, hr, ho, ha⟩ hrow hrel he hi
    have hrow : db'.wallets id = db.wallets id := hrow _ hk
    exact ⟨rfl, hk, (framed_only l).stable db h db' h' hl hrel he hi, r, hrow.trans hr, ho, ha⟩
  own _ _ _ _ _ hq _ hg := hg.quiet hq

theorem AddressHeld.unsettled {o : Owner} {id : Uuid} {a : Option String} {l : List AddressEvent}
    {ws : List AddressWrite} {ks : List AddressKey} (hg : AddressHeld o id a l p ws ks db h)
    (hl : .did p .commit (.ok ()) ∉ l) : .did p .commit (.ok ()) ∉ h :=
  hg.2.2.1.uncommitted hl

theorem triple_lockRow (o : Owner) (id : Uuid) :
    (addressProtocol L H setup old).toProtocol.Triple p
      (InTx p fun ws _ db h => ws = [] ∧ Only p [] h ∧ Owns o id db)
      (query (S := addressStore) (.lockWallet id) : Addressing AddressDbError _)
      (outcome (fun _ => InTx p fun ws ks db h => ∃ a, AddressHeld o id a [] p ws ks db h)
        fun _ => InTx p (Unsettled p)) := by
  refine triple_query (S := addressStore) (.lockWallet id) (fun _ => ?_) (fun _ => framed_unsettled) ?_ ?_
  · exact ⟨fun ws ks db h db' h' ⟨a, hg⟩ hrow hrel he hi =>
        ⟨a, (framed_addressHeld o id a []).stable ws ks db h db' h' hg hrow hrel he hi⟩,
      fun ws ks db h e hq hp ⟨a, hg⟩ => ⟨a, hg.quiet hq⟩⟩
  · rintro ws ks db h a ws' - ⟨rfl, hl, r, hr, ho⟩ he
    cases List.mem_singleton.1 he
    have hr' : (applyAll (S := addressStore) [] db).wallets id = some r := hr
    refine ⟨by simp, r.address, rfl, ?_, hl, r, hr, ho, rfl⟩
    simp [AddressStmt.locks, hr']
  · rintro ws ks db h e - ⟨-, hl, -⟩ -
    exact hl.uncommitted List.not_mem_nil

theorem triple_readRow (o : Owner) (id : Uuid) :
    (addressProtocol L H setup old).toProtocol.Triple p
      (InTx p fun ws ks db h => ∃ a, AddressHeld o id a [] p ws ks db h)
      (query (S := addressStore) (.addressOf id) : Addressing DepositAddressError _)
      (outcome (fun a => InTx p (AddressHeld o id a [] p)) fun _ => InTx p (Unsettled p)) := by
  refine triple_query (S := addressStore) (.addressOf id) (fun a => framed_addressHeld o id a [])
    (fun _ => framed_unsettled) ?_ ?_
  · rintro ws ks db h a ws' - ⟨b, rfl, hk, hl, r, hr, ho, rfl⟩ he
    have he := List.mem_singleton.1 he
    rw [show (applyAll (S := addressStore) [] db).wallets id = some r from hr] at he
    cases he
    exact ⟨by simp, rfl, by simpa [AddressStmt.locks] using hk, hl, r, hr, ho, rfl⟩
  · rintro ws ks db h e - ⟨b, -, -, hl, -⟩ -
    exact hl.uncommitted List.not_mem_nil

/-- The number is drawn for the row that is held. -/
theorem triple_draw (o : Owner) (id : Uuid) (coin : Coin) :
    (addressProtocol L H setup old).toProtocol.Triple p (InTx p (AddressHeld o id none [] p))
      (nextHdIndex coin)
      (outcome (fun i => InTx p fun ws ks db h => ∃ n, i = n % 2 ^ 32 ∧
          AddressHeld o id none [.did p (.pool (.nextval coin)) (.ok n)] p ws ks db h ∧ Drew h p coin n)
        fun _ => InTx p (Unsettled p)) := by
  refine .bind (Q := outcome (fun n => InTx p fun ws ks db h =>
      AddressHeld o id none [.did p (.pool (.nextval coin)) (.ok n)] p ws ks db h ∧ Drew h p coin n)
      fun _ => InTx p (Unsettled p))
    (triple_poolQueryTx (S := addressStore) (.nextval coin) (fun n => ?_)
      (fun _ => framed_unsettled.stable) ?_ ?_)
    (fun n => .ret fun c _ ⟨t, ht, hg⟩ => ⟨t, ht, n, rfl, hg⟩) fun _ _ _ h => h
  · rintro ws ks db h db' h' ⟨hg, hd⟩ hrow hrel ⟨l, rfl, hl⟩ hi
    exact ⟨(framed_addressHeld o id none _).stable ws ks db h db' _ hg hrow hrel ⟨l, rfl, hl⟩ hi,
      List.mem_append_right _ hd⟩
  · rintro ws ks db h n ws' hi ⟨rfl, hk, hl, hr⟩ he -
    have he := List.mem_singleton.1 he
    unfold evalNextval at he
    split at he
    · cases he
      refine ⟨⟨by simp [AddressWrite.touches], hi.draw hl coin, fun q _ => .refl _⟩,
        ⟨rfl, hk, hl.cons _, hr⟩, List.mem_cons_self⟩
    · cases he
  · rintro ws ks db h e hi ⟨rfl, hk, hl, hr⟩ - -
    refine ⟨⟨hi.quiet trivial, fun q _ => .refl _⟩, ?_⟩
    have hq : AddressQuiet (.did p (.pool (.nextval coin)) (.error e)) := trivial
    exact (hl.quiet hq).uncommitted List.not_mem_nil

def Derived (L : AddressLib) (H : HdLib) (setup : Coin → ClientSetup) (h : AddressHist) (p : Nat)
    (coin : Coin) (g : GeneratedAddress) (n : ℕ) : Prop :=
  Drew h p coin n ∧ g.hdIndex = some (n % 2 ^ 32) ∧
    clientAddress L H setup coin (n % 2 ^ 32) = .ok g.address

theorem Derived.mono {coin : Coin} {g : GeneratedAddress} {n : ℕ} (l : AddressHist)
    (hd : Derived L H setup h p coin g n) : Derived L H setup (l ++ h) p coin g n :=
  ⟨List.mem_append_right _ hd.1, hd.2⟩

def Minted (L : AddressLib) (H : HdLib) (setup : Coin → ClientSetup) (o : Owner) (id : Uuid)
    (coin : Coin) (g : GeneratedAddress) (p : Nat)
    (ws : List AddressWrite) (ks : List AddressKey) (db : AddressTables) (h : AddressHist) : Prop :=
  ∃ n, AddressHeld o id none [.did p (.pool (.nextval coin)) (.ok n)] p ws ks db h ∧
    Derived L H setup h p coin g n

theorem triple_generateNext (o : Owner) (id : Uuid) (coin : Coin) :
    (addressProtocol L H setup old).toProtocol.Triple p (InTx p (AddressHeld o id none [] p))
      (generateNext L H setup coin)
      (outcome (fun g => InTx p (Minted L H setup o id coin g p)) fun _ => InTx p (Unsettled p)) := by
  refine .bind (triple_draw o id coin) (fun i => ?_) fun _ _ _ h => h
  cases hc : clientAddress L H setup coin i with
  | error m =>
    refine .throw ?_
    rintro c - ⟨t, ht, n, -, hg, -⟩
    exact ⟨t, ht, hg.unsettled (by simp)⟩
  | ok a =>
    refine .ret ?_
    rintro c - ⟨t, ht, n, rfl, hg, hd⟩
    exact ⟨t, ht, n, hg, hd, rfl, hc⟩

def AddressReady (L : AddressLib) (H : HdLib) (setup : Coin → ClientSetup) (o : Owner) (id : Uuid)
    (coin : Coin) (g : GeneratedAddress) (p : Nat)
    (ws : List AddressWrite) (ks : List AddressKey) (db : AddressTables) (h : AddressHist) : Prop :=
  ∃ n, ws = [.setAddress id none g.address (some ((n % 2 ^ 32 : ℕ) : ℤ))] ∧
    AddressHeld o id none [.did p (.pool (.nextval coin)) (.ok n)] p [] ks db h ∧
    Derived L H setup h p coin g n ∧ .address g.address ∈ ks ∧ db.byAddress g.address = none

theorem framed_ready (o : Owner) (id : Uuid) (coin : Coin) (g : GeneratedAddress) :
    (addressProtocol L H setup old).FramedTx p (AddressReady L H setup o id coin g p) where
  stable := by
    rintro ws ks db h db' h' ⟨n, hw, hg, hd, hk, ha⟩ hrow hrel he hi
    refine ⟨n, hw, (framed_addressHeld _ _ _ _).stable [] ks db h db' h' hg hrow hrel he hi, ?_, hk,
      (hrow _ hk).trans ha⟩
    obtain ⟨l, rfl, -⟩ := he
    exact hd.mono l
  own := by
    rintro ws ks db h e hq hp ⟨n, hw, hg, hd, hk, ha⟩
    exact ⟨n, hw, hg.quiet hq, hd.mono [e], hk, ha⟩

/-- What the update writes, on a row that has no address. -/
theorem evalSetAddress_ok {id : Uuid} {r : AddressedWallet} {b : String} {i : Option ℤ} {a : Unit}
    {ws : List AddressWrite} (hd : db.Indexed) (hr : db.wallets id = some r)
    (hnone : r.address = none) (he : .ok (a, ws) = evalSetAddress id b i db) :
    ws = [.setAddress id none b i] ∧ db.byAddress b = none := by
  rw [evalSetAddress, hr] at he
  dsimp only at he
  split at he
  · cases he
  · rename_i hfree
    cases he
    refine ⟨by rw [hnone], ?_⟩
    cases hb : db.byAddress b with
    | none => rfl
    | some id' =>
      rw [hb] at hfree
      obtain rfl : id' = id := by simpa using hfree
      obtain ⟨r', hr', hb'⟩ := (hd.address b id').1 hb
      obtain rfl := Option.some.inj (hr.symm.trans hr')
      rw [hnone] at hb'
      cases hb'

theorem triple_setAddress (o : Owner) (id : Uuid) (coin : Coin) (g : GeneratedAddress) :
    (addressProtocol L H setup old).toProtocol.Triple p (InTx p (Minted L H setup o id coin g p))
      (query (S := addressStore) (.setAddress id g.address (g.hdIndex.map Int.ofNat)) :
        Addressing DepositAddressError _)
      (outcome (fun _ => InTx p (AddressReady L H setup o id coin g p)) fun _ => InTx p (Unsettled p)) := by
  refine triple_query (S := addressStore) _ (fun _ => framed_ready o id coin g)
    (fun _ => framed_unsettled) ?_ ?_
  · rintro ws ks db h a ws' hi ⟨n, ⟨rfl, hk, hl, r, hr, ho, hnone⟩, hd⟩ he
    have hr' : (applyAll (S := addressStore) [] db).wallets id = some r := hr
    obtain ⟨rfl, hfree⟩ := evalSetAddress_ok hi.indexed hr hnone (List.mem_singleton.1 he)
    have hlocks : addressStore.locks (.setAddress id g.address (g.hdIndex.map Int.ofNat))
        (applyAll (S := addressStore) [] db) = [.wallet id, .address g.address] := by
      simp [AddressStmt.locks, hr', hnone]
    rw [hlocks]
    refine ⟨?_, n, ?_, ⟨rfl, List.mem_append_left _ hk, hl, r, hr, ho, hnone⟩, hd, by simp, hfree⟩
    · simp [AddressWrite.touches]
    · rw [hd.2.1]
      rfl
  · rintro ws ks db h e - ⟨n, hg, -⟩ -
    exact hg.unsettled (by simp)

/-- The commit of a row that has its address now. -/
theorem triple_commitReady (o : Owner) (id : Uuid) (coin : Coin) (g : GeneratedAddress)
    (user : Uuid) (ho : o = (user, coin, .personal)) :
    (addressProtocol L H setup old).toProtocol.Triple p (InTx p (AddressReady L H setup o id coin g p))
      (commit : Addressing DepositAddressError Unit)
      (outcome (fun _ => Idle p fun db h => GivenTo L H setup h p db user coin g.address)
        fun _ => Over fun _ h => .did p .commit (.ok ()) ∉ h) := by
  refine triple_commit (framed_given user coin g.address).stable (fun _ => framed_uncommitted) ?_ ?_
  · rintro _ ks db h hi ⟨n, rfl, ⟨-, -, hl, r, hr, hr', hnone⟩, ⟨hd, -, hc⟩, -, hfree⟩ -
    subst ho
    obtain ⟨-, rfl, hkind⟩ : r.userId = user ∧ r.coin = coin ∧ r.kind = .personal := by
      simpa [AddressedWallet.owner] using hr'
    have issued : IssuedBy L H setup (.did p .commit (.ok ()) :: h) p n
        (r.setAddress g.address (some ((n % 2 ^ 32 : ℕ) : ℤ))) :=
      ⟨hkind, List.mem_cons_of_mem _ hd, List.mem_cons_self, rfl, g.address, rfl, hc⟩
    have hv := (AddressInv.commit hi hl (by simp)).assign hr hnone hfree issued
    refine ⟨⟨hv.1, fun q _ => hv.2⟩, id, r.setAddress g.address (some ((n % 2 ^ 32 : ℕ) : ℤ)), ?_, hr',
      rfl, fun c m hm => ?_⟩
    · show Function.update db.wallets id _ id = _
      rw [Function.update_self, hr, Option.map_some]
    · -- it has drawn this number only
      rcases List.mem_cons.1 hm with hm | hm
      · cases hm
      · rcases hl _ hm rfl with hq | hq
        · exact hq.elim
        · cases List.mem_singleton.1 hq
          exact issued
  · rintro ws ks db h - ⟨n, -, hg, -⟩
    exact hg.unsettled (by simp)

theorem triple_commitHeld (id : Uuid) (coin : Coin) (a : String) (user : Uuid) :
    (addressProtocol L H setup old).toProtocol.Triple p
      (InTx p (AddressHeld (user, coin, .personal) id (some a) [] p))
      (commit : Addressing DepositAddressError Unit)
      (outcome (fun _ => Idle p fun db h => GivenTo L H setup h p db user coin a)
        fun _ => Over fun _ h => .did p .commit (.ok ()) ∉ h) := by
  refine triple_commit (framed_given user coin a).stable (fun _ => framed_uncommitted) ?_ ?_
  · rintro _ ks db h hi ⟨rfl, -, hl, r, hr, ho, ha⟩ -
    refine ⟨⟨AddressInv.commit hi hl (by simp), fun q _ => .refl _⟩, id, r, hr, ho, ha,
      fun c n hn => ?_⟩
    rcases List.mem_cons.1 hn with hn | hn
    · cases hn
    · exact absurd hn (hl.not_mem (fun h => h) rfl List.not_mem_nil)
  · rintro ws ks db h - hg
    exact hg.unsettled List.not_mem_nil

/-! ## A request -/

def Served (L : AddressLib) (H : HdLib) (setup : Coin → ClientSetup) (p : Nat) (user : Uuid)
    (coin : Coin) : Except DepositAddressError String → AddressTables → AddressHist → Prop
  | .ok a, db, h => GivenTo L H setup h p db user coin a
  | .error _, _, h => .did p .commit (.ok ()) ∉ h

theorem framed_served (user : Uuid) (coin : Coin) (r : Except DepositAddressError String) :
    (addressProtocol L H setup old).Framed p (Served L H setup p user coin r) := by
  cases r with
  | ok a => exact framed_given user coin a
  | error e => exact framed_uncommitted

theorem triple_assignAddress (user : Uuid) (coin : Coin) (id : Uuid) :
    (addressProtocol L H setup old).toProtocol.Triple p
      (InTx p fun ws _ db h => ws = [] ∧ Only p [] h ∧ Owns (user, coin, .personal) id db)
      (assignAddress L H setup coin id) (fun r => Over (Served L H setup p user coin r)) := by
  have failed (e : DepositAddressError) (c : Conf (machine addressStore))
      (_ : (addressProtocol L H setup old).toProtocol.Inv c) (hc : InTx p (Unsettled p) c) : Over (Served L H setup p user coin (.error e)) c := by
    obtain ⟨t, -, h⟩ := hc
    exact h
  refine .bind (triple_mapErr (g := DepositAddressError.ledger) (triple_lockRow _ id)
    fun _ _ h => h) (fun _ => ?_) failed
  refine .bind (triple_readRow _ id) (fun fresh => ?_) failed
  cases fresh with
  | some a =>
    exact .bind (triple_commitHeld id coin a user) (fun _ => .ret fun c _ h => h.2) fun _ _ _ h => h
  | none =>
    refine .bind (triple_mapErr (g := DepositAddressError.chain) (triple_generateNext _ id coin)
      fun _ _ h => h) (fun g => ?_) failed
    refine .bind (triple_setAddress _ id coin g) (fun _ => ?_) failed
    exact .bind (triple_commitReady _ id coin g user rfl) (fun _ => .ret fun c _ h => h.2)
      fun _ _ _ h => h

theorem triple_getOrCreateAddress (personalId developerId user : Uuid) (coin : Coin) :
    (addressProtocol L H setup old).toProtocol.Triple p (Idle p fun _ h => Only p [] h)
      (getOrCreateAddress L H setup personalId developerId user coin)
      (fun r => Idle p (Served L H setup p user coin r)) := by
  have hA : (addressProtocol L H setup old).Framed p fun _ h => Only p [] h := framed_only []
  have hO (id : Uuid) : (addressProtocol L H setup old).Framed p
      fun db _ => Owns (user, coin, .personal) id db := framed_owns _ id
  have failed (e : DepositAddressError) (c : Conf (machine addressStore))
      (_ : (addressProtocol L H setup old).toProtocol.Inv c) (hc : Idle p (fun _ h => Only p [] h) c) : Idle p (Served L H setup p user coin (.error e)) c :=
    ⟨hc.1, hc.2.uncommitted List.not_mem_nil⟩
  refine .bind (triple_makeWallet personalId _) (fun _ => ?_) failed
  refine .bind (triple_makeWallet developerId _) (fun _ => ?_) failed
  refine .bind (triple_readPool (.walletOf (user, coin, .personal))
    (B := fun id db h => Only p [] h ∧ ∀ i, id = some i → Owns (user, coin, .personal) i db)
    (fun _ => trivial) hA (fun id => ?_) ?_) (fun walletId => ?_) failed
  · refine ⟨fun db h db' h' ⟨hl, ho⟩ hr he hi => ⟨hA.stable db h db' h' hl hr he hi, fun i hid =>
      (ho i hid).mono hr⟩, fun db h e hq hp ⟨hl, ho⟩ => ⟨hA.own db h e hq hp hl, ho⟩⟩
  · intro db h id ws hi hl he
    cases List.mem_singleton.1 he
    exact ⟨rfl, hl, fun i hid => (hi.indexed.owner _ _).1 hid⟩
  cases walletId with
  | none => exact .throw fun c _ hc => ⟨hc.1, hc.2.1.uncommitted List.not_mem_nil⟩
  | some id =>
    refine .conseq (A := Idle p fun db h => Only p [] h ∧ Owns (user, coin, .personal) id db) ?_
      (fun c _ hc => ⟨hc.1, hc.2.1, hc.2.2 id rfl⟩) fun _ _ _ h => h
    refine .bind (triple_readPool (.addressOf id)
      (B := fun a db h => (Only p [] h ∧ Owns (user, coin, .personal) id db) ∧
        ∀ b, a = some b → GivenTo L H setup h p db user coin b)
      (fun _ => trivial) (hA.and (hO id)) (fun a => ?_) ?_) (fun existing => ?_)
      fun e c hi hc => failed e c hi ⟨hc.1, hc.2.1⟩
    · refine (hA.and (hO id)).and ⟨fun db h db' h' hg hr he hi b hb =>
        (framed_given user coin b).stable db h db' h' (hg b hb) hr he hi, fun db h e hq _ hg b hb => (hg b hb).quiet hq⟩
    · rintro db h a ws hi ⟨hl, r, hr, ho⟩ he
      have he := List.mem_singleton.1 he
      rw [hr] at he
      cases he
      exact ⟨rfl, ⟨hl, r, hr, ho⟩, fun b hb => ⟨id, r, hr, ho, hb, fun c n hn =>
        absurd hn (hl.not_mem (fun h => h) rfl List.not_mem_nil)⟩⟩
    cases existing with
    | some a => exact .ret fun c _ hc => ⟨hc.1, hc.2.2 a rfl⟩
    | none =>
      refine .conseq (triple_transaction (Q := Served L H setup p user coin) (hA.and (hO id))
        (framed_served user coin) (fun e db h ha => ha.1.uncommitted List.not_mem_nil)
        (triple_assignAddress user coin id)) (fun c _ hc => ⟨hc.1, hc.2.1⟩) fun _ _ _ h => h

def Routed (L : AddressLib) (H : HdLib) (setup : Coin → ClientSetup) (p : Nat) (user : Uuid)
    (coinStr : String) : Except AddressFailure String → AddressTables → AddressHist → Prop
  | .ok a, db, h => ∃ coin, Coin.fromStr coinStr = some coin ∧
      isDepositWithdrawPaused coin = false ∧ GivenTo L H setup h p db user coin a
  | .error _, _, h => .did p .commit (.ok ()) ∉ h

theorem triple_addressRoute (personalId developerId user : Uuid) (coinStr : String) :
    (addressProtocol L H setup old).toProtocol.Triple p (Idle p fun _ h => Only p [] h)
      (addressRoute L H setup personalId developerId user coinStr)
      (fun r => Idle p (Routed L H setup p user coinStr r)) := by
  unfold addressRoute
  cases hc : Coin.fromStr coinStr with
  | none => exact .throw fun c _ h => ⟨h.1, h.2.uncommitted List.not_mem_nil⟩
  | some coin =>
    dsimp only
    split
    · exact .throw fun c _ h => ⟨h.1, h.2.uncommitted List.not_mem_nil⟩
    · rename_i hp
      refine .mapErr (.conseq (triple_getOrCreateAddress personalId developerId user coin)
        (fun _ _ h => h) fun r c _ h => ?_)
      cases r with
      | ok a => exact ⟨h.1, coin, hc, by simpa using hp, h.2⟩
      | error e => exact h

theorem triple_serveAddress (personalId developerId user : Uuid) (coinStr : String) :
    (addressProtocol L H setup old).toProtocol.Triple p (Idle p fun _ h => Only p [] h)
      (serveAddress L H setup personalId developerId user coinStr) (fun _ => Over fun _ _ => True) := by
  refine .bind (Q := outcome (fun r => Idle p (Routed L H setup p user coinStr r)) fun _ _ => False)
    (.attempt (triple_addressRoute personalId developerId user coinStr)) (fun r => ?_)
    fun _ _ _ h => h.elim
  refine .conseq (triple_invoke (S := addressStore) (.answer user coinStr r)
    (A := Routed L H setup p user coinStr r) (fun _ => stable_true) ?_) (fun _ _ h => h)
    fun _ _ _ _ => trivial
  intro db h _ hi ha _
  refine ⟨⟨AddressInv.call hi ?_ ?_ (by simp), fun q _ => .refl _⟩, trivial⟩
  · rintro user' s b ⟨⟩
    exact ha
  · rintro user' s e ⟨⟩
    exact ha

def Invoiced (p : Nat) (coin : Coin) (g : Option ℕ) (_ : AddressTables) (h : AddressHist) : Prop :=
  .did p .commit (.ok ()) ∉ h ∧ ∃ n, Drew h p coin n ∧ g = some (n % 2 ^ 32)

def InvoiceDrawn (p : Nat) (coin : Coin) : Except GenerateError GeneratedAddress →
    AddressTables → AddressHist → Prop
  | .ok g, db, h => Invoiced p coin g.hdIndex db h
  | .error _, _, _ => True

theorem stable_invoiced (coin : Coin) (g : Option ℕ) :
    (addressProtocol L H setup old).Stable p (Invoiced p coin g) := by
  rintro db h db' _ ⟨hn, n, hd, hg⟩ hr ⟨l, rfl, hl⟩ hi
  exact ⟨framed_uncommitted.stable db h db' (l ++ h) hn hr ⟨l, rfl, hl⟩ hi, n,
    List.mem_append_right _ hd, hg⟩

theorem triple_drawForInvoice (coin : Coin) :
    (addressProtocol L H setup old).toProtocol.Triple p (Idle p fun _ h => Only p [] h)
      (nextHdIndex coin) (outcome (fun i => Idle p (Invoiced p coin (some i)))
        fun _ => Idle p fun _ _ => True) := by
  have drawn : (addressProtocol L H setup old).toProtocol.Triple p (Idle p fun _ h => Only p [] h)
      (poolQuery (S := addressStore) (.nextval coin) : Addressing GenerateError ℕ)
      (outcome (fun n => Idle p (Invoiced p coin (some (n % 2 ^ 32))))
        fun _ => Idle p fun _ _ => True) := by
    refine triple_poolQuery (S := addressStore) (.nextval coin) (fun n => stable_invoiced coin _)
      (fun _ => stable_true) ?_ ?_
    · intro db h n ws hi hl he _
      have he := List.mem_singleton.1 he
      unfold evalNextval at he
      split at he
      · cases he
        refine ⟨⟨by simp [AddressWrite.touches], AddressInv.draw hi hl coin, fun q _ => .refl _⟩,
          ?_, _, List.mem_cons_self, rfl⟩
        simpa using hl.uncommitted List.not_mem_nil
      · cases he
    · intro db h e hi _ _ _
      exact ⟨⟨AddressInv.quiet trivial hi, fun q _ => .refl _⟩, trivial⟩
  exact .bind drawn (fun n => .ret fun _ _ h => h) fun _ _ _ h => h

theorem triple_generateForInvoice (coin : Coin) :
    (addressProtocol L H setup old).toProtocol.Triple p (Idle p fun _ h => Only p [] h)
      (generateNext L H setup coin) (fun r => Idle p (InvoiceDrawn p coin r)) := by
  refine .bind (triple_drawForInvoice coin) (fun i => ?_) fun _ _ _ h => h
  cases clientAddress L H setup coin i with
  | error m => exact .throw fun c _ h => ⟨h.1, trivial⟩
  | ok a => exact .ret fun c _ h => h

theorem triple_serveInvoiceAddress (coin : Coin) :
    (addressProtocol L H setup old).toProtocol.Triple p (Idle p fun _ h => Only p [] h)
      (serveInvoiceAddress L H setup coin) (fun _ => Over fun _ _ => True) := by
  refine .bind (Q := outcome (fun r => Idle p (InvoiceDrawn p coin r)) fun _ _ => False)
    (.attempt (triple_generateForInvoice coin)) (fun r => ?_) fun _ _ _ h => h.elim
  refine .conseq (triple_invoke (S := addressStore) (.invoice coin r) (A := InvoiceDrawn p coin r)
    (fun _ => stable_true) ?_) (fun _ _ h => h) fun _ _ _ _ => trivial
  intro db h _ hi ha _
  refine ⟨⟨AddressInv.call hi (by simp) (by simp) ?_, fun q _ => .refl _⟩, trivial⟩
  rintro c g ⟨⟩
  exact ha

/-! ## The runs -/

section
variable {w w' : World (machine addressStore)}

theorem serves_addresses (old : AddressTables) (c : Addressing Empty Unit)
    (hc : AddressProcess L H setup c) (p : Nat) :
    (addressProtocol L H setup old).toProtocol.Triple p (Idle p (Unborn p)) c
      fun _ => Over ((addressProtocol L H setup old).done p) := by
  have idle : ∀ c : Conf (machine addressStore), (addressProtocol L H setup old).toProtocol.Inv c →
      Idle p (Unborn p) c → Idle p (fun _ h => Only p [] h) c := fun _ _ h => ⟨h.1, only_of_unborn h.2⟩
  cases hc with
  | serve personalId developerId user coinStr =>
    exact .conseq (triple_serveAddress personalId developerId user coinStr) idle
      fun _ _ _ _ => trivial
  | invoice coin => exact .conseq (triple_serveInvoiceAddress coin) idle fun _ _ _ _ => trivial

theorem addressInv_start (hd : db.Sound) : AddressInv L H setup db db [] where
  indexed := hd.indexed
  advanced _ := le_rfl
  ordered _ := .nil
  bounded _ _ _ h := absurd h List.not_mem_nil
  issued _ _ hr _ := .inl hr
  bare _ _ hr _ := .inl hr
  answered _ _ _ _ h := absurd h List.not_mem_nil
  failed _ _ _ _ h := absurd h List.not_mem_nil
  invoiced _ _ _ h := absurd h List.not_mem_nil

theorem addressInv_of_run (hd : db.Sound) (hw : AddressRun L H setup db w) :
    AddressInv L H setup db w.conf.s.db w.conf.hist :=
  RowProtocol.inv_of_steps (R := addressProtocol L H setup db) (serves_addresses db)
    (addressInv_start hd) hw

theorem addressRel_of_steps (hd : db.Sound) (hw : AddressRun L H setup db w)
    (hs : AddressSteps L H setup w w') : AddressRel w.conf.s.db w'.conf.s.db :=
  RowProtocol.rel_of_steps (R := addressProtocol L H setup db) (serves_addresses db)
    (addressInv_start hd) (T := fun db _ db' _ => AddressRel db db')
    (fun _ _ _ _ _ h => h) (fun db _ => .refl db) (fun _ _ _ _ _ _ => .trans) hw hs

theorem AddressInv.drew_unique (hv : AddressInv L H setup old db h) {p q : Nat} {coin : Coin}
    {n : ℕ} (hp : Drew h p coin n) (hq : Drew h q coin n) : p = q := by
  have hnodup : ((draws coin h).map Prod.snd).Nodup :=
    List.pairwise_map.2 ((hv.ordered coin).imp fun hlt => Nat.ne_of_gt hlt)
  have := List.inj_on_of_nodup_map hnodup (mem_draws.2 hp) (mem_draws.2 hq) rfl
  exact congrArg Prod.fst this

theorem AddressInv.owner_unique (hv : AddressInv L H setup old db h) {id id' : Uuid}
    {r r' : AddressedWallet} (hr : db.wallets id = some r) (hr' : db.wallets id' = some r')
    (ho : r.owner = r'.owner) : id = id' := by
  have h₁ := (hv.indexed.owner r'.owner id).2 ⟨r, hr, ho⟩
  have h₂ := (hv.indexed.owner r'.owner id').2 ⟨r', hr', rfl⟩
  exact Option.some.inj (h₁.symm.trans h₂)

theorem AddressInv.address_unique (hv : AddressInv L H setup old db h) {id id' : Uuid}
    {r r' : AddressedWallet} {a : String} (hr : db.wallets id = some r)
    (hr' : db.wallets id' = some r') (ha : r.address = some a) (ha' : r'.address = some a) :
    id = id' := by
  have h₁ := (hv.indexed.address a id).2 ⟨r, hr, ha⟩
  have h₂ := (hv.indexed.address a id').2 ⟨r', hr', ha'⟩
  exact Option.some.inj (h₁.symm.trans h₂)

/-- A number is that of the store at the start or has been drawn. -/
theorem AddressInv.number (hv : AddressInv L H setup old db h) {id : Uuid} {r : AddressedWallet}
    {i : ℤ} (hr : db.wallets id = some r) (hi : r.hdIndex = some i) :
    old.wallets id = some r ∨ ∃ p n, IssuedBy L H setup h p n r := by
  cases ha : r.address with
  | some a => exact hv.issued id r hr (by simp [ha])
  | none =>
    refine (hv.bare id r hr ha).imp_right fun hn => ?_
    rw [hn] at hi
    cases hi

/-- A number that is drawn in the run is past those that the store had. -/
theorem AddressInv.new_number (hv : AddressInv L H setup old db h) (hs : old.Sound) {coin : Coin}
    (hlt : db.drawn coin < 2 ^ 32) {p : Nat} {n : ℕ} (hd : Drew h p coin n) {id : Uuid}
    {r : AddressedWallet} (hr : old.wallets id = some r) (hc : r.coin = coin) :
    r.hdIndex ≠ some ((n % 2 ^ 32 : ℕ) : ℤ) := by
  intro hi
  obtain ⟨h₁, h₂⟩ := hv.bounded p coin n hd
  have hle := hs.numbered id r _ hr hi
  rw [Nat.mod_eq_of_lt (by omega), hc] at hle
  omega

theorem AddressInv.mod_inj (hv : AddressInv L H setup old db h) {coin : Coin}
    (hlt : db.drawn coin < 2 ^ 32) {p q : Nat} {n m : ℕ} (hn : Drew h p coin n)
    (hm : Drew h q coin m) (he : n % 2 ^ 32 = m % 2 ^ 32) : n = m := by
  have h₁ := (hv.bounded p coin n hn).2
  have h₂ := (hv.bounded q coin m hm).2
  rwa [Nat.mod_eq_of_lt (by omega), Nat.mod_eq_of_lt (by omega)] at he

theorem AddressInv.numbered (hv : AddressInv L H setup old db h) (hs : old.Sound) {id id' : Uuid}
    {r r' : AddressedWallet} {i : ℤ} (hlt : db.drawn r.coin < 2 ^ 32) (hr : db.wallets id = some r)
    (hr' : db.wallets id' = some r') (hc : r.coin = r'.coin) (hi : r.hdIndex = some i)
    (hi' : r'.hdIndex = some i) : id = id' := by
  rcases hv.number hr hi with ho | ⟨p, n, hp⟩ <;> rcases hv.number hr' hi' with ho' | ⟨q, m, hq⟩
  · exact hs.distinct id id' r r' i ho ho' hc hi hi'
  · exact absurd (hi.trans (hi'.symm.trans hq.index)) (hv.new_number hs hlt (hc ▸ hq.drew) ho rfl)
  · exact absurd (hi'.trans (hi.symm.trans hp.index)) (hv.new_number hs hlt hp.drew ho' hc.symm)
  · -- the same number gives the same address
    obtain ⟨a, ha, hca⟩ := hp.address
    obtain ⟨b, hb, hcb⟩ := hq.address
    have hmod : n % 2 ^ 32 = m % 2 ^ 32 := by
      have := Option.some.inj (hp.index.symm.trans (hi.trans (hi'.symm.trans hq.index)))
      exact Int.ofNat.inj this
    rw [hmod, hc, hcb] at hca
    obtain rfl := Except.ok.inj hca
    exact hv.address_unique hr hr' ha hb

theorem AddressInv.apart (hv : AddressInv L H setup old db h) (hs : old.Sound) {p : Nat}
    {coin : Coin} {g : GeneratedAddress} {i : ℕ} (hlt : db.drawn coin < 2 ^ 32)
    (hm : .did p (.call (.invoice coin (.ok g))) () ∈ h) (hi : g.hdIndex = some i) :
    (∀ id r, db.wallets id = some r → r.coin = coin → r.hdIndex ≠ some (i : ℤ)) ∧
    ∀ q g', q ≠ p → .did q (.call (.invoice coin (.ok g'))) () ∈ h → g'.hdIndex ≠ some i := by
  obtain ⟨hn, n, hd, hg⟩ := hv.invoiced p coin g hm
  obtain rfl : i = n % 2 ^ 32 := Option.some.inj (hi.symm.trans hg)
  refine ⟨fun id r hr hc he => ?_, fun q g' hne hm' he => ?_⟩
  · rcases hv.number hr he with ho | ⟨q, m, hq⟩
    · exact hv.new_number hs hlt hd ho hc he
    · subst hc
      have hmod : n % 2 ^ 32 = m % 2 ^ 32 :=
        Int.ofNat.inj (Option.some.inj (he.symm.trans hq.index))
      obtain rfl := hv.mod_inj hlt hd hq.drew hmod
      obtain rfl := hv.drew_unique hd hq.drew
      exact hn hq.committed
  · obtain ⟨-, m, hd', hg'⟩ := hv.invoiced q coin g' hm'
    have hmod : n % 2 ^ 32 = m % 2 ^ 32 := Option.some.inj (he.symm.trans hg')
    obtain rfl := hv.mod_inj hlt hd hd' hmod
    exact hne (hv.drew_unique hd' hd)

end

/-- However requests interleave, each wallet gets one address, which it keeps and no other has,
and whoever asks is answered that of their own wallet. No number is drawn twice, and below the bound
of a `u32` no two wallets or invoices of a coin have the same one. -/
theorem addressLaw_of_sound (hL : L.Documented) (hs : db.Sound) : AddressLaw L H setup db where
  unique w id id' r r' a hw := (addressInv_of_run hs hw).address_unique
  kept w w' id r hw hs' hr := addressRel_of_steps hs hw hs' id r hr
  issued w id r hw hr ha := by
    refine ((addressInv_of_run hs hw).issued id r hr ha).imp_right ?_
    rintro ⟨p, n, hi⟩
    obtain ⟨a, ha, hc⟩ := hi.address
    exact ⟨⟨p, n, hi⟩, a, ha, validate_generated hL hc⟩
  answered w p user s a hw h := (addressInv_of_run hs hw).answered p user s a h
  same w p p' user s s' a a' hw h h' he := by
    have hv := addressInv_of_run hs hw
    obtain ⟨coin, hc, -, id, r, hr, ho, ha, -⟩ := hv.answered p user s a h
    obtain ⟨coin', hc', -, id', r', hr', ho', ha', -⟩ := hv.answered p' user s' a' h'
    obtain rfl : coin = coin' := Option.some.inj (hc.symm.trans (he.trans hc'))
    obtain rfl := hv.owner_unique hr hr' (ho.trans ho'.symm)
    obtain rfl := Option.some.inj (hr.symm.trans hr')
    exact Option.some.inj (ha.symm.trans ha')
  failed w p user s e n id r hw h hr hi := (addressInv_of_run hs hw).failed p user s e h hi.committed
  drawn w coin hw := (addressInv_of_run hs hw).ordered coin
  numbered w id id' r r' i hw := (addressInv_of_run hs hw).numbered hs
  apart w p coin g i hw := (addressInv_of_run hs hw).apart hs

end

def plainSetup (_ : Coin) : ClientSetup := ⟨mnemonicOnly, .mainnet⟩

def noWallets : AddressTables := ⟨fun _ => none, fun _ => none, fun _ => none, fun _ => 0⟩

def addressRunner : Runner addressStore where
  bound := 3
  progs := [serveAddress plainAddresses plainKeys plainSetup 11 12 1 "sol",
    serveAddress plainAddresses plainKeys plainSetup 13 14 1 "SOL",
    serveInvoiceAddress plainAddresses plainKeys plainSetup .sol]
  tick _ db := db
  allow _ _ := true

/-- A user asks twice, and both requests find no address. The second waits for the row, and an
invoice takes a number in between. -/
def addressScript : List (Act addressStore) :=
  let reply p : Act addressStore := .op p (.answer fun _ => ())
  .start 0 0 :: proceed 0 4 ++ .start 1 1 :: proceed 1 5 ++ proceed 0 3 ++ .start 2 2 ::
    proceed 2 1 ++ [reply 2, .finish 2] ++ proceed 0 4 ++ [reply 0, .finish 0] ++ proceed 1 4 ++
    [reply 1, .finish 1]

theorem addressLaw_twice : AddressLaw plainAddresses plainKeys plainSetup noWallets ∧
    ∃ w, AddressRun plainAddresses plainKeys plainSetup noWallets w ∧
      w.conf.s.db.wallets 11 = some ⟨1, .sol, .personal,
        some "11111111111111111111111111111113", some 2⟩ ∧ w.conf.s.db.drawn .sol = 2 := by
  refine ⟨addressLaw_of_sound documented_plainAddresses ⟨⟨by simp [noWallets], by simp [noWallets]⟩,
    by simp [noWallets], by simp [noWallets]⟩, ?_⟩
  have hrun : (addressRunner.run addressScript (.init _ (.start noWallets))).map
      (fun w => (w.conf.s.db.wallets 11, w.conf.s.db.drawn .sol)) = some (some ⟨1, .sol, .personal,
        some "11111111111111111111111111111113", some 2⟩, 2) := by
    decide +kernel
  obtain ⟨w, hw, hl⟩ := Option.map_eq_some_iff.1 hrun
  obtain ⟨h₁, h₂⟩ := Prod.mk.inj hl
  refine ⟨w, Runner.steps_of_run (R := addressRunner) ?_ (fun _ _ => ⟨rfl, rfl, rfl, fun _ => le_rfl⟩)
    (fun _ _ _ => trivial) (fun _ _ => rfl) hw, h₁, h₂⟩
  simp only [addressRunner, List.forall_mem_cons]
  exact ⟨.serve .., .serve .., .invoice _, by simp⟩

end SatsPay
