import SatsPay.Focus
import SatsPay.TransferRuns

/-!
# Transactions that make wallets

Where transactions make wallets, a wallet that one has found keeps its owner, and what it has
made is its own until the commit. The rules below follow what its writes do to what is seen of
the store, with the owners of the wallets that it has found.
-/

namespace SatsPay

open Interleave ReadCommitted RowProtocol

/-! ## Owners in a view -/

section
variable {X : Ext} {db db' : Db X}

theorem OwnersKept.refl (db : Db X) : OwnersKept db db := fun _ _ h => h

theorem OwnersKept.trans {db'' : Db X} (h : OwnersKept db db') (h' : OwnersKept db' db'') :
    OwnersKept db db'' := fun id o ho => h' id o (h id o ho)

theorem OwnersKept.apply (h : OwnersKept db db') (w : Write X) :
    OwnersKept (w.apply db) (w.apply db') := by
  intro id o ho
  by_cases hw : ∃ v, w = .core (.putWallet id v)
  · obtain ⟨v, rfl⟩ := hw
    rw [walletOwner_putWallet] at ho ⊢
    exact ho
  · rw [walletOwner_apply (not_exists.1 hw)] at ho ⊢
    exact h id o ho

theorem OwnersKept.viewOf (h : OwnersKept db db') (ws : List (Write X)) :
    OwnersKept (viewOf ws db) (viewOf ws db') := by
  induction ws generalizing db db' with
  | nil => exact h
  | cons w ws ih => exact ih (h.apply w)

theorem walletOwner_of_row {id : Uuid}
    (h : Key.row (.core id) db' = Key.row (.core id) db) : walletOwner db' id = walletOwner db id :=
  congrArg (fun r : Option Wallet × List LedgerEntry => r.1.map Wallet.owner) h

theorem isSome_of_walletOwner {id : Uuid} {o : Owner} (h : walletOwner db id = some o) :
    (db.core.wallets.lookup id).isSome := by
  obtain ⟨w, hw, -⟩ := Option.map_eq_some_iff.1 h
  exact Option.isSome_of_eq_some hw

/-- But for a ledger entry, a statement locks the rows it writes. -/
def WalletStmt.Other (st : WalletStmt X) : Prop :=
  ∀ input, st ≠ .base (.core (.insertLedgerEntry input))

theorem WalletStmt.Other.covered {st : WalletStmt X} (hst : st.Other) {a : st.Ans}
    {ws : List (Write X)} (h : .ok (a, ws) ∈ st.eval db) :
    ∀ w ∈ ws, ∀ k ∈ (walletStore X).touches w, k ∈ st.locks db := by
  intro w hw k hk
  obtain ⟨k', hk', rfl⟩ := List.mem_map.1 hk
  cases st with
  | base st =>
    have other : ∀ input, st ≠ .core (.insertLedgerEntry input) := by
      rintro input rfl
      exact hst input rfl
    exact List.mem_map_of_mem (covered_of_other other h w hw k' hk')
  | insertWallet id userId coin kind =>
    simp only [eval, locks] at h ⊢
    split at h
    · cases List.mem_singleton.1 h
      cases hw
    · rename_i hnew
      rw [if_neg hnew]
      split at h
      · cases List.mem_singleton.1 h
      · rcases List.mem_cons.1 h with h | h
        · cases h
          cases List.mem_singleton.1 hw
          cases List.mem_singleton.1 hk'
          simp
        · cases List.mem_singleton.1 h

/-- What a statement writes leaves the owners that it finds. -/
theorem fits_of_eval {st : WalletStmt X} {a : st.Ans} {ws : List (Write X)}
    (h : .ok (a, ws) ∈ st.eval db) : Fits db ws :=
  fun _ _ hw => (puts_of_eval h hw).2.imp_right And.left

end

/-! ## What a transaction has found and done -/

section
variable {X : Ext} {cond : Db X → Hist (sig (walletStore X)) → Event (sig (walletStore X)) → Prop}

abbrev WalletAssertion (X : Ext) := List (WalletKey X) → Db X → Hist (sig (walletStore X)) → Prop

def KeepsOwners (R : RowProtocol (walletStore X) cond) : Prop :=
  ∀ p db h db' h', R.rel p db h db' h' → OwnersKept db db'

structure Stays (R : RowProtocol (walletStore X) cond) (p : Nat) (A : WalletAssertion X) : Prop where
  framed : R.FramedTx p fun _ => A
  mono : ∀ ks ks' db h, A ks db h → A (ks ++ ks') db h

/-- The writes act as `f` on what is seen, and leave the owners; the wallets in `O` have been
found. -/
structure Has (F : Focus X) (f : F.View → F.View) (O : List (Uuid × Owner)) (A : WalletAssertion X)
    (ws : List (Write X)) (ks : List (WalletKey X)) (db : Db X)
    (h : Hist (sig (walletStore X))) : Prop where
  acts : F.acts ws = f
  puts : ∀ id w, .core (.putWallet id w) ∈ ws → WalletKey.base (.core id) ∈ ks ∧
    (walletOwner db id = some w.owner ∨ walletOwner db id = none)
  found : ∀ x ∈ O, walletOwner (viewOf ws db) x.1 = some x.2
  left : A ks db h

/-- What is seen does not tell who owns what. -/
def Focus.IgnoresWallets (F : Focus X) : Prop := ∀ i w, F.act (.core (.putWallet i w)) = id

end

section
variable {X : Ext} {cond : Db X → Hist (sig (walletStore X)) → Event (sig (walletStore X)) → Prop}
variable {R : RowProtocol (walletStore X) cond} {p : Nat} {F : Focus X} {f : F.View → F.View}
variable {O : List (Uuid × Owner)} {A : WalletAssertion X}

theorem stays_true : Stays R p fun _ _ _ => True :=
  ⟨⟨fun _ _ _ _ _ _ _ _ _ _ _ => trivial, fun _ _ _ _ _ _ _ _ => trivial⟩, fun _ _ _ _ h => h⟩

theorem stays_of_framed {B : Db X → Hist (sig (walletStore X)) → Prop} (hB : R.Framed p B) :
    Stays R p fun _ => B := ⟨hB.inTx, fun _ _ _ _ h => h⟩

theorem stays_fact (φ : Prop) : Stays R p fun _ _ _ => φ :=
  ⟨⟨fun _ _ _ _ _ _ h _ _ _ _ => h, fun _ _ _ _ _ _ _ h => h⟩, fun _ _ _ _ h => h⟩

theorem Stays.and {C : WalletAssertion X} (hA : Stays R p A) (hC : Stays R p C) :
    Stays R p fun ks db h => A ks db h ∧ C ks db h where
  framed :=
    { stable := fun ws _ _ _ _ _ hg hk hr he hi =>
        ⟨hA.framed.stable ws _ _ _ _ _ hg.1 hk hr he hi,
          hC.framed.stable ws _ _ _ _ _ hg.2 hk hr he hi⟩
      own := fun ws _ _ _ _ hq he hg =>
        ⟨hA.framed.own ws _ _ _ _ hq he hg.1, hC.framed.own ws _ _ _ _ hq he hg.2⟩ }
  mono ks ks' db h hg := ⟨hA.mono ks ks' db h hg.1, hC.mono ks ks' db h hg.2⟩

/-- What is read of a row that is locked. -/
theorem stays_row (k : WalletKey X) (φ : k.Row → Prop) :
    Stays R p fun ks db _ => k ∈ ks ∧ φ (k.row db) where
  framed :=
    { stable := fun ws ks db h db' h' hg hk _ _ _ => by
        refine ⟨hg.1, ?_⟩
        rw [show k.row db' = k.row db from hk k hg.1]
        exact hg.2
      own := fun _ _ _ _ _ _ _ hg => hg }
  mono _ _ _ _ hg := ⟨List.mem_append_left _ hg.1, hg.2⟩

theorem stays_locked (k : WalletKey X) : Stays R p fun ks _ _ => k ∈ ks :=
  ⟨⟨fun _ _ _ _ _ _ hg _ _ _ _ => hg, fun _ _ _ _ _ _ _ hg => hg⟩,
    fun _ _ _ _ hg => List.mem_append_left _ hg⟩

theorem framed_has (hR : KeepsOwners R) (hA : Stays R p A) : R.FramedTx p (Has F f O A) where
  stable ws ks db h db' h' hg hk hr he hi :=
    { acts := hg.acts
      puts := fun id w hw => by
        obtain ⟨hl, ho⟩ := hg.puts id w hw
        rw [walletOwner_of_row (hk _ hl)]
        exact ⟨hl, ho⟩
      found := fun x hx => (hR _ _ _ _ _ hr).viewOf ws _ _ (hg.found x hx)
      left := hA.framed.stable ws _ _ _ _ _ hg.left hk hr he hi }
  own ws ks db h e hq he hg := ⟨hg.acts, hg.puts, hg.found, hA.framed.own ws _ _ _ _ hq he hg.left⟩

theorem Has.fits {ws : List (Write X)} {ks : List (WalletKey X)} {db : Db X}
    {h : Hist (sig (walletStore X))} (hg : Has F f O A ws ks db h) : Fits db ws :=
  fun id w hw => (hg.puts id w hw).2

theorem Has.see {ws : List (Write X)} {ks : List (WalletKey X)} {db : Db X}
    {h : Hist (sig (walletStore X))} (hg : Has F f O A ws ks db h) :
    F.see (viewOf ws db) = f (F.see db) := by
  rw [F.see_viewOf, hg.acts]

theorem Has.imp {ws : List (Write X)} {ks : List (WalletKey X)} {db : Db X}
    {h : Hist (sig (walletStore X))} {V : List (Uuid × Owner)} {C : WalletAssertion X}
    (hg : Has F f O A ws ks db h) (hO : V ⊆ O) (hC : A ks db h → C ks db h) :
    Has F f V C ws ks db h :=
  ⟨hg.acts, hg.puts, fun x hx => hg.found x (hO hx), hC hg.left⟩

/-- After one more statement. -/
theorem Has.append {ws ws' : List (Write X)} {ks : List (WalletKey X)} {db : Db X}
    {h : Hist (sig (walletStore X))} {st : WalletStmt X} {a : st.Ans} {V : List (Uuid × Owner)}
    {C : WalletAssertion X} (hg : Has F f O A ws ks db h)
    (he : .ok (a, ws') ∈ st.eval (viewOf ws db))
    (hO : ∀ x ∈ V, walletOwner (viewOf (ws ++ ws') db) x.1 = some x.2)
    (hC : C (ks ++ st.locks (viewOf ws db)) db h) :
    Has F (F.acts ws' ∘ f) (V ++ O) C (ws ++ ws') (ks ++ st.locks (viewOf ws db)) db h where
  acts := by rw [F.acts_append, hg.acts]
  puts id w hw := by
    rcases List.mem_append.1 hw with hw | hw
    · obtain ⟨hl, ho⟩ := hg.puts id w hw
      exact ⟨List.mem_append_left _ hl, ho⟩
    · obtain ⟨hl, ho⟩ := puts_of_eval he hw
      refine ⟨List.mem_append_right _ hl, ?_⟩
      by_cases hn : walletOwner db id = none
      · exact .inr hn
      · obtain ⟨o, hs⟩ := Option.ne_none_iff_exists'.1 hn
        have hv := hg.fits.kept id o hs
        rcases ho with ho | ⟨ho, -⟩
        · exact .inl (hs.trans (hv.symm.trans ho))
        · exact absurd (hv.symm.trans ho) (by simp)
  found x hx := by
    rcases List.mem_append.1 hx with hx | hx
    · exact hO x hx
    · rw [viewOf, applyAll_append]
      exact (fits_of_eval he).kept _ _ (hg.found x hx)
  left := hC

theorem acts_insertWallet {i userId : Uuid} {coin : Coin} {kind : WalletKind} {db : Db X} {a : Unit}
    {ws : List (Write X)} (hF : F.IgnoresWallets)
    (h : .ok (a, ws) ∈ (WalletStmt.insertWallet i userId coin kind : WalletStmt X).eval db) :
    F.acts ws = id := by
  simp only [WalletStmt.eval] at h
  split at h
  · cases List.mem_singleton.1 h
    exact F.acts_nil
  · split at h
    · cases List.mem_singleton.1 h
    · rcases List.mem_cons.1 h with h | h
      · cases h
        exact hF _ _
      · cases List.mem_singleton.1 h

/-! ## Rules -/

variable {ε : Type}

theorem inTx_has_imp {V : List (Uuid × Owner)} {C : WalletAssertion X}
    {c : Conf (machine (walletStore X))} (hO : V ⊆ O) (hAC : ∀ ks db h, A ks db h → C ks db h)
    (hc : InTx p (Has F f O A) c) : InTx p (Has F f V C) c := by
  obtain ⟨t, ht, hg⟩ := hc
  exact ⟨t, ht, hg.imp hO (hAC _ _ _)⟩

section
variable [FromErr DbError ε]

/-- A statement whose effect is one of those in `g`, with the owners that it finds. -/
theorem triple_has (hR : KeepsOwners R) (hA : Stays R p A) (st : WalletStmt X) (hst : st.Other)
    {ι : Type} {g : st.Ans → ι → F.View → F.View} {V : st.Ans → ι → List (Uuid × Owner)}
    {C : st.Ans → ι → WalletAssertion X} (hC : ∀ a x, Stays R p (C a x))
    (hok : ∀ ws ks db h a ws', R.inv db h → Has F f O A ws ks db h →
      .ok (a, ws') ∈ st.eval (viewOf ws db) → ∃ x, F.acts ws' = g a x ∧
        (∀ o ∈ V a x, walletOwner (viewOf (ws ++ ws') db) o.1 = some o.2) ∧
        C a x (ks ++ st.locks (viewOf ws db)) db h) :
    R.toProtocol.Triple p (InTx p (Has F f O A)) (query st : Code (walletStore X) ε _)
      (outcome (fun a c => ∃ x, InTx p (Has F (g a x ∘ f) (V a x ++ O) fun ks db h =>
        A ks db h ∧ C a x ks db h) c) fun _ _ => True) := by
  have stays := fun a x => framed_has (F := F) (f := g a x ∘ f) (O := V a x ++ O) hR
    (hA.and (hC a x))
  have post : ∀ a, R.FramedTx p fun ws ks db h => ∃ x,
      Has F (g a x ∘ f) (V a x ++ O) (fun ks db h => A ks db h ∧ C a x ks db h) ws ks db h :=
    fun a =>
      { stable := fun ws ks db h db' h' ⟨x, hg⟩ hk hr he hi =>
          ⟨x, (stays a x).stable _ _ _ _ _ _ hg hk hr he hi⟩
        own := fun ws ks db h e hq he ⟨x, hg⟩ => ⟨x, (stays a x).own _ _ _ _ _ hq he hg⟩ }
  refine .conseq (triple_query (S := walletStore X) st post
    (fun _ => (stays_true (R := R) (p := p)).framed) ?_ fun _ _ _ _ _ _ _ _ => trivial)
    (fun _ _ h => h) fun r c _ h => ?_
  · intro ws ks db h a ws' hi hg he
    obtain ⟨x, hw, hO, hC'⟩ := hok ws ks db h a ws' hi hg he
    refine ⟨fun w hw k hk => List.mem_append_right _ (hst.covered he w hw k hk), x, ?_⟩
    rw [← hw]
    exact hg.append he hO ⟨hA.mono _ _ _ _ hg.left, hC'⟩
  · cases r with
    | ok a =>
      obtain ⟨t, ht, x, hg⟩ := h
      exact ⟨x, t, ht, hg⟩
    | error _ => exact trivial

/-- A statement that writes nothing that is seen, where `C` says what stays true of its answer. -/
theorem triple_hasReading (hR : KeepsOwners R) (hA : Stays R p A) (st : Stmt X)
    (hst : ∀ input, st ≠ .core (.insertLedgerEntry input)) (ha : F.Aside st)
    {C : st.Ans → WalletAssertion X} (hC : ∀ a, Stays R p (C a))
    (hok : ∀ ws ks db h a ws', R.inv db h → Has F f O A ws ks db h →
      .ok (a, ws') ∈ (satsPay X).eval st (viewOf ws db) →
      C a (ks ++ (st.locks (viewOf ws db)).map .base) db h) :
    R.toProtocol.Triple p (InTx p (Has F f O A))
      (query (S := walletStore X) (.base st) : Code (walletStore X) ε _)
      (outcome (fun a => InTx p (Has F f O fun ks db h => A ks db h ∧ C a ks db h))
        fun _ _ => True) := by
  have other : (WalletStmt.base st).Other := by
    intro input h
    exact hst input (WalletStmt.base.inj h)
  have run := triple_has (ι := Unit) (ε := ε) (F := F) (f := f) (O := O) hR hA (.base st) other
    (g := fun _ _ => id) (V := fun _ _ => []) (fun a _ => hC a) fun ws ks db h a ws' hi hg he =>
      ⟨(), ha _ _ _ he, by simp, hok ws ks db h a ws' hi hg he⟩
  refine .conseq run (fun _ _ h => h) fun r c _ h => ?_
  cases r with
  | ok a =>
    obtain ⟨-, h⟩ := h
    exact h
  | error _ => exact trivial

theorem triple_hasAside (hR : KeepsOwners R) (hA : Stays R p A) (st : Stmt X)
    (hst : ∀ input, st ≠ .core (.insertLedgerEntry input)) (ha : F.Aside st) :
    R.toProtocol.Triple p (InTx p (Has F f O A))
      (query (S := walletStore X) (.base st) : Code (walletStore X) ε _)
      (outcome (fun _ => InTx p (Has F f O A)) fun _ _ => True) :=
  .conseq (triple_hasReading hR hA st hst ha (fun _ => stays_true) fun _ _ _ _ _ _ _ _ _ => trivial)
    (fun _ _ h => h) fun r _ _ h => by
      cases r with
      | ok a => exact inTx_has_imp (List.Subset.refl _) (fun _ _ _ h => h.1) h
      | error _ => exact trivial

/-- A wallet that is looked up is its owner's. -/
theorem triple_hasWalletOf (hR : KeepsOwners R) (hA : Stays R p A) (userId : Uuid) (coin : Coin)
    (kind : WalletKind) (ha : F.Aside (.core (.walletOf userId coin kind))) :
    R.toProtocol.Triple p (InTx p (Has F f O A))
      (query (S := walletStore X) (.base (.core (.walletOf userId coin kind))) :
        Code (walletStore X) ε (Option Uuid))
      (outcome (fun (a : Option Uuid) =>
          InTx p (Has F f ((a.map fun i => (i, (userId, coin, kind))).toList ++ O) A))
        fun _ _ => True) := by
  have run := triple_has (ι := Unit) (ε := ε) (F := F) (f := f) (O := O) hR hA
    (.base (.core (.walletOf userId coin kind))) (by intro input; simp) (g := fun _ _ => id)
    (V := fun (a : Option Uuid) _ => (a.map fun i => (i, (userId, coin, kind))).toList)
    (C := fun _ _ _ _ _ => True) (fun _ _ => stays_true) fun ws ks db h a ws' hi hg he => ?_
  · refine .conseq run (fun _ _ h => h) fun r c _ h => ?_
    cases r with
    | ok a =>
      obtain ⟨-, h⟩ := h
      exact inTx_has_imp (List.Subset.refl _) (fun _ _ _ h => h.1) h
    | error _ => exact trivial
  · have he : .ok (a, ws') ∈
      (satsPay X).eval (.core (.walletOf userId coin kind)) (viewOf ws db) := he
    obtain ⟨ha', hw⟩ := core_eval_one rfl he
    obtain rfl : ws' = [] := hw
    refine ⟨(), ha _ _ _ he, fun o ho => ?_, trivial⟩
    obtain ⟨i, hi', rfl⟩ := Option.map_eq_some_iff.1 (Option.mem_toList.1 ho)
    obtain ⟨v, hv, rfl, rfl, rfl⟩ := Core.wallet_of_walletOf (ha'.symm.trans hi')
    rw [List.append_nil]
    exact congrArg (Option.map Wallet.owner) hv

theorem triple_hasInsertWallet (hR : KeepsOwners R) (hA : Stays R p A) (hF : F.IgnoresWallets)
    (i userId : Uuid) (coin : Coin) (kind : WalletKind) :
    R.toProtocol.Triple p (InTx p (Has F f O A))
      (query (S := walletStore X) (.insertWallet i userId coin kind) : Code (walletStore X) ε Unit)
      (outcome (fun _ => InTx p (Has F f O A)) fun _ _ => True) := by
  have run := triple_has (ι := Unit) (ε := ε) (F := F) (f := f) (O := O) hR hA
    (.insertWallet i userId coin kind) (by intro input; simp) (g := fun _ _ => id)
    (V := fun _ _ => []) (C := fun _ _ _ _ _ => True) (fun _ _ => stays_true)
    fun ws ks db h a ws' hi hg he => ?_
  · refine .conseq run (fun _ _ h => h) fun r c _ h => ?_
    cases r with
    | ok a =>
      obtain ⟨-, h⟩ := h
      exact inTx_has_imp (List.Subset.refl _) (fun _ _ _ h => h.1) h
    | error _ => exact trivial
  · exact ⟨(), acts_insertWallet hF he, by simp, trivial⟩

omit [FromErr DbError ε] in
theorem triple_hasCall (hR : KeepsOwners R) (hA : Stays R p A) (cl : X.Call)
    (hq : ∀ r, R.quiet (.did p (.call cl) r)) :
    R.toProtocol.Triple p (InTx p (Has F f O A))
      (invoke (S := walletStore X) cl : Code (walletStore X) ε _)
      (outcome (fun _ => InTx p (Has F f O A)) fun _ _ => True) := by
  have stays := framed_has (F := F) (f := f) (O := O) hR hA
  refine .conseq (triple_invokeTx (S := walletStore X) cl (fun _ => stays.stable) ?_)
    (fun _ _ h => h) fun r _ _ h => ?_
  · intro ws ks db h r hi hg _
    exact ⟨⟨R.inv_quiet (hq r) hi, fun q hne => R.rel_quiet (hq r) hi (by simpa using Ne.symm hne)⟩,
      stays.own _ _ _ _ _ (hq r) rfl hg⟩
  · cases r with
    | ok a => exact h
    | error _ => exact trivial

/-- The commit: what the writes do to what is seen is done. -/
theorem triple_hasCommit {B : Db X → Hist (sig (walletStore X)) → Prop}
    (hB : R.Stable p B)
    (hok : ∀ ks db db' h, R.inv db h → A ks db h → F.see db' = f (F.see db) → OwnersKept db db' →
      (∀ x ∈ O, walletOwner db' x.1 = some x.2) → cond db h (.did p .commit (.ok ())) →
      (R.inv db' (.did p .commit (.ok ()) :: h) ∧
        ∀ q, q ≠ p → R.rel q db h db' (.did p .commit (.ok ()) :: h)) ∧
      B db' (.did p .commit (.ok ()) :: h)) :
    R.toProtocol.Triple p (InTx p (Has F f O A)) (commit : Code (walletStore X) ε Unit)
      (outcome (fun _ => Idle p B) fun _ _ => True) := by
  refine .conseq (RowProtocol.triple_commit (S := walletStore X) (E := fun _ _ _ => True) hB
    (fun _ => framed_true) (fun ws ks db h hi hg hc => ?_) fun _ _ _ _ _ _ => trivial)
    (fun _ _ h => h) fun r _ _ h => ?_
  · exact hok ks db _ h hi hg.left hg.see hg.fits.kept hg.found hc
  · cases r with
    | ok a => exact h
    | error _ => exact trivial

/-- A statement on its own. -/
theorem triple_walletPool (st : WalletStmt X) (hst : st.Other)
    {A : Db X → Hist (sig (walletStore X)) → Prop}
    {C : st.Ans → Db X → Hist (sig (walletStore X)) → Prop} (hC : ∀ a, R.Stable p (C a))
    (hq : ∀ e, R.quiet (.did p (.pool st) (.error e)))
    (hok : ∀ db h a ws, R.inv db h → A db h → .ok (a, ws) ∈ st.eval db →
      OwnersKept db (viewOf ws db) → F.see (viewOf ws db) = F.acts ws (F.see db) →
      cond db h (.did p (.pool st) (.ok a)) →
      (R.inv (viewOf ws db) (.did p (.pool st) (.ok a) :: h) ∧ ∀ q, q ≠ p →
        R.rel q db h (viewOf ws db) (.did p (.pool st) (.ok a) :: h)) ∧
      C a (viewOf ws db) (.did p (.pool st) (.ok a) :: h)) :
    R.toProtocol.Triple p (Idle p A) (poolQuery st : Code (walletStore X) ε _)
      (outcome (fun a => Idle p (C a)) fun _ => Idle p fun _ _ => True) := by
  refine triple_poolQuery (S := walletStore X) st hC (fun _ => stable_true) ?_ ?_
  · intro db h a ws hi hA he hc
    obtain ⟨⟨h₁, h₂⟩, h₃⟩ := hok db h a ws hi hA he (fits_of_eval he).kept (F.see_viewOf _ _) hc
    exact ⟨⟨hst.covered he, h₁, h₂⟩, h₃⟩
  · intro db h e hi _ _ _
    exact ⟨⟨R.inv_quiet (hq e) hi, fun q hne => R.rel_quiet (hq e) hi (by simpa using Ne.symm hne)⟩,
      trivial⟩

/-- A transaction, of which nothing is written at first. -/
theorem triple_hasTransaction {α : Type} {body : Code (walletStore X) ε α}
    {K : Db X → Hist (sig (walletStore X)) → Prop}
    {B : α → Db X → Hist (sig (walletStore X)) → Prop} (hK : R.Framed p K)
    (hB : ∀ a, R.Framed p (B a))
    (hb : R.toProtocol.Triple p (InTx p (Has F id [] fun _ => K)) body
      (outcome (fun a => Over (B a)) fun _ _ => True)) :
    R.toProtocol.Triple p (Idle p K) (transaction body)
      (outcome (fun a => Idle p (B a)) fun _ => Idle p fun _ _ => True) := by
  have hQ : ∀ r : Except ε α, R.Framed p fun db h => ∀ a, r = .ok a → B a db h := fun r =>
    { stable := fun _ _ _ _ hb hr he hi a ha => (hB a).stable _ _ _ _ (hb a ha) hr he hi
      own := fun _ _ _ hq he hb a ha => (hB a).own _ _ _ hq he (hb a ha) }
  refine .conseq (triple_transaction hK hQ (fun _ _ _ _ _ h => absurd h (by simp))
    (.conseq hb (fun c _ hc => ?_) fun r c _ h => ?_)) (fun _ _ h => h) fun r _ _ h => ?_
  · obtain ⟨t, ht, hw, hd⟩ := hc
    refine ⟨t, ht, ?_⟩
    rw [hw]
    exact ⟨F.acts_nil, by simp, by simp, hd⟩
  · rintro a rfl
    exact h
  · cases r with
    | ok a => exact ⟨h.1, h.2 a rfl⟩
    | error _ => exact ⟨h.1, trivial⟩

end

/-! ## Ledger entries -/

theorem triple_hasLockWallet (hR : KeepsOwners R) (hA : Stays R p A) (walletId : Uuid)
    (ha : F.Aside (.core (.lockWallet walletId))) :
    R.toProtocol.Triple p (InTx p (Has F f O A)) (lift (lockWallet walletId))
      (outcome (fun _ => InTx p (Has F f O A)) fun _ _ => True) := by
  unfold lockWallet
  rw [lift_bind, lift_coreQuery]
  exact .bind (triple_hasAside hR hA _ (by simp) ha) (fun _ => .ret fun _ _ h => h) fun _ _ _ h => h

theorem triple_hasLockWallets (hR : KeepsOwners R) (hA : Stays R p A)
    (ha : ∀ i, F.Aside (.core (.lockWallet i))) (walletIds : List Uuid) :
    R.toProtocol.Triple p (InTx p (Has F f O A)) (lift (lockWallets walletIds))
      (outcome (fun _ => InTx p (Has F f O A)) fun _ _ => True) := by
  unfold lockWallets
  induction (walletIds.insertionSort (· ≤ ·)).dedup with
  | nil => exact .ret fun _ _ h => h
  | cons i is ih =>
    show R.toProtocol.Triple p _ (lift (lockWallet i >>= fun _ => is.forM lockWallet)) _
    rw [lift_bind]
    exact .bind (triple_hasLockWallet hR hA i (ha i)) (fun _ => ih) fun _ _ _ h => h

/-- `apply_ledger_entry` for a wallet that has been found adds one entry. -/
theorem triple_hasEntry (hR : KeepsOwners R) (hA : Stays R p A)
    (ha : ∀ st : CoreStmt, (∀ input, st ≠ .insertLedgerEntry input) → (∀ i, st ≠ .setReorgHold i) →
      F.Aside (.core st))
    (input : LedgerCreditInput) {o : Owner} (ho : (input.walletId, o) ∈ O) :
    R.toProtocol.Triple p (InTx p (Has F f O A)) (lift (applyLedgerEntry input))
      (outcome (fun _ c => ∃ n, numeric39 input.amount = some n ∧
          InTx p (Has F (F.act (.core (.addEntry (input.entry n))) ∘ f) O A) c)
        fun _ _ => True) := by
  have aside (st : CoreStmt) (hst : ∀ input, st ≠ .insertLedgerEntry input)
      (hst' : ∀ i, st ≠ .setReorgHold i) {C : WalletAssertion X} (hC : Stays R p C) :
      R.toProtocol.Triple p (InTx p (Has F f O C)) (lift (coreQuery st : Code _ LedgerError _))
        (outcome (fun _ => InTx p (Has F f O C)) fun _ _ => True) := by
    rw [lift_coreQuery]
    exact triple_hasAside hR hC (.core st) (by rintro input ⟨⟩; exact hst input rfl) (ha st hst hst')
  have hL := hA.and (stays_locked (R := R) (p := p) (.base (.core input.walletId)))
  -- the wallet is there, so that it is locked
  have lock : R.toProtocol.Triple p (InTx p (Has F f O A)) (lift (lockWallet input.walletId))
      (outcome (fun _ => InTx p (Has F f O fun ks db h =>
        A ks db h ∧ WalletKey.base (.core input.walletId) ∈ ks)) fun _ _ => True) := by
    unfold lockWallet
    rw [lift_bind, lift_coreQuery]
    refine .bind (triple_hasReading hR hA (.core (.lockWallet input.walletId)) (by simp)
      (ha _ (by simp) (by simp)) (C := fun _ ks _ _ => WalletKey.base (.core input.walletId) ∈ ks)
      (fun _ => stays_locked _) fun ws ks db h a ws' hi hg he => ?_) (fun _ => .ret fun _ _ h => h)
      fun _ _ _ h => h
    refine List.mem_append_right _ (List.mem_map_of_mem (List.mem_map_of_mem ?_))
    simp [CoreStmt.locks, isSome_of_walletOwner (hg.found _ ho)]
  unfold applyLedgerEntry
  simp only [lift_bind]
  refine .bind lock (fun _ => ?_) fun _ _ _ h => h
  refine .bind (aside (.reorgHoldAt _) (by simp) (by simp) hL) (fun held => ?_) fun _ _ _ h => h
  have check : R.toProtocol.Triple p (InTx p (Has F f O fun ks db h =>
      A ks db h ∧ WalletKey.base (.core input.walletId) ∈ ks)) (lift (checkReorgHold input held))
      (outcome (fun _ => InTx p (Has F f O fun ks db h =>
        A ks db h ∧ WalletKey.base (.core input.walletId) ∈ ks)) fun _ _ => True) := by
    unfold checkReorgHold
    split
    · exact .throw fun _ _ _ => trivial
    · exact .ret fun _ _ h => h
  refine .bind check (fun _ => ?_) fun _ _ _ h => h
  have cover : R.toProtocol.Triple p (InTx p (Has F f O fun ks db h =>
      A ks db h ∧ WalletKey.base (.core input.walletId) ∈ ks)) (lift (checkBalance input))
      (outcome (fun _ => InTx p (Has F f O fun ks db h =>
        A ks db h ∧ WalletKey.base (.core input.walletId) ∈ ks)) fun _ _ => True) := by
    unfold checkBalance getWalletBalance
    split
    · rw [lift_bind]
      refine .bind (aside (.walletBalance _) (by simp) (by simp) hL) (fun b => ?_) fun _ _ _ h => h
      split
      · exact .throw fun _ _ _ => trivial
      · exact .ret fun _ _ h => h
    · exact .ret fun _ _ h => h
  refine .bind cover (fun _ => ?_) fun _ _ _ h => h
  rw [lift_coreQuery]
  have post (n : ℤ) := framed_has (F := F) (f := F.act (.core (.addEntry (input.entry n))) ∘ f)
    (O := O) hR hA
  refine .conseq (triple_query (S := walletStore X) (.base (.core (.insertLedgerEntry input)))
    (H := fun _ ws ks db h => ∃ n, numeric39 input.amount = some n ∧
      Has F (F.act (.core (.addEntry (input.entry n))) ∘ f) O A ws ks db h) (fun _ =>
      { stable := by
          rintro ws ks db h db' h' ⟨n, hn, hg⟩ hk hr he hi
          exact ⟨n, hn, (post n).stable _ _ _ _ _ _ hg hk hr he hi⟩
        own := by
          rintro ws ks db h e hq he ⟨n, hn, hg⟩
          exact ⟨n, hn, (post n).own _ _ _ _ _ hq he hg⟩ })
    (fun _ => (stays_true (R := R) (p := p)).framed) ?_ fun _ _ _ _ _ _ _ _ => trivial)
    (fun _ _ h => h) fun r _ _ h => ?_
  · intro ws ks db h a ws' hi hg he
    have he' : .ok (a, ws') ∈ (satsPay X).eval (.core (.insertLedgerEntry input)) (viewOf ws db) := he
    obtain ⟨ws₁, he₁, rfl⟩ := core_eval_ok he'
    obtain ⟨n, hn, -, -, rfl⟩ := insertLedgerEntry_ok (List.mem_singleton.1 he₁).symm
    refine ⟨fun w hw k hk => ?_, n, hn, ?_⟩
    · cases List.mem_singleton.1 hw
      cases List.mem_singleton.1 hk
      exact List.mem_append_left _ hg.left.2
    · have hs : .ok (a, [.core (.addEntry (input.entry n))]) ∈
        (WalletStmt.base (.core (.insertLedgerEntry input))).eval (viewOf ws db) := he
      exact (hg.imp (List.Subset.refl _) fun h => h.1).append (V := []) hs (by simp)
        (hA.mono _ _ _ _ hg.left.1)
  · cases r with
    | ok a =>
      obtain ⟨t, ht, n, hn, hg⟩ := h
      exact ⟨n, hn, t, ht, hg⟩
    | error _ => exact trivial

end

end SatsPay
