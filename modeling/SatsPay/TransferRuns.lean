import SatsPay.Balances
import SatsPay.Transfers

/-!
# Transfers conserve what a user has

A wallet keeps its user, coin and kind, whoever runs beside. So the two wallets that a transfer
has found are still the user's own where it commits, and it takes from one what it gives to the
other.
-/

namespace SatsPay

open Interleave ReadCommitted

variable {X : Ext}

/-! ## Who owns a wallet -/

abbrev Owner := Uuid × Coin × WalletKind

def Wallet.owner (w : Wallet) : Owner := (w.userId, w.coin, w.kind)

def walletOwner (db : Db X) (id : Uuid) : Option Owner :=
  (db.core.wallets.lookup id).map Wallet.owner

def OwnersKept (db db' : Db X) : Prop :=
  ∀ id o, walletOwner db id = some o → walletOwner db' id = some o

def Fits (db : Db X) (ws : List (Write X)) : Prop :=
  ∀ id w, .core (.putWallet id w) ∈ ws → walletOwner db id = some w.owner ∨ walletOwner db id = none

theorem walletOwner_putWallet (db : Db X) (id : Uuid) (w : Wallet) :
    walletOwner ((Write.core (.putWallet id w)).apply db) id = some w.owner := by
  simp [walletOwner, Write.apply, CoreWrite.apply]

theorem walletOwner_apply {db : Db X} {w : Write X} {id : Uuid}
    (h : ∀ v, w ≠ .core (.putWallet id v)) : walletOwner (w.apply db) id = walletOwner db id := by
  cases w with
  | ext w => rfl
  | core w =>
    cases w with
    | putWallet id' v =>
      have hne : id ≠ id' := by
        rintro rfl
        exact h v rfl
      exact congrArg (Option.map Wallet.owner) (AList.lookup_insert_ne hne)
    | addEntry e | putJob id' j | addOutbox e | addAudit l => rfl

/-- After some writes the owner is as before or what one of them put. -/
theorem walletOwner_viewOf : ∀ (ws : List (Write X)) (db : Db X) (id : Uuid),
    walletOwner (viewOf ws db) id = walletOwner db id ∨
      ∃ v, .core (.putWallet id v) ∈ ws ∧ walletOwner (viewOf ws db) id = some v.owner
  | [], _, _ => .inl rfl
  | w :: ws, db, id => by
    rcases walletOwner_viewOf ws (w.apply db) id with h | ⟨v, hv, h⟩
    · by_cases hw : ∃ v, w = .core (.putWallet id v)
      · obtain ⟨v, rfl⟩ := hw
        exact .inr ⟨v, List.mem_cons_self, h.trans (walletOwner_putWallet db id v)⟩
      · exact .inl (h.trans (walletOwner_apply (not_exists.1 hw)))
    · exact .inr ⟨v, List.mem_cons_of_mem _ hv, h⟩

theorem Fits.kept {db : Db X} {ws : List (Write X)} (h : Fits db ws) :
    OwnersKept db (viewOf ws db) := by
  intro id o ho
  rcases walletOwner_viewOf ws db id with h' | ⟨v, hv, h'⟩
  · exact h'.trans ho
  · rcases h id v hv with h₁ | h₁ <;> rw [h₁] at ho
    · rw [h', ho]
    · cases ho

theorem walletOwner_of_not_put {db : Db X} {ws : List (Write X)} {id : Uuid}
    (h : ∀ v, .core (.putWallet id v) ∉ ws) :
    walletOwner (viewOf ws db) id = walletOwner db id := by
  rcases walletOwner_viewOf ws db id with h' | ⟨v, hv, -⟩
  · exact h'
  · exact absurd hv (h v)

/-- A statement of the shared tables puts no wallet but one it has found, with its owner. -/
theorem CoreStmt.puts {st : CoreStmt} {c : Core} {a : st.Ans} {ws : List CoreWrite}
    (he : .ok (a, ws) ∈ st.eval c) {id : Uuid} {w : Wallet} (hw : .putWallet id w ∈ ws) :
    id ∈ st.locks c ∧ (c.wallets.lookup id).map Wallet.owner = some w.owner := by
  cases st with
  | insertLedgerEntry input =>
    obtain ⟨n, -, -, -, rfl⟩ := insertLedgerEntry_ok (List.mem_singleton.1 he).symm
    cases List.mem_singleton.1 hw
  | setReorgHold id' =>
    cases List.mem_singleton.1 he
    cases hl : c.wallets.lookup id' with
    | none => rw [hl] at hw; cases hw
    | some v =>
      rw [hl] at hw
      cases List.mem_singleton.1 hw
      simp [CoreStmt.locks, hl, Wallet.owner]
  | lockWallet id' =>
    cases List.mem_singleton.1 he
    cases hw
  | _ => exact absurd (CoreStmt.writes (by simp) he _ hw).2 List.not_mem_nil

/-- A statement locks the wallets it puts and keeps their owner, unless it makes them. -/
theorem puts_of_eval {st : WalletStmt X} {db : Db X} {a : st.Ans} {ws : List (Write X)}
    (he : .ok (a, ws) ∈ st.eval db) {id : Uuid} {w : Wallet} (hw : .core (.putWallet id w) ∈ ws) :
    .base (.core id) ∈ st.locks db ∧ (walletOwner db id = some w.owner ∨
      walletOwner db id = none ∧ ∃ u c k, st = .insertWallet id u c k) := by
  cases st with
  | insertWallet id' u c k =>
    simp only [WalletStmt.eval, WalletStmt.locks] at he ⊢
    split at he
    · cases List.mem_singleton.1 he
      cases hw
    · rename_i hnew
      rw [if_neg hnew]
      split at he
      · cases List.mem_singleton.1 he
      · rename_i hid
        rcases List.mem_cons.1 he with he | he
        · cases he
          cases List.mem_singleton.1 hw
          refine ⟨by simp, .inr ⟨?_, _, _, _, rfl⟩⟩
          simpa [walletOwner] using hid
        · cases List.mem_singleton.1 he
  | base st =>
    cases st with
    | ext st =>
      obtain ⟨ws', -, rfl⟩ := ext_eval_ok he
      obtain ⟨w', -, hw'⟩ := List.mem_map.1 hw
      cases hw'
    | core st =>
      obtain ⟨ws', he', rfl⟩ := core_eval_ok he
      obtain ⟨w', hw', rfl'⟩ := List.mem_map.1 hw
      cases rfl'
      obtain ⟨hl, ho⟩ := CoreStmt.puts he' hw'
      exact ⟨List.mem_map_of_mem (List.mem_map_of_mem hl), .inl ho⟩

/-! ## Owners in a run -/

def Creates (t : List (Did (sig (walletStore X)))) : Prop :=
  ∃ id u c k r, (⟨.tx (.insertWallet id u c k), r⟩ : Did (sig (walletStore X))) ∈ t

theorem Creates.cons {t : List (Did (sig (walletStore X)))} (h : Creates t)
    (d : Did (sig (walletStore X))) : Creates (d :: t) := by
  obtain ⟨id, u, c, k, r, hm⟩ := h
  exact ⟨id, u, c, k, r, List.mem_cons_of_mem _ hm⟩

/-- What is known of the owners in any run: an open transaction has locked the wallets it puts
and leaves their owner, and a wallet that was found is its owner's, unless the process makes
wallets in transactions. -/
structure Owners (c : Conf (machine (walletStore X))) : Prop where
  exclusive : Exclusive c.s
  puts : ∀ p t, c.s.tx p = some t → ∀ id w, .core (.putWallet id w) ∈ t.writes →
    .base (.core id) ∈ t.locks ∧ (walletOwner c.s.db id = some w.owner ∨
      walletOwner c.s.db id = none ∧ Creates (doneBy p c.hist))
  found : ∀ p u k coin id,
    (⟨.tx (.base (.core (.walletOf u coin k))), .ok (some id)⟩ : Did (sig (walletStore X))) ∈
      doneBy p c.hist → ¬Creates (doneBy p c.hist) → walletOwner c.s.db id = some (u, coin, k)

/-- The owner a transaction sees is the committed one, or it has made the wallet. -/
theorem Owners.of_view {c : Conf (machine (walletStore X))} (hc : Owners c) {p : Nat}
    {t : Tx (walletStore X)} (ht : c.s.tx p = some t) {id : Uuid} {o : Owner}
    (ho : walletOwner (t.view c.s.db) id = some o) : walletOwner c.s.db id = some o ∨
      walletOwner c.s.db id = none ∧ Creates (doneBy p c.hist) := by
  rcases walletOwner_viewOf t.writes c.s.db id with h | ⟨v, hv, h⟩
  · exact .inl (h.symm.trans ho)
  · obtain rfl : v.owner = o := Option.some.inj (h.symm.trans ho)
    exact (hc.puts p t ht id v hv).2

theorem Owners.fits {c : Conf (machine (walletStore X))} (hc : Owners c) {p : Nat}
    {t : Tx (walletStore X)} (ht : c.s.tx p = some t) : Fits c.s.db t.writes :=
  fun id w hw => (hc.puts p t ht id w hw).2.imp_right And.left

theorem owners_push {c : Conf (machine (walletStore X))} {p : Nat}
    {t : Option (Tx (walletStore X))} {o : Op (walletStore X)} {r : Op.Resp (walletStore X) o}
    (db : Db X) (hc : Owners c)
    (hl : Exclusive (c.s.setTx p t)) (hdb : OwnersKept c.s.db db)
    (hput : ∀ u, t = some u → ∀ id w, .core (.putWallet id w) ∈ u.writes →
      .base (.core id) ∈ u.locks ∧ (walletOwner db id = some w.owner ∨
        walletOwner db id = none ∧ Creates (⟨o, r⟩ :: doneBy p c.hist)))
    (hnew : ∀ q u, q ≠ p → c.s.tx q = some u → ∀ id w, .core (.putWallet id w) ∈ u.writes →
      walletOwner c.s.db id = none → walletOwner db id = none)
    (hfound : ∀ u k coin id, (⟨o, r⟩ : Did (sig (walletStore X))) =
      ⟨.tx (.base (.core (.walletOf u coin k))), .ok (some id)⟩ →
      ¬Creates (doneBy p c.hist) → walletOwner db id = some (u, coin, k)) :
    Owners (c.push { c.s.setTx p t with db := db } (.did p o r)) := by
  have other {q : Nat} (hq : q ≠ p) : doneBy q (.did p o r :: c.hist) = doneBy q c.hist :=
    doneBy_of_ne (by simp [Ne.symm hq]) _
  refine ⟨hl, fun q u hu id w hw => ?_, fun q u k coin id hm hcr => ?_⟩
  · by_cases hq : q = p
    · subst hq
      have ht : t = some u := (State.setTx_self ..).symm.trans hu
      show _ ∧ (_ ∨ _ ∧ Creates (doneBy q (.did q o r :: c.hist)))
      rw [doneBy_self]
      exact hput u ht id w hw
    · have ht : c.s.tx q = some u := (State.setTx_ne _ hq _).symm.trans hu
      obtain ⟨hk, ho⟩ := hc.puts q u ht id w hw
      refine ⟨hk, ?_⟩
      show _ ∨ _ ∧ Creates (doneBy q (.did p o r :: c.hist))
      rw [other hq]
      exact ho.imp (hdb _ _) fun h => ⟨hnew q u hq ht id w hw h.1, h.2⟩
  · have hm : _ ∈ doneBy q (.did p o r :: c.hist) := hm
    have hcr : ¬Creates (doneBy q (.did p o r :: c.hist)) := hcr
    by_cases hq : q = p
    · subst hq
      rw [doneBy_self] at hm hcr
      have hcr' : ¬Creates (doneBy q c.hist) := fun h => hcr (h.cons _)
      rcases List.mem_cons.1 hm with hm | hm
      · exact hfound u k coin id hm.symm hcr'
      · exact hdb _ _ (hc.found q u k coin id hm hcr')
    · rw [other hq] at hm hcr
      exact hdb _ _ (hc.found q u k coin id hm hcr)

/-- What another process commits leaves the wallets alone that a transaction puts. -/
theorem walletOwner_of_locked {ws : List (Write X)} {db : Db X} {ks ks' : List (WalletKey X)}
    {id : Uuid}
    (hput : ∀ id w, .core (.putWallet id w) ∈ ws → WalletKey.base (.core id) ∈ ks)
    (hk : .base (.core id) ∈ ks') (hd : ∀ k ∈ ks, k ∉ ks') :
    walletOwner (viewOf ws db) id = walletOwner db id :=
  walletOwner_of_not_put fun v hv => hd _ (hput id v hv) hk

/-- A step that leaves the transactions. -/
theorem owners_same {c : Conf (machine (walletStore X))} {p : Nat} {o : Op (walletStore X)}
    {r : Op.Resp (walletStore X) o} {db : Db X} (hc : Owners c) (hdb : OwnersKept c.s.db db)
    (hnew : ∀ q u, c.s.tx q = some u → ∀ id w, .core (.putWallet id w) ∈ u.writes →
      walletOwner c.s.db id = none → walletOwner db id = none)
    (ho : ∀ st, o ≠ .tx st) : Owners (c.push { c.s with db := db } (.did p o r)) := by
  have hs : c.s.setTx p (c.s.tx p) = c.s := by simp [State.setTx]
  have h := owners_push (p := p) (t := c.s.tx p) (o := o) (r := r) db hc
    (by rw [hs]; exact hc.exclusive) hdb (fun u hu id w hw => ?_) (fun q u _ => hnew q u)
    fun u k coin id he => ?_
  · rwa [hs] at h
  · obtain ⟨hk, ho⟩ := hc.puts p u hu id w hw
    exact ⟨hk, ho.imp (hdb _ _) fun h => ⟨hnew p u hu id w hw h.1, h.2.cons _⟩⟩
  · cases he
    exact absurd rfl (ho _)

/-- A step that leaves the process no transaction with a write. -/
theorem owners_gone {c : Conf (machine (walletStore X))} {p : Nat} {o : Op (walletStore X)}
    {r : Op.Resp (walletStore X) o} {t : Option (Tx (walletStore X))} (hc : Owners c)
    (hl : Exclusive (c.s.setTx p t)) (ht : ∀ u, t = some u → u.writes = [])
    (ho : ∀ st a, (⟨o, r⟩ : Did (sig (walletStore X))) ≠ ⟨.tx st, .ok a⟩) :
    Owners (c.push (c.s.setTx p t) (.did p o r)) :=
  owners_push c.s.db hc hl (fun _ _ h => h)
    (fun u hu _ _ hw => absurd (ht u hu ▸ hw) List.not_mem_nil)
    (fun _ _ _ _ _ _ _ h => h) fun _ _ _ _ he => absurd he (ho _ _)

theorem owners_tx {c : Conf (machine (walletStore X))} {p : Nat} {st : WalletStmt X}
    {t : Tx (walletStore X)} {a : st.Ans} {ws : List (Write X)} (hc : Owners c)
    (ht : c.s.tx p = some t) (hf : c.s.free (some p) (st.locks (t.view c.s.db)))
    (he : .ok (a, ws) ∈ st.eval (t.view c.s.db)) :
    Owners (c.push (c.s.setTx p (some ⟨t.writes ++ ws, t.locks ++ st.locks (t.view c.s.db), false⟩))
      (.did p (.tx st) (.ok a))) := by
  refine owners_push c.s.db hc (exclusive_setTx hc.exclusive p ?_) (fun _ _ h => h) ?_
    (fun _ _ _ _ _ _ _ h => h) ?_
  · rintro _ ⟨⟩ q v hne hv k hk
    rcases List.mem_append.1 hk with hk | hk
    · exact hc.exclusive p q t v (Ne.symm hne) ht hv k hk
    · exact hf q v (by simpa using hne) hv k hk
  · rintro _ ⟨⟩ id w hw
    rcases List.mem_append.1 hw with hw | hw
    · obtain ⟨hk, ho⟩ := hc.puts p t ht id w hw
      exact ⟨List.mem_append_left _ hk, ho.imp_right fun h => ⟨h.1, h.2.cons _⟩⟩
    · obtain ⟨hk, ho | ⟨ho, u, coin, k, rfl⟩⟩ := puts_of_eval he hw
      · exact ⟨List.mem_append_right _ hk, (hc.of_view ht ho).imp_right fun h => ⟨h.1, h.2.cons _⟩⟩
      · refine ⟨List.mem_append_right _ hk, .inr ⟨?_, id, u, coin, k, _, List.mem_cons_self⟩⟩
        by_contra hne
        obtain ⟨o, hs⟩ := Option.ne_none_iff_exists'.1 hne
        exact absurd (ho.symm.trans ((hc.fits ht).kept id o hs)) (by simp)
  · rintro u k coin id he' hcr
    cases he'
    have he : .ok (some id, ws) ∈
      (satsPay X).eval (.core (.walletOf u coin k)) (t.view c.s.db) := he
    have hid : (t.view c.s.db).core.walletOf u coin k = some id := (core_eval_one rfl he).1.symm
    obtain ⟨v, hv, rfl, rfl, rfl⟩ := Core.wallet_of_walletOf hid
    have hv : walletOwner (t.view c.s.db) id = some v.owner := by rw [walletOwner, hv]; rfl
    exact (hc.of_view ht hv).resolve_right fun h => hcr h.2

theorem owners_act {c : Conf (machine (walletStore X))} {p : Nat} {o : Op (walletStore X)}
    {r : Op.Resp (walletStore X) o} {s : State (walletStore X)} (hc : Owners c)
    (hx : Exec p o c.s r s) : Owners (c.push s (.did p o r)) := by
  have closed : Exclusive (c.s.setTx p none) := exclusive_setTx hc.exclusive p (by simp)
  cases hx with
  | begin_ok _ h =>
    exact owners_gone hc (exclusive_setTx hc.exclusive p (by rintro _ ⟨⟩; simp))
      (by rintro _ ⟨⟩; rfl) (by simp)
  | tx_ok _ st t a ws ht ha hf he => exact owners_tx hc ht hf he
  | tx_error _ st t e ht ha hf he =>
    exact owners_gone hc (TxInvariant.exclusive_aborted hc.exclusive ht) (by rintro _ ⟨⟩; rfl)
      (by rintro st' a ⟨⟩)
  | tx_fail _ st t ht =>
    exact owners_gone hc (TxInvariant.exclusive_aborted hc.exclusive ht) (by rintro _ ⟨⟩; rfl)
      (by rintro st' a ⟨⟩)
  | commit_ok _ t ht =>
    refine owners_push _ hc closed (hc.fits ht).kept (fun _ h => nomatch h) ?_ (by simp)
    intro q u hq hu id w hw hn
    refine (walletOwner_of_locked (fun id w hw => (hc.puts p t ht id w hw).1)
      (hc.puts q u hu id w hw).1 ?_).trans hn
    exact hc.exclusive p q t u (Ne.symm hq) ht hu
  | commit_fail _ t ht => exact owners_gone hc closed (fun _ h => nomatch h) (by simp)
  | rollback => exact owners_gone hc closed (fun _ h => nomatch h) (by simp)
  | pool_ok _ st a ws hf he =>
    have fits : Fits c.s.db ws := fun id w hw => (puts_of_eval he hw).2.imp_right And.left
    refine owners_same hc fits.kept (fun q u hu id w hw hn => ?_) (by simp)
    refine (walletOwner_of_locked (fun id w hw => (puts_of_eval he hw).1)
      (hc.puts q u hu id w hw).1 fun k hk => ?_).trans hn
    exact hf q u (by simp) hu k hk
  | begin_fail | pool_error | pool_fail | call =>
    exact owners_same hc (fun _ _ h => h) (fun _ _ _ _ _ _ h => h) (by simp)

theorem owners_of_steps {main : Prog (sig (walletStore X)) Empty Unit → Prop}
    {cond : Conf (machine (walletStore X)) → Event (sig (walletStore X)) → Prop}
    {w w' : World (machine (walletStore X))} (hw : Owners w.conf)
    (hs : Steps (machine (walletStore X)) main cond w w') : Owners w'.conf := by
  refine inv_of_steps (fun hc hx => owners_act hc hx) (fun {c p e} hc he => ?_)
    (fun {c s} hc hx htx => ?_) hw hs
  · have hd (q : Nat) : doneBy q (e :: c.hist) = doneBy q c.hist := by
      rcases he with rfl | rfl <;> rfl
    refine ⟨exclusive_setTx hc.exclusive p (by simp), fun q u hu id w hw => ?_,
      fun q u k coin id hm hcr => ?_⟩
    · show _ ∧ (_ ∨ _ ∧ Creates (doneBy q (e :: c.hist)))
      rw [hd]
      by_cases hq : q = p
      · subst hq
        cases (State.setTx_self ..).symm.trans hu
      · exact hc.puts q u ((State.setTx_ne _ hq _).symm.trans hu) id w hw
    · have hm : _ ∈ doneBy q (e :: c.hist) := hm
      have hcr : ¬Creates (doneBy q (e :: c.hist)) := hcr
      rw [hd] at hm hcr
      exact hc.found q u k coin id hm hcr
  · have ho (id : Uuid) : walletOwner s.db id = walletOwner c.s.db id := by
      obtain ⟨t, -, hdb⟩ := hx
      rw [hdb]
      rfl
    refine ⟨?_, fun q u hu id w hw => ?_, fun q u k coin id hm hcr => ?_⟩
    · simp only [Conf.push, Exclusive, htx]
      exact hc.exclusive
    · have h := hc.puts q u ((congrFun htx q).symm.trans hu) id w hw
      rw [← ho] at h
      exact h
    · exact (ho id).trans (hc.found q u k coin id hm hcr)

theorem owners_init (db : Db X) : Owners ⟨.start (S := walletStore X) db, []⟩ :=
  ⟨(fun _ _ _ _ _ h => nomatch h), (fun _ _ h => nomatch h), (fun _ _ _ _ _ h => nomatch h)⟩

/-! ## What an open transaction of a transfer has done -/

/-- Nothing has failed, no wallet has been made and nothing committed; `seen` has been done, and
`W` holds of what has been written. -/
structure Ongoing (seen : List (Did (sig (walletStore X)))) (W : List (Write X) → Prop)
    (t : List (Did (sig (walletStore X)))) : Prop where
  seen : ∀ d ∈ seen, d ∈ t
  fine : Fine t
  creates : ¬Creates t
  uncommitted : Uncommitted t
  wrote : ∀ ws, Wrote t ws → W ws

/-- It goes on, or ends with nothing committed. -/
def GoesOn {ε α : Type} (P : α → List (Did (sig (walletStore X))) → Prop)
    (t : List (Did (sig (walletStore X)))) : Except ε α → Prop
  | .ok a => P a t
  | .error _ => Uncommitted t

section
variable {ε ε' α β : Type} {φ : List (Did (sig (walletStore X))) → Op (walletStore X) → Prop}
variable {seen t : List (Did (sig (walletStore X)))} {W V : List (Write X) → Prop}

theorem GoesOn.mapErr {c : Code (walletStore X) ε α} (g : ε → ε')
    {P : α → List (Did (sig (walletStore X))) → Prop} (hc : c.Leads φ (GoesOn P) t) :
    (c.mapErr g).Leads φ (GoesOn P) t :=
  Prog.Leads.mapErr (hc.mono fun t r h => by cases r <;> exact h)

theorem GoesOn.bind {c : Code (walletStore X) ε α} {f : α → Code (walletStore X) ε β}
    {P : α → List (Did (sig (walletStore X))) → Prop}
    {P' : β → List (Did (sig (walletStore X))) → Prop}
    (hc : c.Leads φ (GoesOn P) t) (hf : ∀ a t, P a t → (f a).Leads φ (GoesOn P') t) :
    (c >>= f).Leads φ (GoesOn P') t := by
  refine Prog.Leads.bind (Q := GoesOn P) (fun a t h => hf a t h) (fun e t h => ?_) hc
  exact h

theorem ongoing_query [FromErr DbError ε] {st : CoreStmt} (hφ : ∀ t st, φ t (.tx st))
    (h : Ongoing seen W t) (hW : ∀ ws a ws' c, W ws → .ok (a, ws') ∈ st.eval c →
      V (ws ++ ws'.map .core)) :
    (query (S := walletStore X) (.base (.core st)) : Code (walletStore X) ε _).Leads φ
      (GoesOn fun a => Ongoing (⟨.tx (.base (.core st)), .ok a⟩ :: seen) V) t := by
  refine ⟨hφ _ _, fun r => ?_⟩
  cases r with
  | error e => exact uncommitted_cons h.uncommitted (by simp)
  | ok a =>
    refine ⟨?_, .tx h.fine, ?_, uncommitted_cons h.uncommitted (by simp), fun ws hw => ?_⟩
    · exact List.forall_mem_cons.2
        ⟨List.mem_cons_self, fun d hd => List.mem_cons_of_mem _ (h.seen d hd)⟩
    · rintro ⟨id, u, c, k, r, hm⟩
      rcases List.mem_cons.1 hm with hm | hm
      · cases hm
      · exact h.creates ⟨id, u, c, k, r, hm⟩
    · cases hw with
      | tx hw he =>
        obtain ⟨ws', he', rfl⟩ := core_eval_ok he
        exact hW _ _ _ _ (h.wrote _ hw) he'

theorem Ongoing.forget {d : Did (sig (walletStore X))} (h : Ongoing (d :: seen) W t) :
    Ongoing seen W t :=
  ⟨fun d hd => h.seen d (List.mem_cons_of_mem _ hd), h.fine, h.creates, h.uncommitted, h.wrote⟩

def OnlyReads (φ : List (Did (sig (walletStore X))) → Op (walletStore X) → Prop)
    (c : Code (satsPay X) LedgerError α) : Prop :=
  ∀ seen W t, Ongoing seen W t → (lift c).Leads φ (GoesOn fun _ => Ongoing seen W) t

theorem OnlyReads.bind {c : Code (satsPay X) LedgerError α} {f : α → Code (satsPay X) LedgerError β}
    (hc : OnlyReads φ c) (hf : ∀ a, OnlyReads φ (f a)) : OnlyReads φ (c >>= f) := by
  intro seen W t h
  rw [lift_bind]
  exact GoesOn.bind (hc seen W t h) fun a t => hf a seen W t

theorem onlyReads_ret (a : α) : OnlyReads (X := X) φ (.ret a) := fun _ _ _ h => h

theorem onlyReads_throw (e : LedgerError) : OnlyReads (X := X) φ (.throw e : Code _ _ α) :=
  fun _ _ _ h => h.uncommitted

theorem onlyReads_query {st : CoreStmt} (hφ : ∀ t st, φ t (.tx st))
    (hst : ∀ c a ws, .ok (a, ws) ∈ st.eval c → ws = []) :
    OnlyReads (X := X) φ (coreQuery st) := by
  intro seen W t h
  rw [lift_coreQuery]
  refine (ongoing_query (V := W) hφ h fun ws a ws' c hw he => ?_).mono fun t r hr => ?_
  · rwa [hst c a ws' he, List.map_nil, List.append_nil]
  · cases r with
    | ok a => exact hr.forget
    | error e => exact hr

theorem onlyReads_lockWallet (hφ : ∀ t st, φ t (.tx st)) (id : Uuid) :
    OnlyReads (X := X) φ (lockWallet id) := by
  refine .bind (onlyReads_query hφ fun c a ws he => ?_) fun _ => onlyReads_ret _
  cases List.mem_singleton.1 he
  rfl

theorem onlyReads_lockWallets (hφ : ∀ t st, φ t (.tx st)) (ids : List Uuid) :
    OnlyReads (X := X) φ (lockWallets ids) := by
  unfold lockWallets
  induction (ids.insertionSort (· ≤ ·)).dedup with
  | nil => exact onlyReads_ret _
  | cons id ids ih => exact .bind (onlyReads_lockWallet hφ id) fun _ => ih

theorem onlyReads_checkReorgHold (input : LedgerCreditInput) (held : Option (Option Time)) :
    OnlyReads (X := X) φ (checkReorgHold input held) := by
  unfold checkReorgHold
  split
  · exact onlyReads_throw _
  · exact onlyReads_ret _

theorem onlyReads_checkBalance (hφ : ∀ t st, φ t (.tx st)) (input : LedgerCreditInput) :
    OnlyReads (X := X) φ (checkBalance input) := by
  unfold checkBalance
  split
  · refine .bind (onlyReads_query hφ fun c a ws he => ?_) fun balance => ?_
    · cases List.mem_singleton.1 he
      rfl
    · split
      · exact onlyReads_throw _
      · exact onlyReads_ret _
  · exact onlyReads_ret _

/-- `apply_ledger_entry` writes its entry, as the column stores it. -/
def Inserted (W : List (Write X) → Prop) (input : LedgerCreditInput) (ws : List (Write X)) : Prop :=
  ∃ ws₀ n, W ws₀ ∧ numeric39 input.amount = some n ∧ ws = ws₀ ++ [.core (.addEntry (input.entry n))]

theorem ongoing_applyLedgerEntry (hφ : ∀ t st, φ t (.tx st)) (h : Ongoing seen W t)
    (input : LedgerCreditInput) : (lift (applyLedgerEntry input)).Leads φ
      (GoesOn fun _ => Ongoing seen (Inserted W input)) t := by
  unfold applyLedgerEntry
  rw [lift_bind]
  refine GoesOn.bind (onlyReads_lockWallet hφ _ _ _ _ h) fun _ t h => ?_
  rw [lift_bind]
  refine GoesOn.bind (onlyReads_query hφ ?_ _ _ _ h) fun held t h => ?_
  · intro c a ws he
    cases List.mem_singleton.1 he
    rfl
  rw [lift_bind]
  refine GoesOn.bind (onlyReads_checkReorgHold input held _ _ _ h) fun _ t h => ?_
  rw [lift_bind]
  refine GoesOn.bind (onlyReads_checkBalance hφ input _ _ _ h) fun _ t h => ?_
  rw [lift_coreQuery]
  refine (ongoing_query (V := Inserted W input) hφ h fun ws a ws' c hw he => ?_).mono
    fun t r hr => ?_
  · obtain ⟨n, hn, -, -, rfl⟩ := insertLedgerEntry_ok (List.mem_singleton.1 he).symm
    exact ⟨ws, n, hw, hn, rfl⟩
  · cases r with
    | ok a => exact hr.forget
    | error e => exact hr

end

/-! ## What a transfer leads to -/

section
variable (refId walletId userId : Uuid) (coin : Coin) (amount : ℚ) (toDeveloper : Bool)

def transferEntries (fromId toId : Uuid) (n : ℤ) : List LedgerEntry :=
  [(ownTransferOut refId amount toDeveloper fromId).entry (-n),
    (ownTransferIn refId amount toDeveloper toId).entry n]

def foundWallet (kind : WalletKind) (id : Uuid) : Did (sig (walletStore X)) :=
  ⟨.tx (.base (.core (.walletOf userId coin kind))), .ok (some id)⟩

/-- The two wallets have been found, and the two entries are all that has been written. -/
def ReadyToMove (t : List (Did (sig (walletStore X)))) : Prop :=
  0 < amount ∧ ∃ fromId toId,
    Ongoing [foundWallet userId coin (toKind toDeveloper) toId,
        foundWallet userId coin (fromKind toDeveloper) fromId]
      (fun ws => ∃ n, numeric39 amount = some n ∧
        ws = (transferEntries refId amount toDeveloper fromId toId n).map (.core ∘ .addEntry)) t

def Transferring (t : List (Did (sig (walletStore X)))) : Op (walletStore X) → Prop
  | .commit => ReadyToMove refId userId coin amount toDeveloper t
  | .pool st => st = .insertWallet walletId userId coin .merchant
  | .call _ => False
  | _ => True

/-- It ends well where it has committed, else with nothing committed. -/
def Concludes (t : List (Did (sig (walletStore X)))) (r : Except WalletError Unit) : Prop :=
  GoesOn (fun _ t => ⟨.commit, .ok ()⟩ ∈ t) t r

variable {refId walletId userId coin amount toDeveloper}
variable {t : List (Did (sig (walletStore X)))}

theorem leads_moveBetween (ha : 0 < amount) {fromId toId : Uuid}
    (h : Ongoing [foundWallet userId coin (toKind toDeveloper) toId,
      foundWallet userId coin (fromKind toDeveloper) fromId] (fun ws => ws = []) t) :
    (moveBetween refId amount toDeveloper fromId toId : Code (walletStore X) _ _).Leads
      (Transferring refId walletId userId coin amount toDeveloper) Concludes t := by
  have hφ (t : List (Did (sig (walletStore X)))) (st : WalletStmt X) :
      Transferring refId walletId userId coin amount toDeveloper t (.tx st) := trivial
  unfold moveBetween
  refine GoesOn.bind (GoesOn.mapErr WalletError.ledger (onlyReads_lockWallets hφ _ _ _ _ h))
    fun _ t h => ?_
  refine GoesOn.bind (GoesOn.mapErr WalletError.ledger (ongoing_applyLedgerEntry hφ h _))
    fun _ t h => ?_
  refine GoesOn.bind (GoesOn.mapErr WalletError.ledger (ongoing_applyLedgerEntry hφ h _))
    fun _ t h => ?_
  refine leads_commit ⟨ha, fromId, toId, h.seen, h.fine, h.creates, h.uncommitted, fun ws hw => ?_⟩
    List.mem_cons_self fun e => uncommitted_error h.uncommitted e
  obtain ⟨_, n, ⟨_, m, rfl, hm, rfl⟩, hn, rfl⟩ := h.wrote ws hw
  -- what is taken is what is given, since rounding does not depend on the sign
  obtain rfl : m = -n := by
    have hm : numeric39 (-amount) = some m := hm
    have hn : numeric39 amount = some n := hn
    rw [numeric39_neg, hn] at hm
    exact (Option.some.inj hm).symm
  exact ⟨n, hn, rfl⟩

theorem leads_transferBetweenKinds :
    (transferBetweenKinds refId amount toDeveloper walletId userId coin :
      Code (walletStore X) _ _).Leads
      (Transferring refId walletId userId coin amount toDeveloper) Concludes [] := by
  unfold transferBetweenKinds
  split
  · exact List.not_mem_nil
  rename_i ha
  have found (kind : WalletKind) (ws : List (Write X)) (a : Option Uuid) (ws' : List CoreWrite)
      (c : Core) (hw : ws = []) (he : .ok (a, ws') ∈ (CoreStmt.walletOf userId coin kind).eval c) :
      ws ++ ws'.map .core = [] := by
    obtain ⟨-, rfl⟩ := Prod.mk.inj (Except.ok.inj (List.mem_singleton.1 he))
    simp [hw]
  refine Prog.Leads.bind (fun _ t h => ?_) (fun e t h => ?_) (leads_poolQuery rfl)
  · obtain ⟨a, -, rfl⟩ := h.resolve_right (by simp)
    refine leads_transaction (Q := Concludes) trivial (fun _ => trivial) ?_ (fun t r h => ?_)
      fun e => by simp [Concludes, GoesOn, Uncommitted]
    · have begun : Ongoing (X := X) [] (fun ws => ws = []) [⟨.begin, .ok ()⟩,
          ⟨.pool (.insertWallet walletId userId coin .merchant), .ok a⟩] := by
        refine ⟨by simp, .begin _, by simp [Creates], by simp [Uncommitted], fun ws hw => ?_⟩
        cases hw
        rfl
      refine GoesOn.bind (ongoing_query (V := fun ws => ws = []) (fun _ _ => trivial) begun
        (found _)) fun fromId t h => ?_
      refine GoesOn.bind (ongoing_query (V := fun ws => ws = []) (fun _ _ => trivial) h (found _))
        fun toId t h => ?_
      cases fromId with
      | none => exact h.uncommitted
      | some fromId =>
        cases toId with
        | none => exact h.uncommitted
        | some toId => exact leads_moveBetween (not_le.1 ha) h
    · cases r with
      | ok a => exact List.mem_cons_of_mem _ h
      | error e => exact uncommitted_cons h (by simp)
  · obtain ⟨e, -, rfl⟩ := h.resolve_left (by simp)
    show Uncommitted _
    simp [Uncommitted]

end

/-! ## What a transfer does to the store -/

/-- What the user has of the coin, in wallets of any kind. -/
def Core.totalOf (c : Core) (userId : Uuid) (coin : Coin) : ℤ :=
  sumWhere (fun e => (c.wallets.lookup e.walletId).any fun w =>
    w.userId == userId && w.coin == coin) c.ledger

/-- `n`, which is the amount as the column stores it, is moved from the one wallet of the user
to the other, and that is all. -/
structure MovedBetween (refId userId : Uuid) (coin : Coin) (amount : ℚ) (toDeveloper : Bool)
    (fromId toId : Uuid) (n : ℤ) (db db' : Db X) : Prop where
  stored : numeric39 amount = some n
  nonneg : 0 ≤ n
  pos : 1 / 2 ≤ amount → 0 < n
  fromOwner : walletOwner db fromId = some (userId, coin, fromKind toDeveloper)
  toOwner : walletOwner db toId = some (userId, coin, toKind toDeveloper)
  entries : db' = db.addEntries (transferEntries refId amount toDeveloper fromId toId n).reverse
  debit : db'.core.balance fromId = db.core.balance fromId - n
  credit : db'.core.balance toId = db.core.balance toId + n
  others : ∀ id, id ≠ fromId → id ≠ toId → db'.core.balance id = db.core.balance id
  total : ∀ u c, db'.core.totalOf u c = db.core.totalOf u c

/-- An empty wallet of the user has been made where there was none, and that is all. -/
structure Made (walletId userId : Uuid) (coin : Coin) (db db' : Db X) : Prop where
  absent : db.core.walletOf userId coin .merchant = none
  fresh : walletOwner db walletId = none
  made : db' = Write.apply (.core (.putWallet walletId ⟨userId, coin, .merchant, none⟩)) db

theorem fromKind_ne_toKind (b : Bool) : fromKind b ≠ toKind b := by cases b <;> decide

theorem roundHalfAway_pos {q : ℚ} (h : 1 / 2 ≤ q) : 0 < roundHalfAway q := by
  unfold roundHalfAway
  rw [if_pos (by linarith)]
  exact Int.floor_pos.2 (by linarith)

theorem moved_of_entries {refId userId fromId toId : Uuid} {coin : Coin} {amount : ℚ}
    {toDeveloper : Bool} {n : ℤ} {db : Db X} (ha : 0 < amount) (hn : numeric39 amount = some n)
    (hf : walletOwner db fromId = some (userId, coin, fromKind toDeveloper))
    (ht : walletOwner db toId = some (userId, coin, toKind toDeveloper)) :
    MovedBetween refId userId coin amount toDeveloper fromId toId n db
      (db.addEntries (transferEntries refId amount toDeveloper fromId toId n).reverse) := by
  have hne : fromId ≠ toId := by
    rintro rfl
    have := hf.symm.trans ht
    simp only [Option.some.injEq, Prod.mk.injEq, true_and] at this
    exact fromKind_ne_toKind _ this
  have hr : roundHalfAway amount = n := (numeric39_eq_some.1 hn).1
  have sum (q : LedgerEntry → Bool) (l : List LedgerEntry) : sumWhere q
      ((transferEntries refId amount toDeveloper fromId toId n).reverse ++ l) =
      (if q ((ownTransferIn refId amount toDeveloper toId).entry n) then n else 0) +
        ((if q ((ownTransferOut refId amount toDeveloper fromId).entry (-n)) then -n else 0) +
          sumWhere q l) := rfl
  have balance (id : Uuid) : (db.addEntries
      (transferEntries refId amount toDeveloper fromId toId n).reverse).core.balance id =
      (if toId == id then n else 0) + ((if fromId == id then -n else 0) + db.core.balance id) :=
    sum _ _
  refine ⟨hn, ?_, fun h => hr ▸ roundHalfAway_pos h, hf, ht, rfl, ?_, ?_, fun id h₁ h₂ => ?_,
    fun u c => ?_⟩
  · rw [← hr, roundHalfAway_nonneg_iff]
    linarith
  · rw [balance, if_neg (by simpa using Ne.symm hne), if_pos (by simp)]
    omega
  · rw [balance, if_pos (by simp), if_neg (by simpa using hne)]
    omega
  · rw [balance, if_neg (by simpa using Ne.symm h₂), if_neg (by simpa using Ne.symm h₁)]
    omega
  · -- the two wallets are of one user and coin
    obtain ⟨w, hw, hwo⟩ := Option.map_eq_some_iff.1 hf
    obtain ⟨v, hv, hvo⟩ := Option.map_eq_some_iff.1 ht
    simp only [Wallet.owner, Prod.mk.injEq] at hwo hvo
    refine (sum _ _).trans ?_
    show (if ((db.core.wallets.lookup toId).any _) = true then n else 0) +
      ((if ((db.core.wallets.lookup fromId).any _) = true then -n else 0) + db.core.totalOf u c) = _
    rw [hw, hv]
    simp only [Option.any_some, hwo.1, hwo.2.1, hvo.1, hvo.2.1]
    split <;> omega

/-! ## A transfer among others -/

section
variable {main : Prog (sig (walletStore X)) Empty Unit → Prop} {db : Db X}
  {w₀ w w' : World (machine (walletStore X))} {p : Nat}
variable {refId walletId userId : Uuid} {coin : Coin} {amount : ℚ} {toDeveloper : Bool}

/-- A run in which `p` is started with `c`, whatever has run before and runs beside. -/
def Started (main : Prog (sig (walletStore X)) Empty Unit → Prop) (db : Db X) (p : Nat)
    (c : Code (walletStore X) WalletError Unit) (w : World (machine (walletStore X))) : Prop :=
  ∃ w₀, Run main (anyStep _) db w₀ ∧ w₀.proc p = .fresh ∧
    Steps (machine (walletStore X)) main (anyStep _) (w₀.start p c.spawn) w

theorem Started.after {c : Code (walletStore X) WalletError Unit} (h : Started main db p c w)
    (he : w.proc p = .running (.ret ())) : ∃ r, c.After (doneBy p w.conf.hist) (.ofExcept r) := by
  obtain ⟨w₀, h₀, hp, hs⟩ := h
  have hfresh := fits_of_steps h₀ p
  rw [hp] at hfresh
  exact after_of_started hfresh hs he

variable (h : Started main db p
  (transferBetweenKinds refId amount toDeveloper walletId userId coin) w)
include h

theorem Started.opened : ReadCommitted.Opened w.conf := by
  obtain ⟨w₀, h₀, -, hs⟩ := h
  have h₁ : ReadCommitted.Opened w₀.conf := opened_of_steps (opened_init (S := walletStore X) db) h₀
  exact opened_of_steps (show ReadCommitted.Opened (w₀.start p _).conf from h₁) hs

theorem Started.owners : Owners w.conf := by
  obtain ⟨w₀, h₀, -, hs⟩ := h
  have h₁ : Owners w₀.conf := owners_of_steps (owners_init db) h₀
  exact owners_of_steps (show Owners (w₀.start p _).conf from h₁) hs

/-- What it does is what a transfer does there. -/
theorem Started.heeds {o : Op (walletStore X)} {k : Op.Resp (walletStore X) o → _}
    (ho : w.proc p = .running (.op o k)) :
    Transferring refId walletId userId coin amount toDeveloper (doneBy p w.conf.hist) o := by
  obtain ⟨w₀, h₀, hp, hs⟩ := h
  have hfresh := fits_of_steps h₀ p
  rw [hp] at hfresh
  rcases leads_of_started (Prog.Leads.spawn leads_transferBetweenKinds) hfresh hs with
    hd | ⟨c', hr, hl⟩
  · rw [hd] at ho
    cases ho
  · obtain rfl : c' = .op o k := by simpa [hr] using ho
    exact hl.1

theorem Started.moved (hs : Step (machine (walletStore X)) main (anyStep _) w w')
    (he : w'.conf.hist = .did p .commit (.ok ()) :: w.conf.hist) :
    .did p .commit (.ok ()) ∉ w.conf.hist ∧ ∃ fromId toId n,
      MovedBetween refId userId coin amount toDeveloper fromId toId n w.conf.s.db w'.conf.s.db := by
  obtain ⟨k, hk, hx⟩ := act_of_hist hs he
  obtain ⟨ha, fromId, toId, hg⟩ := h.heeds hk
  refine ⟨fun hm => hg.uncommitted (mem_doneBy_of_did hm), fromId, toId, ?_⟩
  have committed {s s' : State (walletStore X)} (hx : Exec p .commit s (.ok ()) s') :
      ∃ t, s.tx p = some t ∧ s'.db = t.view s.db := by
    cases hx with
    | commit_ok _ t ht => exact ⟨t, ht, rfl⟩
  obtain ⟨t, ht, hdb⟩ := committed hx
  have going : t.aborted = false := by
    by_contra hab
    exact h.opened.failed p t ht (by simpa using hab) hg.fine
  obtain ⟨n, hn, hw⟩ := hg.wrote _ (h.opened.wrote p t ht going)
  refine ⟨n, ?_⟩
  have hdb : w'.conf.s.db = w.conf.s.db.addEntries
      (transferEntries refId amount toDeveloper fromId toId n).reverse := by
    rw [hdb, Tx.view, hw]
    rfl
  rw [hdb]
  exact moved_of_entries ha hn
    (h.owners.found p _ _ _ _ (hg.seen _ (by simp [foundWallet])) hg.creates)
    (h.owners.found p _ _ _ _ (hg.seen _ (by simp [foundWallet])) hg.creates)

theorem Started.kept (hs : Step (machine (walletStore X)) main (anyStep _) w w')
    {e : Event (sig (walletStore X))} (he : w'.conf.hist = e :: w.conf.hist) (hp : e.pid = some p)
    (hc : e ≠ .did p .commit (.ok ())) :
    w'.conf.s.db = w.conf.s.db ∨ Made walletId userId coin w.conf.s.db w'.conf.s.db := by
  cases hs with
  | start q c hq hm => exact absurd he (by simp)
  | finish q hq hc' | crash q c hq hc' => exact .inl rfl
  | env s hx hc' =>
    cases he
    cases hp
  | act q o k r s hq hx hc' =>
    cases he
    obtain rfl := Option.some.inj hp
    have ho := h.heeds hq
    cases hx with
    | commit_ok => exact absurd rfl hc
    | pool_ok _ st a ws hf hev =>
      obtain rfl : st = .insertWallet walletId userId coin .merchant := ho
      have hev : .ok (a, ws) ∈
        (WalletStmt.insertWallet walletId userId coin .merchant).eval w.conf.s.db := hev
      simp only [WalletStmt.eval] at hev
      split at hev
      · cases List.mem_singleton.1 hev
        exact .inl rfl
      · rename_i hnew
        split at hev
        · cases List.mem_singleton.1 hev
        · rename_i hid
          rcases List.mem_cons.1 hev with hev | hev
          · cases hev
            exact .inr ⟨by simpa using hnew, by simpa [walletOwner] using hid, rfl⟩
          · cases List.mem_singleton.1 hev
    | _ => exact .inl rfl

omit h

/-- A transfer succeeds where it has committed. -/
theorem isOk_iff_committed {r : Except WalletError Unit}
    (ha : (transferBetweenKinds refId amount toDeveloper walletId userId coin).After
      (doneBy p w.conf.hist) (.ofExcept r)) :
    r.isOk ↔ .did p .commit (.ok ()) ∈ w.conf.hist := by
  have hl := leads_transferBetweenKinds.after ha
  cases r with
  | ok a => exact iff_of_true rfl (did_of_mem_doneBy hl)
  | error e =>
    exact iff_of_false (by simp [Except.isOk, Except.toBool]) fun hm => hl (mem_doneBy_of_did hm)

/-- Among any others, a transfer moves money only where it commits, from one wallet of the user
to another, and once. Else it changes nothing, but that it makes the user's merchant wallet. It
succeeds where it has committed. -/
theorem transfer_conserves
    (h : Started main db p (transferBetweenKinds refId amount toDeveloper walletId userId coin) w) :
    (∀ w', Step (machine (walletStore X)) main (anyStep _) w w' →
      w'.conf.hist = .did p .commit (.ok ()) :: w.conf.hist →
      .did p .commit (.ok ()) ∉ w.conf.hist ∧ ∃ fromId toId n,
        MovedBetween refId userId coin amount toDeveloper fromId toId n w.conf.s.db w'.conf.s.db) ∧
    (∀ w' e, Step (machine (walletStore X)) main (anyStep _) w w' →
      w'.conf.hist = e :: w.conf.hist → e.pid = some p → e ≠ .did p .commit (.ok ()) →
      w'.conf.s.db = w.conf.s.db ∨ Made walletId userId coin w.conf.s.db w'.conf.s.db) ∧
    ∀ r, (transferBetweenKinds refId amount toDeveloper walletId userId coin).After
      (doneBy p w.conf.hist) (.ofExcept r) → (r.isOk ↔ .did p .commit (.ok ()) ∈ w.conf.hist) :=
  ⟨fun _ hs he => h.moved hs he, fun _ _ hs he hp hc => h.kept hs he hp hc,
    fun _ ha => isOk_iff_committed ha⟩

end

/-! The user with 5 in the personal wallet and no merchant wallet. -/

def transferOfFive (amount : ℚ) : Code (walletStore noExt) WalletError Unit :=
  transferBetweenKinds 3 amount true 2 7 .btc

def startedOfFive (amount : ℚ) : World (machine (walletStore noExt)) :=
  (World.init (machine (walletStore noExt)) (.start walletOfFive)).start 0
    (transferOfFive amount).spawn

def transferRunner : Runner (walletStore noExt) := ⟨1, [], Db.wait, fun _ _ => true⟩

def oneTransfer (n : ℕ) : List (Act (walletStore noExt)) := .replicate n (.op 0 (.go 0))

theorem step_of_runner {w w' : World (machine (walletStore noExt))} {a : Act (walletStore noExt)}
    (hb : Bounded 1 w.conf.s) (h : transferRunner.step w a = some w') :
    Step (machine (walletStore noExt)) (fun _ => False) (anyStep _) w w' ∧ Bounded 1 w'.conf.s :=
  Runner.step_of_step (R := transferRunner) (by simp [transferRunner]) Db.tick_wait
    (fun _ _ _ => trivial) hb h

theorem bounded_of_run {w' : World (machine (walletStore noExt))} :
    ∀ {l : List (Act (walletStore noExt))} {w : World (machine (walletStore noExt))},
      Bounded 1 w.conf.s → transferRunner.run l w = some w' → Bounded 1 w'.conf.s
  | [], _, hb, h => by
    cases h
    exact hb
  | _ :: _, _, hb, h => by
    obtain ⟨w₁, h₁, h₂⟩ := Option.bind_eq_some_iff.1 h
    exact bounded_of_run (step_of_runner hb h₁).2 h₂

theorem started_of_run {amount : ℚ} {n : ℕ} {w : World (machine (walletStore noExt))}
    (h : transferRunner.run (oneTransfer n) (startedOfFive amount) = some w) :
    Started (fun _ => False) walletOfFive 0 (transferOfFive amount) w :=
  ⟨_, .refl, rfl, Runner.steps_of_run (R := transferRunner) (by simp [transferRunner]) Db.tick_wait
    (fun _ _ _ => trivial) (fun _ _ => rfl) h⟩

def justCommitted : Hist (sig (walletStore noExt)) → Bool
  | .did 0 .commit (.ok _) :: _ => true
  | _ => false

theorem hist_of_justCommitted {h : Hist (sig (walletStore noExt))} (hc : justCommitted h = true) :
    ∃ l, h = .did 0 .commit (.ok ()) :: l := by
  unfold justCommitted at hc
  split at hc
  · exact ⟨_, rfl⟩
  · cases hc

def atEnd : Slot (sig (walletStore noExt)) → Bool
  | .running (.ret _) => true
  | _ => false

theorem eq_of_atEnd {s : Slot (sig (walletStore noExt))} (h : atEnd s = true) :
    s = .running (.ret ()) := by
  unfold atEnd at h
  split at h
  · rfl
  · cases h

theorem transfer_conserves_three : ∃ w w' : World (machine (walletStore noExt)),
    Started (fun _ => False) walletOfFive 0 (transferOfFive (5 / 2)) w ∧
    Step (machine (walletStore noExt)) (fun _ => False) (anyStep _) w w' ∧
    w'.conf.s.db.core.balance 1 = 2 ∧ w'.conf.s.db.core.balance 2 = 3 ∧
    ∃ fromId toId n, MovedBetween 3 7 .btc (5 / 2) true fromId toId n w.conf.s.db w'.conf.s.db := by
  have hrun : ((transferRunner.run (oneTransfer 13) (startedOfFive (5 / 2))).bind fun w =>
      (transferRunner.step w (.op 0 (.go 0))).map fun w' =>
        (justCommitted w.conf.hist, justCommitted w'.conf.hist, w'.conf.s.db.core.balance 1,
          w'.conf.s.db.core.balance 2)) = some (false, true, 2, 3) := by decide +kernel
  obtain ⟨w, hw, hrun⟩ := Option.bind_eq_some_iff.1 hrun
  obtain ⟨w', hw', hrun⟩ := Option.map_eq_some_iff.1 hrun
  obtain ⟨h₀, h₁, h₂, h₃⟩ := by simpa only [Prod.mk.injEq] using hrun
  have hs := started_of_run hw
  have step := (step_of_runner (bounded_of_run (fun _ _ => rfl) hw) hw').1
  refine ⟨w, w', hs, step, h₂, h₃, ?_⟩
  obtain ⟨l, hl⟩ := hist_of_justCommitted h₁
  rcases hist_of_step step with he | ⟨e, he⟩
  · rw [he] at h₁
    rw [h₁] at h₀
    cases h₀
  · have hc := he
    rw [hl] at hc
    obtain ⟨rfl, rfl⟩ := List.cons.inj hc
    exact ((transfer_conserves hs).1 w' step he).2

/-- A transfer that fails leaves the merchant wallet it has made, and one of less than a half moves
nothing. -/
theorem failed_transfer_makes_wallet : (∃ w : World (machine (walletStore noExt)),
    Started (fun _ => False) walletOfFive 0 (transferOfFive 6) w ∧
    (∃ e, (transferOfFive 6).After (doneBy 0 w.conf.hist) (.throw e)) ∧
    walletOfFive.core.walletOf 7 .btc .merchant = none ∧
    w.conf.s.db.core.walletOf 7 .btc .merchant = some 2) ∧
    ∃ w : World (machine (walletStore noExt)),
      Started (fun _ => False) walletOfFive 0 (transferOfFive (2 / 5)) w ∧
      (transferOfFive (2 / 5)).After (doneBy 0 w.conf.hist) (.ret ()) ∧
      w.conf.s.db.core.balance 1 = walletOfFive.core.balance 1 ∧
      w.conf.s.db.core.balance 2 = walletOfFive.core.balance 2 := by
  constructor
  · have hrun : ((transferRunner.run (oneTransfer 10) (startedOfFive 6)).map fun w =>
        (atEnd (w.proc 0), w.conf.hist.all fun e => !justCommitted [e],
          w.conf.s.db.core.walletOf 7 .btc .merchant)) = some (true, true, some 2) := by
      decide +kernel
    obtain ⟨w, hw, hrun⟩ := Option.map_eq_some_iff.1 hrun
    obtain ⟨h₁, h₂, h₃⟩ := by simpa only [Prod.mk.injEq] using hrun
    have hs := started_of_run hw
    refine ⟨w, hs, ?_, by decide, h₃⟩
    obtain ⟨r, hr⟩ := hs.after (eq_of_atEnd h₁)
    cases r with
    | error e => exact ⟨e, hr⟩
    | ok a =>
      have hc := List.all_eq_true.1 h₂ _ ((isOk_iff_committed hr).1 rfl)
      cases hc
  · have hrun : ((transferRunner.run (oneTransfer 15) (startedOfFive (2 / 5))).map fun w =>
        (atEnd (w.proc 0), w.conf.hist.any fun e => justCommitted [e],
          w.conf.s.db.core.balance 1, w.conf.s.db.core.balance 2)) = some (true, true, 5, 0) := by
      decide +kernel
    obtain ⟨w, hw, hrun⟩ := Option.map_eq_some_iff.1 hrun
    obtain ⟨h₁, h₂, h₃, h₄⟩ := by simpa only [Prod.mk.injEq] using hrun
    have hs := started_of_run hw
    refine ⟨w, hs, ?_, h₃.trans (by decide), h₄.trans (by decide)⟩
    obtain ⟨r, hr⟩ := hs.after (eq_of_atEnd h₁)
    obtain ⟨e, he, hc⟩ := List.any_eq_true.1 h₂
    obtain ⟨l, hl⟩ := hist_of_justCommitted hc
    obtain ⟨rfl, -⟩ := List.cons.inj hl
    cases r with
    | ok a => exact hr
    | error e => cases (isOk_iff_committed hr).2 he

end SatsPay
