import SatsPay.Balances

/-!
# Protocols on a part of the store

A `Focus` is what is seen of the store, with what each write does to it. A
`Plan` is an invariant of what is seen and of the history, with what each process
may rely on. The writes of a transaction act on what is seen as one function, and
the rules below follow that function from statement to statement to the commit.
-/

namespace SatsPay

open Interleave ReadCommitted RowProtocol

structure Focus (X : Ext) where
  View : Type
  see : Db X → View
  act : Write X → View → View
  see_apply : ∀ w db, see (w.apply db) = act w (see db)
  see_tick : ∀ db db' : Db X, db.tick db' → see db' = see db

section
variable {X : Ext} (F : Focus X)

def Focus.acts (ws : List (Write X)) (v : F.View) : F.View := ws.foldl (fun v w => F.act w v) v

theorem Focus.acts_nil : F.acts [] = id := rfl

theorem Focus.acts_one (w : Write X) : F.acts [w] = F.act w := rfl

theorem Focus.acts_append (ws ws' : List (Write X)) :
    F.acts (ws ++ ws') = F.acts ws' ∘ F.acts ws := funext fun _ => List.foldl_append

theorem Focus.see_viewOf : ∀ (ws : List (Write X)) (db : Db X),
    F.see (viewOf ws db) = F.acts ws (F.see db)
  | [], _ => rfl
  | w :: ws, db => by
    show F.see (viewOf ws (w.apply db)) = F.acts ws (F.act w (F.see db))
    rw [Focus.see_viewOf ws, F.see_apply]

/-- A transaction only adds entries. -/
theorem ledger_subset_viewOf : ∀ (ws : List (Write X)) (db : Db X),
    db.core.ledger ⊆ (viewOf ws db).core.ledger
  | [], _ => List.Subset.refl _
  | w :: ws, db => by
    refine List.Subset.trans ?_ (ledger_subset_viewOf ws (w.apply db))
    cases w with
    | ext w => exact List.Subset.refl _
    | core w =>
      cases w with
      | addEntry e => exact List.subset_cons_self _ _
      | _ => exact List.Subset.refl _

def Focus.Aside (st : Stmt X) : Prop :=
  ∀ (db : Db X) (a : st.Ans) (ws : List (Write X)),
    .ok (a, ws) ∈ (satsPay X).eval st db → F.acts ws = id

theorem Focus.aside_of_reads {st : Stmt X}
    (h : ∀ (db : Db X) (a : st.Ans) (ws : List (Write X)),
      .ok (a, ws) ∈ (satsPay X).eval st db → ws = []) : F.Aside st := by
  intro db a ws he
  rw [h db a ws he]
  exact F.acts_nil

structure Focus.IgnoresQueue : Prop where
  putJob : ∀ i j, F.act (.core (.putJob i j)) = id
  addOutbox : ∀ event, F.act (.core (.addOutbox event)) = id
  addAudit : ∀ log, F.act (.core (.addAudit log)) = id

theorem Focus.aside_core (hF : F.IgnoresQueue) {st : CoreStmt}
    (hentry : ∀ input, st ≠ .insertLedgerEntry input) (hhold : ∀ i, st ≠ .setReorgHold i) :
    F.Aside (.core st) := by
  intro db a ws h
  obtain ⟨ws', h', rfl⟩ := core_eval_ok h
  cases st with
  | insertLedgerEntry input => exact absurd rfl (hentry input)
  | setReorgHold i => exact absurd rfl (hhold i)
  | insertOutbox event => cases List.mem_singleton.1 h'; exact hF.addOutbox _
  | insertAudit log => cases List.mem_singleton.1 h'; exact hF.addAudit _
  | enqueue jobType payload => cases List.mem_singleton.1 h'; exact hF.putJob _ _
  | claimNext jobType lockedBy =>
    simp only [CoreStmt.eval] at h'
    split at h'
    · cases List.mem_singleton.1 h'; exact F.acts_nil
    · obtain ⟨j, -, hj⟩ := List.mem_map.1 h'
      cases hj
      exact hF.putJob _ _
  | completeJob i | failJob i error =>
    cases List.mem_singleton.1 h'
    split
    · exact hF.putJob _ _
    · exact F.acts_nil
  | _ => cases List.mem_singleton.1 h'; exact F.acts_nil

end

structure Plan {X : Ext} (F : Focus X)
    (cond : Db X → Hist (sig (satsPay X)) → Event (sig (satsPay X)) → Prop) where
  inv : F.View → Hist (sig (satsPay X)) → Prop
  rel : Nat → F.View → Hist (sig (satsPay X)) → F.View → Hist (sig (satsPay X)) → Prop
  done : Nat → F.View → Hist (sig (satsPay X)) → Prop
  /-- Events that change nothing of the invariant. -/
  quiet : Event (sig (satsPay X)) → Prop
  rel_refl (p : Nat) (v : F.View) (h : Hist (sig (satsPay X))) : rel p v h v h
  rel_trans (p : Nat) {v₁ v₂ v₃ : F.View} {h₁ h₂ h₃ : Hist (sig (satsPay X))} :
    rel p v₁ h₁ v₂ h₂ → rel p v₂ h₂ v₃ h₃ → rel p v₁ h₁ v₃ h₃
  quiet_begin (p : Nat) (r : Except DbError Unit) : quiet (.did p .begin r)
  quiet_rollback (p : Nat) : quiet (.did p .rollback ())
  quiet_tx (p : Nat) (st : Stmt X) (r : Except DbError st.Ans) : quiet (.did p (.tx st) r)
  quiet_commit (p : Nat) (e : DbError) : quiet (.did p .commit (.error e))
  inv_quiet {v : F.View} {h : Hist (sig (satsPay X))} {e : Event (sig (satsPay X))} :
    quiet e → inv v h → inv v (e :: h)
  rel_quiet {v : F.View} {h : Hist (sig (satsPay X))} {e : Event (sig (satsPay X))} {q : Nat} :
    quiet e → inv v h → e.pid ≠ some q → rel q v h v (e :: h)
  finish {p : Nat} {db : Db X} {h : Hist (sig (satsPay X))} : inv (F.see db) h →
    done p (F.see db) h → cond db h (.ended p) → inv (F.see db) (.ended p :: h) ∧
    ∀ q, q ≠ p → rel q (F.see db) h (F.see db) (.ended p :: h)
  crash {p : Nat} {db : Db X} {h : Hist (sig (satsPay X))} : inv (F.see db) h →
    cond db h (.crashed p) → inv (F.see db) (.crashed p :: h) ∧
    ∀ q, q ≠ p → rel q (F.see db) h (F.see db) (.crashed p :: h)
  tick {db : Db X} {h : Hist (sig (satsPay X))} : inv (F.see db) h → cond db h .ticked →
    inv (F.see db) (.ticked :: h) ∧ ∀ q, rel q (F.see db) h (F.see db) (.ticked :: h)

namespace Plan

section
variable {X : Ext} {F : Focus X}
variable {cond : Db X → Hist (sig (satsPay X)) → Event (sig (satsPay X)) → Prop}

/-- A plan that does not speak of the history. -/
def ofState (cond : Db X → Hist (sig (satsPay X)) → Event (sig (satsPay X)) → Prop)
    (I : F.View → Prop) (T : F.View → F.View → Prop) (hrefl : ∀ v, T v v)
    (htrans : ∀ v₁ v₂ v₃, T v₁ v₂ → T v₂ v₃ → T v₁ v₃) : Plan F cond where
  inv v _ := I v
  rel _ v _ v' _ := T v v'
  done _ _ _ := True
  quiet _ := True
  rel_refl _ v _ := hrefl v
  rel_trans _ _ _ _ _ _ _ := htrans _ _ _
  quiet_begin _ _ := trivial
  quiet_rollback _ := trivial
  quiet_tx _ _ _ := trivial
  quiet_commit _ _ := trivial
  inv_quiet _ h := h
  rel_quiet _ _ _ := hrefl _
  finish h _ _ := ⟨h, fun _ _ => hrefl _⟩
  crash h _ := ⟨h, fun _ _ => hrefl _⟩
  tick h _ := ⟨h, fun _ => hrefl _⟩

variable (P : Plan F cond)

/-- The plan as a protocol of the store, in which nobody makes or removes wallets. -/
def rows : RowProtocol (satsPay X) cond where
  inv db h := P.inv (F.see db) h
  rel p db h db' h' :=
    (∀ id, (db'.core.wallets.lookup id).isSome = (db.core.wallets.lookup id).isSome) ∧
    P.rel p (F.see db) h (F.see db') h'
  done p db h := P.done p (F.see db) h
  quiet := P.quiet
  rel_refl p db h := ⟨fun _ => rfl, P.rel_refl _ _ _⟩
  rel_trans p _ _ _ _ _ _ a b := ⟨fun id => (b.1 id).trans (a.1 id), P.rel_trans p a.2 b.2⟩
  quiet_begin := P.quiet_begin
  quiet_rollback := P.quiet_rollback
  quiet_tx := P.quiet_tx
  quiet_commit := P.quiet_commit
  inv_quiet := P.inv_quiet
  rel_quiet hq hi he := ⟨fun _ => rfl, P.rel_quiet hq hi he⟩
  finish hi hd hc := by
    obtain ⟨h₁, h₂⟩ := P.finish hi hd hc
    exact ⟨h₁, fun q hq => ⟨fun _ => rfl, h₂ q hq⟩⟩
  crash hi hc := by
    obtain ⟨h₁, h₂⟩ := P.crash hi hc
    exact ⟨h₁, fun q hq => ⟨fun _ => rfl, h₂ q hq⟩⟩
  env := by
    intro db db' h hi ht hc
    obtain ⟨h₁, h₂⟩ := P.tick hi hc
    rw [F.see_tick db db' ht]
    obtain ⟨t, -, rfl⟩ := ht
    exact ⟨h₁, fun q => ⟨fun _ => rfl, h₂ q⟩⟩

abbrev Keeping (p : Nat) {ε α : Type} (A : Conf (machine (satsPay X)) → Prop)
    (x : Code (satsPay X) ε α) (Q : Except ε α → Conf (machine (satsPay X)) → Prop) : Prop :=
  P.rows.toProtocol.Triple p A x Q

/-- With event `e`, `p` may change what is seen as `M` says. -/
def Takes (p : Nat) (B : Hist (sig (satsPay X)) → Prop) (e : Event (sig (satsPay X)))
    (M : F.View → F.View → Prop) : Prop :=
  ∀ db h v, P.inv (F.see db) h → B h → cond db h e → M (F.see db) v →
    P.inv v (e :: h) ∧ ∀ q, q ≠ p → P.rel q (F.see db) h v (e :: h)

abbrev KeyAssertion (X : Ext) := List (Key X) → Db X → Hist (sig (satsPay X)) → Prop

structure Keeps (p : Nat) (A : KeyAssertion X) : Prop where
  framed : P.rows.FramedTx p fun _ => A
  mono : ∀ ks ks' db h, A ks db h → A (ks ++ ks') db h

/-- The writes act as `f` on what is seen, and make no wallet. -/
structure Eff (F : Focus X) (f : F.View → F.View) (A : KeyAssertion X) (ws : List (Write X))
    (ks : List (Key X)) (db : Db X) (h : Hist (sig (satsPay X))) : Prop where
  acts : F.acts ws = f
  wallets : ∀ id, ((viewOf ws db).core.wallets.lookup id).isSome =
    (db.core.wallets.lookup id).isSome
  left : A ks db h

variable {P} {p : Nat} {f : F.View → F.View} {A : KeyAssertion X} {B : Assertion X}

theorem Eff.see {ws : List (Write X)} {ks : List (Key X)} {db : Db X}
    {h : Hist (sig (satsPay X))} (hg : Eff F f A ws ks db h) :
    F.see (viewOf ws db) = f (F.see db) := by
  rw [F.see_viewOf, hg.acts]

theorem keepsWallets_rows : KeepsWallets P.rows p := fun _ _ _ _ h => h.1

theorem keeps_of_framed (hB : P.rows.Framed p B) : P.Keeps p fun _ => B :=
  ⟨hB.inTx, fun _ _ _ _ h => h⟩

theorem Keeps.and {A' : KeyAssertion X} (hA : P.Keeps p A) (hA' : P.Keeps p A') :
    P.Keeps p fun ks db h => A ks db h ∧ A' ks db h where
  framed :=
    { stable := fun ws _ _ _ _ _ hg hk hr he hi =>
        ⟨hA.framed.stable ws _ _ _ _ _ hg.1 hk hr he hi,
          hA'.framed.stable ws _ _ _ _ _ hg.2 hk hr he hi⟩
      own := fun ws _ _ _ _ hq he hg =>
        ⟨hA.framed.own ws _ _ _ _ hq he hg.1, hA'.framed.own ws _ _ _ _ hq he hg.2⟩ }
  mono ks ks' db h hg := ⟨hA.mono ks ks' db h hg.1, hA'.mono ks ks' db h hg.2⟩

theorem keeps_fact (φ : Prop) : P.Keeps p fun _ _ _ => φ where
  framed := ⟨fun _ _ _ _ _ _ hg _ _ _ _ => hg, fun _ _ _ _ _ _ _ hg => hg⟩
  mono _ _ _ _ hg := hg

/-- What is read of a row that is locked. -/
theorem keeps_row (k : Key X) (φ : k.Row → Prop) :
    P.Keeps p fun ks db _ => k ∈ ks ∧ φ (k.row db) where
  framed :=
    { stable := fun ws ks db h db' h' hg hk _ _ _ => by
        refine ⟨hg.1, ?_⟩
        rw [show k.row db' = k.row db from hk k hg.1]
        exact hg.2
      own := fun _ _ _ _ _ _ _ hg => hg }
  mono _ _ _ _ hg := ⟨List.mem_append_left _ hg.1, hg.2⟩

theorem framed_eff (hA : P.Keeps p A) : P.rows.FramedTx p (Eff F f A) where
  stable ws ks db h db' h' hg hk hr he hi :=
    { acts := hg.acts
      wallets := fun id => by
        rw [isSome_wallets_applyAll ws (hr.1 id), hr.1 id]
        exact hg.wallets id
      left := hA.framed.stable ws _ _ _ _ _ hg.left hk hr he hi }
  own ws ks db h e hq he hg := ⟨hg.acts, hg.wallets, hA.framed.own ws _ _ _ _ hq he hg.left⟩

theorem inTx_imp {C : KeyAssertion X} {c : Conf (machine (satsPay X))}
    (hAC : ∀ ks db h, A ks db h → C ks db h) (hc : InTx p (Eff F f A) c) :
    InTx p (Eff F f C) c := by
  obtain ⟨t, ht, hg⟩ := hc
  exact ⟨t, ht, hg.acts, hg.wallets, hAC _ _ _ hg.left⟩

/-- What a statement that makes no ledger entry adds. -/
theorem Eff.append {st : Stmt X} (hst : ∀ input, st ≠ .core (.insertLedgerEntry input))
    {g : F.View → F.View} {A' : KeyAssertion X} {ws ws' : List (Write X)} {ks ks' : List (Key X)}
    {db : Db X} {h : Hist (sig (satsPay X))} {a : st.Ans} (hg : Eff F f A ws ks db h)
    (he : .ok (a, ws') ∈ (satsPay X).eval st (viewOf ws db)) (hw : F.acts ws' = g)
    (hA' : A' ks' db h) : Eff F (g ∘ f) A' (ws ++ ws') ks' db h where
  acts := by rw [F.acts_append, hw, hg.acts]
  wallets id := by
    rw [viewOf, applyAll_append, (harmless_applyAll (harmless_of_other hst he)).2]
    exact hg.wallets id
  left := hA'

/-! ## Rules -/

variable {ε : Type}

section
variable [FromErr DbError ε]

/-- A statement whose effect is one of those in `g`. -/
theorem triple_effect (st : Stmt X) (hst : ∀ input, st ≠ .core (.insertLedgerEntry input)) {ι : Type}
    {g : st.Ans → ι → F.View → F.View} {C : st.Ans → ι → KeyAssertion X} (hA : P.Keeps p A)
    (hC : ∀ a x, P.Keeps p (C a x))
    (hok : ∀ ws ks db h a ws', P.inv (F.see db) h → Eff F f A ws ks db h →
      .ok (a, ws') ∈ (satsPay X).eval st (viewOf ws db) →
      ∃ x, F.acts ws' = g a x ∧ C a x (ks ++ st.locks (viewOf ws db)) db h) :
    P.Keeping p (InTx p (Eff F f A)) (query st : Code (satsPay X) ε _)
      (outcome (fun a c => ∃ x, InTx p (Eff F (g a x ∘ f) (C a x)) c)
        fun _ => InTx p fun _ => A) := by
  have post : ∀ a, P.rows.FramedTx p fun ws ks db h => ∃ x, Eff F (g a x ∘ f) (C a x) ws ks db h :=
    fun a =>
      { stable := fun ws ks db h db' h' ⟨x, hg⟩ hk hr he hi =>
          ⟨x, (framed_eff (hC a x)).stable _ _ _ _ _ _ hg hk hr he hi⟩
        own := fun ws ks db h e hq he ⟨x, hg⟩ => ⟨x, (framed_eff (hC a x)).own _ _ _ _ _ hq he hg⟩ }
  refine .conseq (triple_query (S := satsPay X) st post (fun _ => hA.framed) ?_
    fun _ _ _ _ _ _ hg _ => hg.left) (fun _ _ h => h) fun r c _ h => ?_
  · intro ws ks db h a ws' hi hg he
    obtain ⟨x, hw, hC'⟩ := hok ws ks db h a ws' hi hg he
    exact ⟨fun w hw k hk => List.mem_append_right _ (covered_of_other hst he w hw k hk), x,
      hg.append hst he hw hC'⟩
  · cases r with
    | ok a =>
      obtain ⟨t, ht, x, hg⟩ := h
      exact ⟨x, t, ht, hg⟩
    | error _ => exact h

/-- The answer of a statement that only reads, where `φ` says what stays true of it. -/
theorem triple_reading (st : Stmt X) (hst : ∀ input, st ≠ .core (.insertLedgerEntry input))
    (ha : F.Aside st) {φ : st.Ans → KeyAssertion X} (hA : P.Keeps p A)
    (hφ : ∀ a, P.Keeps p (φ a))
    (hok : ∀ ws ks db h a ws', P.inv (F.see db) h → Eff F f A ws ks db h →
      .ok (a, ws') ∈ (satsPay X).eval st (viewOf ws db) →
      φ a (ks ++ st.locks (viewOf ws db)) db h) :
    P.Keeping p (InTx p (Eff F f A)) (query st : Code (satsPay X) ε _)
      (outcome (fun a => InTx p (Eff F f fun ks db h => A ks db h ∧ φ a ks db h))
        fun _ => InTx p fun _ => A) := by
  have run : P.Keeping p (InTx p (Eff F f A)) (query st : Code (satsPay X) ε _)
      (outcome (fun a c => ∃ _ : Unit, InTx p (Eff F (id ∘ f) fun ks db h =>
        A ks db h ∧ φ a ks db h) c) fun _ => InTx p fun _ => A) :=
    triple_effect st hst hA (fun a _ => hA.and (hφ a)) fun ws ks db h a ws' hi hg he =>
      ⟨(), ha _ _ _ he, hA.mono _ _ _ _ hg.left, hok ws ks db h a ws' hi hg he⟩
  refine .conseq run (fun _ _ h => h) fun r _ _ h => ?_
  cases r with
  | ok a =>
    obtain ⟨-, h⟩ := h
    exact h
  | error _ => exact h

theorem triple_aside (st : Stmt X) (hst : ∀ input, st ≠ .core (.insertLedgerEntry input))
    (ha : F.Aside st) (hA : P.Keeps p A) :
    P.Keeping p (InTx p (Eff F f A)) (query st : Code (satsPay X) ε _)
      (outcome (fun _ => InTx p (Eff F f A)) fun _ => InTx p fun _ => A) :=
  .conseq (triple_reading st hst ha hA (fun _ => hA) fun _ _ _ _ _ _ _ hg _ =>
    hA.mono _ _ _ _ hg.left) (fun _ _ h => h) fun r _ _ h => match r with
      | .ok _ => inTx_imp (fun _ _ _ h => h.1) h
      | .error _ => h

/-- The commit: what the writes do to what is seen is done. -/
theorem triple_commit {E : Assertion X} (hB : P.rows.Stable p B) (hE : P.rows.Framed p E)
    (hok : ∀ ks db h, P.inv (F.see db) h → A ks db h → cond db h (.did p .commit (.ok ())) →
      (P.inv (f (F.see db)) (.did p .commit (.ok ()) :: h) ∧
        ∀ q, q ≠ p → P.rel q (F.see db) h (f (F.see db)) (.did p .commit (.ok ()) :: h)) ∧
      ∀ db', F.see db' = f (F.see db) → B db' (.did p .commit (.ok ()) :: h))
    (herr : ∀ ks db h, A ks db h → E db h) :
    P.Keeping p (InTx p (Eff F f A)) (commit : Code (satsPay X) ε Unit)
      (outcome (fun _ => Idle p B) fun _ => Over E) := by
  refine RowProtocol.triple_commit (S := satsPay X) hB (fun _ => hE) ?_
    fun _ _ _ _ _ hg => herr _ _ _ hg.left
  intro ws ks db h hi hg hc
  obtain ⟨⟨h₁, h₂⟩, h₃⟩ := hok ks db h hi hg.left hc
  have hs : F.see (viewOf ws db) = f (F.see db) := hg.see
  refine ⟨⟨?_, fun q hq => ⟨hg.wallets, ?_⟩⟩, h₃ _ hs⟩
  · show P.inv (F.see (viewOf ws db)) _
    rw [hs]; exact h₁
  · show P.rel q _ _ (F.see (viewOf ws db)) _
    rw [hs]; exact h₂ q hq

/-- A commit that leaves what is seen as it is. -/
theorem triple_commit_aside (hq : P.quiet (.did p .commit (.ok ()))) (hB : P.rows.Framed p B)
    (hAB : ∀ ks db h, A ks db h → B db h)
    (hcong : ∀ db db' h, F.see db' = F.see db → B db h → B db' h) :
    P.Keeping p (InTx p (Eff F id A)) (commit : Code (satsPay X) ε Unit)
      (outcome (fun _ => Idle p B) fun _ => Over B) :=
  triple_commit hB.stable hB
    (fun ks db h hi hA _ => ⟨⟨P.inv_quiet hq hi, fun q hne =>
      P.rel_quiet hq hi (by simpa using Ne.symm hne)⟩, fun db' hs =>
        hB.own _ _ _ hq rfl (hcong _ _ _ hs (hAB _ _ _ hA))⟩) hAB

/-- A statement on its own. -/
theorem triple_pool (st : Stmt X) (hst : ∀ input, st ≠ .core (.insertLedgerEntry input))
    {A B : Assertion X} {C : st.Ans → Assertion X} (hC : ∀ a, P.rows.Stable p (C a))
    (hB : P.rows.Stable p B)
    (hok : ∀ db h a ws, P.inv (F.see db) h → A db h → .ok (a, ws) ∈ (satsPay X).eval st db →
      cond db h (.did p (.pool st) (.ok a)) →
      (P.inv (F.acts ws (F.see db)) (.did p (.pool st) (.ok a) :: h) ∧ ∀ q, q ≠ p →
        P.rel q (F.see db) h (F.acts ws (F.see db)) (.did p (.pool st) (.ok a) :: h)) ∧
      C a (viewOf ws db) (.did p (.pool st) (.ok a) :: h))
    (herr : ∀ db h e, P.inv (F.see db) h → A db h → cond db h (.did p (.pool st) (.error e)) →
      (P.inv (F.see db) (.did p (.pool st) (.error e) :: h) ∧ ∀ q, q ≠ p →
        P.rel q (F.see db) h (F.see db) (.did p (.pool st) (.error e) :: h)) ∧
      B db (.did p (.pool st) (.error e) :: h)) :
    P.Keeping p (Idle p A) (poolQuery st : Code (satsPay X) ε _)
      (outcome (fun a => Idle p (C a)) fun _ => Idle p B) := by
  refine triple_poolQuery (S := satsPay X) st hC (fun _ => hB) ?_ ?_
  · intro db h a ws hi hA he hc
    obtain ⟨⟨h₁, h₂⟩, h₃⟩ := hok db h a ws hi hA he hc
    have hw := (harmless_applyAll (harmless_of_other hst he)).2
    refine ⟨⟨fun w hw k hk => covered_of_other hst he w hw k hk, ?_, fun q hq => ⟨hw, ?_⟩⟩, h₃⟩
    · show P.inv (F.see (viewOf ws db)) _
      rw [F.see_viewOf]; exact h₁
    · show P.rel q _ _ (F.see (viewOf ws db)) _
      rw [F.see_viewOf]; exact h₂ q hq
  · intro db h e hi hA _ hc
    obtain ⟨⟨h₁, h₂⟩, h₃⟩ := herr db h e hi hA hc
    exact ⟨⟨h₁, fun q hq => ⟨fun _ => rfl, h₂ q hq⟩⟩, h₃⟩

theorem triple_pool_aside (st : Stmt X) (hst : ∀ input, st ≠ .core (.insertLedgerEntry input))
    (ha : F.Aside st) (hq : ∀ r, P.quiet (.did p (.pool st) r)) (hB : P.rows.Framed p B)
    (hcong : ∀ db db' h, F.see db' = F.see db → B db h → B db' h) :
    P.Keeping p (Idle p B) (poolQuery st : Code (satsPay X) ε _)
      (outcome (fun _ => Idle p B) fun _ => Idle p B) := by
  refine triple_pool st hst (fun _ => hB.stable) hB.stable ?_ ?_
  · intro db h a ws hi hb he _
    have hw : F.acts ws (F.see db) = F.see db := by rw [ha db a ws he]; rfl
    rw [hw]
    refine ⟨⟨P.inv_quiet (hq _) hi, fun q hne => P.rel_quiet (hq _) hi
      (by simpa using Ne.symm hne)⟩, hB.own _ _ _ (hq _) rfl (hcong _ _ _ ?_ hb)⟩
    rw [F.see_viewOf, hw]
  · intro db h e hi hb _
    exact ⟨⟨P.inv_quiet (hq _) hi, fun q hne => P.rel_quiet (hq _) hi
      (by simpa using Ne.symm hne)⟩, hB.own db _ _ (hq _) rfl hb⟩

/-- A transaction, of which nothing is written at first. -/
theorem triple_scope {α : Type} {body : Code (satsPay X) ε α} {Q : Except ε α → Assertion X}
    (hB : P.rows.Framed p B) (hQ : ∀ r, P.rows.Framed p (Q r))
    (hBQ : ∀ e db h, B db h → Q (.error e) db h)
    (hb : P.Keeping p (InTx p (Eff F id fun _ => B)) body fun r => Over (Q r)) :
    P.Keeping p (Idle p B) (transaction body) fun r => Idle p (Q r) := by
  refine triple_transaction hB hQ hBQ (.conseq hb (fun c _ hc => ?_) fun _ _ _ h => h)
  obtain ⟨t, ht, hw, hd⟩ := hc
  refine ⟨t, ht, ?_⟩
  rw [hw]
  exact ⟨F.acts_nil, fun _ => rfl, hd⟩

end

def Fresh (e : LedgerEntry) : KeyAssertion X := fun ks db _ =>
  Key.core e.walletId ∈ ks ∧ (Key.row (.core e.walletId) db).2.any e.clash = false

theorem keeps_fresh (e : LedgerEntry) : P.Keeps p (Fresh e) :=
  keeps_row (.core e.walletId) fun row => row.2.any e.clash = false

/-- `apply_ledger_entry`: one entry, and the first with its reference. -/
theorem triple_apply_fresh {input : LedgerCreditInput} (hA : P.Keeps p A) {g : LedgerError → ε} :
    P.Keeping p (InTx p (Eff F f A)) ((applyLedgerEntry input).mapErr g : Code (satsPay X) ε _)
      (outcome (fun _ c => ∃ n, numeric39 input.amount = some n ∧
        InTx p (Eff F (F.act (.core (.addEntry (input.entry n))) ∘ f) fun ks db h =>
          A ks db h ∧ Fresh (input.entry n) ks db h) c) fun _ => InTx p fun _ => A) := by
  have hfresh : ∀ n, P.Keeps p fun ks db h => A ks db h ∧ Fresh (input.entry n) ks db h :=
    fun n => hA.and (keeps_fresh _)
  have post : P.rows.FramedTx p fun ws ks db h => ∃ n, numeric39 input.amount = some n ∧
      Eff F (F.act (.core (.addEntry (input.entry n))) ∘ f)
        (fun ks db h => A ks db h ∧ Fresh (input.entry n) ks db h) ws ks db h :=
    { stable := fun ws ks db h db' h' ⟨n, hn, hg⟩ hk hr he hi =>
        ⟨n, hn, (framed_eff (hfresh n)).stable _ _ _ _ _ _ hg hk hr he hi⟩
      own := fun ws ks db h e hq he ⟨n, hn, hg⟩ =>
        ⟨n, hn, (framed_eff (hfresh n)).own _ _ _ _ _ hq he hg⟩ }
  have apply : P.Keeping p (InTx p (Eff F f A)) (applyLedgerEntry input)
      (outcome (fun _ => InTx p fun ws ks db h => ∃ n, numeric39 input.amount = some n ∧
        Eff F (F.act (.core (.addEntry (input.entry n))) ∘ f)
          (fun ks db h => A ks db h ∧ Fresh (input.entry n) ks db h) ws ks db h)
        fun _ => InTx p fun _ => A) := by
    refine triple_applyLedgerEntry keepsWallets_rows (framed_eff hA) post
      (fun _ => hA.framed)
      (fun ws ks ks' db h hg => ⟨hg.acts, hg.wallets, hA.mono _ _ _ _ hg.left⟩)
      (fun _ _ _ _ _ _ hg => ⟨hg.left, hg.left⟩) ?_
    intro ws ks db h n _ hg hn hk _ hc
    refine ⟨n, hn, ?_, fun id => ?_, hg.left, hk, ?_⟩
    · rw [F.acts_append, F.acts_one, hg.acts]
    · rw [viewOf, applyAll_append]
      exact hg.wallets id
    · -- what is committed is part of what the transaction sees
      rw [List.any_eq_false] at hc ⊢
      exact fun e he => hc e (ledger_subset_viewOf ws db (List.mem_filter.1 he).1)
  refine triple_mapErr (.conseq apply (fun _ _ h => h) fun r c _ h => ?_) fun _ _ h => h
  cases r with
  | ok _ =>
    obtain ⟨t, ht, n, hn, hg⟩ := h
    exact ⟨n, hn, t, ht, hg⟩
  | error _ => exact h

/-- `apply_ledger_entry`: one entry. -/
theorem triple_apply {input : LedgerCreditInput} (hA : P.Keeps p A) {g : LedgerError → ε} :
    P.Keeping p (InTx p (Eff F f A)) ((applyLedgerEntry input).mapErr g : Code (satsPay X) ε _)
      (outcome (fun _ c => ∃ n, numeric39 input.amount = some n ∧
        InTx p (Eff F (F.act (.core (.addEntry (input.entry n))) ∘ f) fun ks db h =>
          A ks db h ∧ Key.core input.walletId ∈ ks) c) fun _ => InTx p fun _ => A) := by
  refine .conseq (triple_apply_fresh hA) (fun _ _ h => h) fun r c _ h => ?_
  cases r with
  | ok _ =>
    obtain ⟨n, hn, h⟩ := h
    exact ⟨n, hn, inTx_imp (fun _ _ _ h => ⟨h.1, h.2.1⟩) h⟩
  | error _ => exact h

theorem triple_apply_aside {input : LedgerCreditInput} (hA : P.Keeps p A) {g : LedgerError → ε}
    (ha : ∀ n, F.act (.core (.addEntry (input.entry n))) = id) :
    P.Keeping p (InTx p (Eff F f A)) ((applyLedgerEntry input).mapErr g : Code (satsPay X) ε _)
      (outcome (fun _ => InTx p (Eff F f A)) fun _ => InTx p fun _ => A) := by
  refine .conseq (triple_apply hA) (fun _ _ h => h) fun r c _ h => ?_
  cases r with
  | ok _ =>
    obtain ⟨n, -, t, ht, hg⟩ := h
    rw [ha n] at hg
    exact ⟨t, ht, hg.acts, hg.wallets, hg.left.1⟩
  | error _ => exact h

theorem triple_lockWallet {g : LedgerError → ε} (hA : P.Keeps p A) (walletId : Uuid) :
    P.Keeping p (InTx p (Eff F f A)) ((lockWallet walletId).mapErr g : Code (satsPay X) ε _)
      (outcome (fun _ => InTx p (Eff F f A)) fun _ => InTx p fun _ => A) := by
  refine triple_mapErr (.conseq (SatsPay.triple_lockWallet keepsWallets_rows walletId (framed_eff hA)
    (fun _ => hA.framed) (fun _ _ _ _ _ hg => ⟨hg.acts, hg.wallets, hA.mono _ _ _ _ hg.left⟩)
    fun _ _ _ _ _ _ hg => ⟨hg.left, hg.left⟩) (fun _ _ h => h) fun r c _ h => ?_) fun _ _ h => h
  cases r with
  | ok _ =>
    obtain ⟨t, ht, hg⟩ := h
    exact ⟨t, ht, hg.1⟩
  | error _ => exact h

theorem triple_lockWallets {g : LedgerError → ε} (hA : P.Keeps p A) (walletIds : List Uuid) :
    P.Keeping p (InTx p (Eff F f A)) ((lockWallets walletIds).mapErr g : Code (satsPay X) ε _)
      (outcome (fun _ => InTx p (Eff F f A)) fun _ => InTx p fun _ => A) :=
  triple_mapErr (SatsPay.triple_lockWallets keepsWallets_rows (framed_eff hA) (fun _ => hA.framed)
    (fun _ _ _ _ _ hg => ⟨hg.acts, hg.wallets, hA.mono _ _ _ _ hg.left⟩)
    (fun _ _ _ _ _ _ hg => ⟨hg.left, hg.left⟩) walletIds) fun _ _ h => h

/-- A call made in a transaction, that changes nothing of the invariant. -/
theorem triple_call (hA : P.Keeps p A) (cl : X.Call) (hq : ∀ r, P.quiet (.did p (.call cl) r)) :
    P.Keeping p (InTx p (Eff F f A)) (invoke (S := satsPay X) cl : Code (satsPay X) ε _)
      (outcome (fun _ => InTx p (Eff F f A)) fun _ => InTx p fun _ => A) := by
  refine .conseq (triple_invokeTx (S := satsPay X) cl (fun _ => (framed_eff hA).stable) ?_)
    (fun _ _ h => h) fun r _ _ h => match r with
      | .ok _ => h
      | .error _ => h.elim
  intro ws ks db h r hi hg _
  exact ⟨⟨P.inv_quiet (hq r) hi, fun q hne => ⟨fun _ => rfl,
    P.rel_quiet (hq r) hi (by simpa using Ne.symm hne)⟩⟩,
    (framed_eff hA).own _ _ _ _ _ (hq r) rfl hg⟩

/-- A step of a transaction that may fail, and leaves `A` where it does. -/
theorem bind_left {α β : Type} {x : Code (satsPay X) ε α} {g : α → Code (satsPay X) ε β}
    {S : Conf (machine (satsPay X)) → Prop} {T : α → Conf (machine (satsPay X)) → Prop}
    (hx : P.Keeping p S x (outcome T fun _ => InTx p fun _ => A))
    (hg : ∀ a, P.Keeping p (T a) (g a) fun _ => Over B) (hA : ∀ ks db h, A ks db h → B db h) :
    P.Keeping p S (x >>= g) fun _ => Over B :=
  Protocol.Triple.bind hx hg fun _ _ _ ⟨_, _, h⟩ => hA _ _ _ h

/-! ## Programs that leave what is seen alone -/

/-- The program keeps to the plan, and what its process knows of the history stays. -/
def Calm (P : Plan F cond) (p : Nat) (B : Hist (sig (satsPay X)) → Prop) {α : Type}
    (x : Code (satsPay X) ε α) : Prop :=
  P.Keeping p (Idle p fun _ h => B h) x fun _ => Idle p fun _ h => B h

def CalmTx (P : Plan F cond) (p : Nat) (B : Hist (sig (satsPay X)) → Prop) {α : Type}
    (x : Code (satsPay X) ε α) : Prop :=
  P.Keeping p (InTx p (Eff F id fun _ _ h => B h)) x fun _ => Over fun _ h => B h

/-- What `p` knows of the history, which others do not end. -/
abbrev Knows (P : Plan F cond) (p : Nat) (B : Hist (sig (satsPay X)) → Prop) : Prop :=
  P.rows.Framed p fun _ h => B h

theorem knows_true : P.Knows p fun _ => True := framed_true

variable {ε' α β : Type} {K : Hist (sig (satsPay X)) → Prop}

theorem Calm.ret (a : α) : P.Calm p K (.ret a : Code (satsPay X) ε α) :=
  Protocol.Triple.ret fun _ _ h => h

theorem Calm.throw (e : ε) : P.Calm p K (.throw e : Code (satsPay X) ε α) :=
  Protocol.Triple.throw fun _ _ h => h

theorem Calm.bind {x : Code (satsPay X) ε α} {f : α → Code (satsPay X) ε β} (hx : P.Calm p K x)
    (hf : ∀ a, P.Calm p K (f a)) : P.Calm p K (x >>= f) :=
  Protocol.Triple.bind hx hf fun _ _ _ h => h

theorem Calm.attempt {x : Code (satsPay X) ε α} (hx : P.Calm p K x) :
    P.Calm p K (x.attempt : Code (satsPay X) ε' _) := Protocol.Triple.attempt hx

theorem Calm.mapErr {x : Code (satsPay X) ε α} (hx : P.Calm p K x) (g : ε → ε') :
    P.Calm p K (x.mapErr g) := Protocol.Triple.mapErr hx

theorem Calm.of_outcome {x : Code (satsPay X) ε α}
    (hx : P.Keeping p (Idle p fun _ h => K h) x
      (outcome (fun _ => Idle p fun _ h => K h) fun _ => Idle p fun _ h => K h)) : P.Calm p K x :=
  Protocol.Triple.conseq hx (fun _ _ h => h) fun r _ _ h => match r with
    | .ok _ => h
    | .error _ => h

theorem CalmTx.ret (a : α) : P.CalmTx p K (.ret a : Code (satsPay X) ε α) :=
  Protocol.Triple.ret fun _ _ ⟨_, _, h⟩ => h.left

theorem CalmTx.throw (e : ε) : P.CalmTx p K (.throw e : Code (satsPay X) ε α) :=
  Protocol.Triple.throw fun _ _ ⟨_, _, h⟩ => h.left

/-- A step of a transaction, that leaves what is seen alone where it goes through. -/
def Steady (P : Plan F cond) (p : Nat) (B : Hist (sig (satsPay X)) → Prop) {α : Type}
    (x : Code (satsPay X) ε α) : Prop :=
  P.Keeping p (InTx p (Eff F id fun _ _ h => B h)) x
    (outcome (fun _ => InTx p (Eff F id fun _ _ h => B h)) fun _ => InTx p fun _ _ _ h => B h)

theorem Steady.ret (a : α) : P.Steady p K (.ret a : Code (satsPay X) ε α) :=
  Protocol.Triple.ret fun _ _ h => h

theorem Steady.throw (e : ε) : P.Steady p K (.throw e : Code (satsPay X) ε α) :=
  Protocol.Triple.throw fun _ _ ⟨t, ht, h⟩ => ⟨t, ht, h.left⟩

theorem Steady.bind {x : Code (satsPay X) ε α} {f : α → Code (satsPay X) ε β}
    (hx : P.Steady p K x) (hf : ∀ a, P.Steady p K (f a)) : P.Steady p K (x >>= f) :=
  Protocol.Triple.bind hx hf fun _ _ _ h => h

theorem CalmTx.step {x : Code (satsPay X) ε α} {f : α → Code (satsPay X) ε β}
    (hx : P.Steady p K x) (hf : ∀ a, P.CalmTx p K (f a)) : P.CalmTx p K (x >>= f) :=
  Protocol.Triple.bind hx hf fun _ _ _ ⟨_, _, h⟩ => h

def Aloof (P : Plan F cond) (p : Nat) {α : Type} (x : Code (satsPay X) ε α) : Prop :=
  ∀ f A, P.Keeps p A → P.Keeping p (InTx p (Eff F f A)) x
    (outcome (fun _ => InTx p (Eff F f A)) fun _ => InTx p fun _ => A)

theorem Aloof.ret (a : α) : P.Aloof p (.ret a : Code (satsPay X) ε α) :=
  fun _ _ _ => Protocol.Triple.ret fun _ _ h => h

theorem Aloof.throw (e : ε) : P.Aloof p (.throw e : Code (satsPay X) ε α) :=
  fun _ _ _ => Protocol.Triple.throw fun _ _ ⟨t, ht, h⟩ => ⟨t, ht, h.left⟩

theorem Aloof.bind {x : Code (satsPay X) ε α} {f : α → Code (satsPay X) ε β} (hx : P.Aloof p x)
    (hf : ∀ a, P.Aloof p (f a)) : P.Aloof p (x >>= f) :=
  fun g A hA => Protocol.Triple.bind (hx g A hA) (fun a => hf a g A hA) fun _ _ _ h => h

theorem Aloof.mapErr {x : Code (satsPay X) ε α} (hx : P.Aloof p x) (g : ε → ε') :
    P.Aloof p (x.mapErr g) := fun f A hA => triple_mapErr (hx f A hA) fun _ _ h => h

theorem aloof_apply {input : LedgerCreditInput}
    (ha : ∀ n, F.act (.core (.addEntry (input.entry n))) = id) (g : LedgerError → ε) :
    P.Aloof p ((applyLedgerEntry input).mapErr g) := fun _ _ hA => triple_apply_aside hA ha

theorem aloof_query [FromErr DbError ε] (st : Stmt X)
    (hst : ∀ input, st ≠ .core (.insertLedgerEntry input)) (ha : F.Aside st) :
    P.Aloof p (query st : Code (satsPay X) ε _) := fun _ _ hA => triple_aside st hst ha hA

theorem aloof_invoke (cl : X.Call) (hq : ∀ r, P.quiet (.did p (.call cl) r)) :
    P.Aloof p (invoke (S := satsPay X) cl : Code (satsPay X) ε _) :=
  fun _ _ hA => triple_call hA cl hq

theorem steady_apply (hK : P.Knows p K) {input : LedgerCreditInput}
    (ha : ∀ n, F.act (.core (.addEntry (input.entry n))) = id) (g : LedgerError → ε) :
    P.Steady p K ((applyLedgerEntry input).mapErr g) :=
  triple_apply_aside (keeps_of_framed hK) ha

theorem steady_lockWallets (hK : P.Knows p K) (walletIds : List Uuid) (g : LedgerError → ε) :
    P.Steady p K ((lockWallets walletIds).mapErr g) :=
  triple_lockWallets (keeps_of_framed hK) walletIds

theorem steady_query [FromErr DbError ε] (hK : P.Knows p K) (st : Stmt X)
    (hst : ∀ input, st ≠ .core (.insertLedgerEntry input)) (ha : F.Aside st) :
    P.Steady p K (query st : Code (satsPay X) ε _) :=
  triple_aside st hst ha (keeps_of_framed hK)

section
variable [FromErr DbError ε]

theorem CalmTx.commit (hK : P.Knows p K) (hq : P.quiet (.did p .commit (.ok ())))
    {f : Unit → Code (satsPay X) ε α} (hf : P.Calm p K (f ())) :
    P.CalmTx p K (ReadCommitted.commit >>= f) :=
  Protocol.Triple.bind (triple_commit_aside hq hK (fun _ _ _ h => h) fun _ _ _ _ h => h)
    (fun _ => Protocol.Triple.conseq hf (fun _ _ h => h) fun _ _ _ h => h.2) fun _ _ _ h => h

theorem CalmTx.commit_end (hK : P.Knows p K) (hq : P.quiet (.did p .commit (.ok ()))) :
    P.CalmTx p K (ReadCommitted.commit : Code (satsPay X) ε Unit) :=
  Protocol.Triple.conseq (triple_commit_aside hq hK (fun _ _ _ h => h) fun _ _ _ _ h => h)
    (fun _ _ h => h) fun r _ _ h => match r with
      | .ok _ => h.2
      | .error _ => h

theorem Calm.transaction (hK : P.Knows p K) {body : Code (satsPay X) ε α}
    (hb : P.CalmTx p K body) : P.Calm p K (transaction body) :=
  triple_scope hK (fun _ => hK) (fun _ _ _ h => h) hb

theorem calm_pool (hK : P.Knows p K) (st : Stmt X)
    (hst : ∀ input, st ≠ .core (.insertLedgerEntry input)) (ha : F.Aside st)
    (hq : ∀ r, P.quiet (.did p (.pool st) r)) :
    P.Calm p K (poolQuery st : Code (satsPay X) ε _) :=
  .of_outcome (triple_pool_aside st hst ha hq hK fun _ _ _ _ h => h)

end

/-- A call that changes nothing of the invariant. -/
theorem calm_invoke (hK : P.Knows p K) (cl : X.Call)
    (hq : ∀ r, P.quiet (.did p (.call cl) r)) :
    P.Calm p K (invoke (S := satsPay X) cl : Code (satsPay X) ε _) := by
  refine Protocol.Triple.conseq (triple_invoke (S := satsPay X) cl (fun _ => hK.stable) ?_)
    (fun _ _ h => h) fun r _ _ h => match r with
      | .ok _ => h
      | .error _ => h.elim
  intro db h r hi hk _
  exact ⟨⟨P.inv_quiet (hq r) hi, fun q hne => ⟨fun _ => rfl,
    P.rel_quiet (hq r) hi (by simpa using Ne.symm hne)⟩⟩, hK.own db _ _ (hq r) rfl hk⟩

end

end Plan

end SatsPay
