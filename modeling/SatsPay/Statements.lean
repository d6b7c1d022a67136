import SatsPay.Db
import SatsPay.RowProtocol
import SatsPay.Alone

/-!
# Statements of the store in a protocol

What a statement of the shared tables or of a part's own tables answers, and the
rules for those that only read.
-/

namespace SatsPay

open Interleave ReadCommitted RowProtocol

variable {X : Ext}

abbrev TxAssertion (X : Ext) :=
  List (Write X) → List (Key X) → Db X → Hist (sig (satsPay X)) → Prop

abbrev Assertion (X : Ext) := Db X → Hist (sig (satsPay X)) → Prop

abbrev viewOf (ws : List (Write X)) (db : Db X) : Db X := applyAll (S := satsPay X) ws db

theorem core_eval_ok {st : CoreStmt} {db : Db X} {a : st.Ans} {ws : List (Write X)}
    (h : .ok (a, ws) ∈ (satsPay X).eval (.core st) db) :
    ∃ ws', .ok (a, ws') ∈ st.eval db.core ∧ ws = ws'.map .core := by
  obtain ⟨r, hr, he⟩ := List.mem_map.1 h
  cases r with
  | error e => cases he
  | ok x => cases he; exact ⟨_, hr, rfl⟩

theorem ext_eval_ok {st : X.Stmt} {db : Db X} {a : X.Ans st} {ws : List (Write X)}
    (h : .ok (a, ws) ∈ (satsPay X).eval (.ext st) db) :
    ∃ ws', .ok (a, ws') ∈ X.eval st db.core db.ext ∧ ws = ws'.map .ext := by
  obtain ⟨r, hr, he⟩ := List.mem_map.1 h
  cases r with
  | error e => cases he
  | ok x => cases he; exact ⟨_, hr, rfl⟩

/-- A statement with one outcome. -/
theorem core_eval_one {st : CoreStmt} {db : Db X} {a v : st.Ans} {ws : List (Write X)}
    {vs : List CoreWrite} (hv : st.eval db.core = [.ok (v, vs)])
    (h : .ok (a, ws) ∈ (satsPay X).eval (.core st) db) : a = v ∧ ws = vs.map .core := by
  obtain ⟨ws', h', rfl⟩ := core_eval_ok h
  rw [hv] at h'
  cases List.mem_singleton.1 h'
  exact ⟨rfl, rfl⟩

theorem ext_eval_one {st : X.Stmt} {db : Db X} {a v : X.Ans st} {ws : List (Write X)}
    {vs : List X.Write} (hv : X.eval st db.core db.ext = [.ok (v, vs)])
    (h : .ok (a, ws) ∈ (satsPay X).eval (.ext st) db) : a = v ∧ ws = vs.map .ext := by
  obtain ⟨ws', h', rfl⟩ := ext_eval_ok h
  rw [hv] at h'
  cases List.mem_singleton.1 h'
  exact ⟨rfl, rfl⟩

/-- The writes of a part leave the shared tables alone. -/
theorem core_viewOf_ext : ∀ (ws : List X.Write) (db : Db X), (viewOf (ws.map .ext) db).core = db.core
  | [], _ => rfl
  | w :: ws, db => core_viewOf_ext ws (Write.apply (.ext w) db)

/-- But for a ledger entry, a statement locks the rows it writes. -/
theorem covered_of_other {st : Stmt X} (hst : ∀ input, st ≠ .core (.insertLedgerEntry input))
    {db : Db X} {a : st.Ans} {ws : List (Write X)} (h : .ok (a, ws) ∈ (satsPay X).eval st db) :
    ∀ w ∈ ws, ∀ k ∈ w.touches, k ∈ st.locks db := by
  intro w hw k hk
  cases st with
  | ext st =>
    obtain ⟨ws', h', rfl⟩ := ext_eval_ok h
    obtain ⟨w', hw', rfl⟩ := List.mem_map.1 hw
    obtain ⟨k', hk', rfl⟩ := List.mem_map.1 hk
    exact List.mem_map_of_mem (X.covered st _ _ _ _ h' w' hw' k' hk')
  | core st =>
    obtain ⟨ws', h', rfl⟩ := core_eval_ok h
    obtain ⟨w', hw', rfl⟩ := List.mem_map.1 hw
    obtain ⟨k', hk', rfl⟩ := List.mem_map.1 hk
    have := CoreStmt.writes (fun input e => hst input (congrArg Stmt.core e)) h' w' hw'
    cases w' with
    | putWallet id u => cases List.mem_singleton.1 hk'; exact List.mem_map_of_mem this.2
    | addEntry e => exact this.elim
    | _ => cases hk'

section
variable {cond : Db X → Hist (sig (satsPay X)) → Event (sig (satsPay X)) → Prop}
variable {R : RowProtocol (satsPay X) cond} {p : Nat} {ε : Type} [FromErr DbError ε]
variable {G : TxAssertion X} {E : ε → TxAssertion X}

theorem triple_coreRead (st : CoreStmt) (v : Core → st.Ans)
    (hv : ∀ c, st.eval c = [.ok (v c, [])]) (hl : ∀ c, st.locks c = [])
    {H : st.Ans → TxAssertion X} (hG : ∀ a, R.FramedTx p (H a)) (hE : ∀ e, R.FramedTx p (E e))
    (hok : ∀ ws ks db h, R.inv db h → G ws ks db h → H (v (viewOf ws db).core) ws ks db h)
    (herr : ∀ ws ks db h e, R.inv db h → G ws ks db h → E e [] ks db h) :
    R.toProtocol.Triple p (InTx p G) (coreQuery st : Code (satsPay X) ε _)
      (outcome (fun a => InTx p (H a)) fun e => InTx p (E e)) :=
  triple_read _ hG hE (fun db => congrArg (List.map Key.core) (hl db.core))
    (fun db _ _ he => (core_eval_one (hv db.core) he).2)
    (fun ws ks db h a hi hg he => by
      rw [(core_eval_one (hv _) he).1]; exact hok ws ks db h hi hg)
    fun ws ks db h _ hi hg _ => herr ws ks db h _ hi hg

theorem triple_extRead (st : X.Stmt) (v : Core → X.Db → X.Ans st)
    (hv : ∀ c x, X.eval st c x = [.ok (v c x, [])]) (hl : ∀ c x, X.locks st c x = [])
    {H : X.Ans st → TxAssertion X} (hG : ∀ a, R.FramedTx p (H a)) (hE : ∀ e, R.FramedTx p (E e))
    (hok : ∀ ws ks db h, R.inv db h → G ws ks db h →
      H (v (viewOf ws db).core (viewOf ws db).ext) ws ks db h)
    (herr : ∀ ws ks db h e, R.inv db h → G ws ks db h → E e [] ks db h) :
    R.toProtocol.Triple p (InTx p G) (extQuery st : Code (satsPay X) ε _)
      (outcome (fun a => InTx p (H a)) fun e => InTx p (E e)) :=
  triple_read _ hG hE (fun db => congrArg (List.map Key.ext) (hl db.core db.ext))
    (fun db _ _ he => (ext_eval_one (hv db.core db.ext) he).2)
    (fun ws ks db h a hi hg he => by
      rw [(ext_eval_one (hv _ _) he).1]; exact hok ws ks db h hi hg)
    fun ws ks db h _ hi hg _ => herr ws ks db h _ hi hg

end

section
variable {db : Db X} {ws : List (Write X)}

theorem may_core {ε : Type} [FromErr DbError ε] {st : CoreStmt} {a : st.Ans} {ws' : List CoreWrite}
    (he : .ok (a, ws') ∈ st.eval (viewOf ws db).core) :
    May (S := satsPay X) (AloneInTx db ws) (coreQuery st : Code (satsPay X) ε _) (.ok a)
      (AloneInTx db (ws ++ ws'.map .core)) :=
  may_query (S := satsPay X) (List.mem_map.2 ⟨_, he, rfl⟩)

theorem may_ext {ε : Type} [FromErr DbError ε] {st : X.Stmt} {a : X.Ans st} {ws' : List X.Write}
    (he : .ok (a, ws') ∈ X.eval st (viewOf ws db).core (viewOf ws db).ext) :
    May (S := satsPay X) (AloneInTx db ws) (extQuery st : Code (satsPay X) ε _) (.ok a)
      (AloneInTx db (ws ++ ws'.map .ext)) :=
  may_query (S := satsPay X) (List.mem_map.2 ⟨_, he, rfl⟩)

theorem may_coreRead {ε : Type} [FromErr DbError ε] {st : CoreStmt} {a : st.Ans}
    (he : .ok (a, []) ∈ st.eval (viewOf ws db).core) :
    May (S := satsPay X) (AloneInTx db ws) (coreQuery st : Code (satsPay X) ε _) (.ok a)
      (AloneInTx db ws) := by
  have h := may_core (X := X) (ε := ε) he
  rwa [List.map_nil, List.append_nil] at h

theorem may_extPool {ε : Type} [FromErr DbError ε] {st : X.Stmt} {a : X.Ans st}
    {ws' : List X.Write} (he : .ok (a, ws') ∈ X.eval st db.core db.ext) :
    May (S := satsPay X) (Alone db) (extPool st : Code (satsPay X) ε _) (.ok a)
      (Alone (viewOf (ws'.map .ext) db)) :=
  may_pool (S := satsPay X) (List.mem_map.2 ⟨_, he, rfl⟩)

end

/-! ## The job queue -/

theorem lookup_newJobId (c : Core) : c.jobs.lookup c.newJobId = none := by
  refine AList.lookup_eq_none.2 fun hmem => ?_
  have hle : ∀ l : List Uuid, ∀ k ∈ l, k ≤ l.foldr max 0 := by
    intro l
    induction l with
    | nil => simp
    | cons a l ih =>
      intro k hk
      rcases List.mem_cons.1 hk with rfl | hk
      · exact le_max_left _ _
      · exact le_trans (ih k hk) (le_max_right _ _)
  exact absurd (hle c.jobs.keys _ (AList.mem_keys.1 hmem)) (Nat.not_succ_le_self _)

theorem mem_oldestRunnable {c : Core} {jobType : String} {j : Uuid × Job}
    (h : j ∈ c.oldestRunnable jobType) :
    c.jobs.lookup j.1 = some j.2 ∧ j.2.jobType = jobType ∧ j.2.status = .pending := by
  have hr := List.mem_of_mem_filter h
  obtain ⟨hm, hj⟩ := List.mem_filter.1 hr
  obtain ⟨e, he, rfl⟩ := List.mem_map.1 hm
  simp only [Bool.and_eq_true, beq_iff_eq, decide_eq_true_eq] at hj
  exact ⟨AList.mem_lookup_iff.2 he, hj.1.1, hj.1.2⟩

theorem claimNext_ok {jobType lockedBy : String} {db : Db X} {a : Option (Uuid × Job)}
    {ws : List (Write X)}
    (h : .ok (a, ws) ∈ (satsPay X).eval (.core (.claimNext jobType lockedBy)) db) :
    (a = none ∧ ws = []) ∨ ∃ job j, db.core.jobs.lookup job = some j ∧ j.jobType = jobType ∧
      j.status = .pending ∧ a = some (job, j.claim lockedBy) ∧
      ws = [.core (.putJob job (j.claim lockedBy))] := by
  obtain ⟨ws', h', rfl⟩ := core_eval_ok h
  simp only [CoreStmt.eval] at h'
  split at h'
  · cases List.mem_singleton.1 h'
    exact .inl ⟨rfl, rfl⟩
  · obtain ⟨j, hj, hr⟩ := List.mem_map.1 h'
    cases hr
    obtain ⟨h₁, h₂, h₃⟩ := mem_oldestRunnable hj
    exact .inr ⟨j.1, j.2, h₁, h₂, h₃, rfl, rfl⟩

end SatsPay
