import Mathlib
import SatsPay.Fallible
import SatsPay.Json

/-!
# Transactions that spend unspent outputs

The two builders of transactions: the one for P2WPKH outputs and the one for the P2PKH outputs
of Bitcoin Cash. Keys, hashes and the parsers of texts are parameters.
-/

namespace SatsPay

open Fallible

/-! ## Transactions -/

abbrev Script := List UInt8

structure Utxo where
  txid : String
  vout : UInt32
  value : UInt64
  scriptPubkeyHex : String

structure OutPoint where
  txid : List UInt8
  vout : UInt32
  deriving DecidableEq

structure TxIn where
  previousOutput : OutPoint
  scriptSig : Script
  sequence : UInt32
  witness : List (List UInt8)

structure TxOut where
  value : UInt64
  scriptPubkey : Script

structure Transaction where
  version : UInt32
  lockTime : UInt32
  input : List TxIn
  output : List TxOut

inductive SignError where
  | invalidKey (e : String)
  | insufficientUtxos (needed : ℕ)
  | invalidScript (e : String)
  | invalidTxid (e : String)

/-- What the builders take from other packages. -/
structure BitcoinLib where
  PrivateKey : Type
  fromWif : String → Except String PrivateKey
  publicKey : PrivateKey → List UInt8
  txidFromStr : String → Except String (List UInt8)
  scriptFromHex : String → Except String Script
  /-- With `EcdsaSighashType::All` -/
  p2wpkhSignatureHash : Transaction → ℕ → Script → UInt64 → Except String (List UInt8)
  sha256d : List UInt8 → List UInt8
  /-- A signature of a digest, in DER. -/
  signEcdsa : PrivateKey → List UInt8 → List UInt8

def isP2pkh (s : Script) : Bool :=
  s.length == 25 && s.take 3 == [0x76, 0xa9, 0x14] && s.drop 23 == [0x88, 0xac]

def isP2wpkh (s : Script) : Bool := s.length == 22 && s.take 2 == [0x00, 0x14]

/-! ## The digest of Bitcoin Cash -/

/-- The low `k` bytes, the lowest first. -/
def leBytes (k n : ℕ) : List UInt8 := (List.range k).map fun i => UInt8.ofNat (n / 256 ^ i)

def compactSize (n : ℕ) : List UInt8 :=
  if n < 0xfd then leBytes 1 n
  else if n ≤ 0xffff then 0xfd :: leBytes 2 n
  else if n ≤ 0xffffffff then 0xfe :: leBytes 4 n
  else 0xff :: leBytes 8 n

def OutPoint.encode (o : OutPoint) : List UInt8 := o.txid ++ leBytes 4 o.vout.toNat

def encodeScript (s : Script) : List UInt8 := compactSize s.length ++ s

def TxOut.encode (o : TxOut) : List UInt8 := leBytes 8 o.value.toNat ++ encodeScript o.scriptPubkey

def p2pkhScriptCode (scriptPubkey : Script) : Except SignError Script :=
  if isP2pkh scriptPubkey then .ok scriptPubkey
  else .error (.invalidScript "BCH signer requires P2PKH scriptPubKey")

section
variable (K : BitcoinLib)

def hashPrevouts (tx : Transaction) : List UInt8 :=
  K.sha256d (tx.input.flatMap fun i => i.previousOutput.encode)

def hashSequence (tx : Transaction) : List UInt8 :=
  K.sha256d (tx.input.flatMap fun i => leBytes 4 i.sequence.toNat)

def hashOutputs (tx : Transaction) : List UInt8 := K.sha256d (tx.output.flatMap TxOut.encode)

def bip143ForkidDigest (tx : Transaction) (input : TxIn) (scriptCode : Script) (amount : UInt64)
    (sighashType : ℕ) : List UInt8 :=
  K.sha256d (leBytes 4 tx.version.toNat ++ hashPrevouts K tx ++ hashSequence K tx ++
    input.previousOutput.encode ++ encodeScript scriptCode ++ leBytes 8 amount.toNat ++
    leBytes 4 input.sequence.toNat ++ hashOutputs K tx ++ leBytes 4 tx.lockTime.toNat ++
    leBytes 4 sighashType)

/-! ## The builders -/

/-- `ENABLE_RBF_NO_LOCKTIME` -/
def txInOf (u : Utxo) : Except SignError TxIn := do
  let txid ← (K.txidFromStr u.txid).mapError .invalidTxid
  pure ⟨⟨txid, u.vout⟩, [], 0xfffffffd, []⟩

def prevoutOf (u : Utxo) : Except SignError TxOut := do
  let script ← (K.scriptFromHex u.scriptPubkeyHex).mapError .invalidScript
  pure ⟨u.value, script⟩

/-- The sum wraps. -/
def totalIn (utxos : List Utxo) : UInt64 := (utxos.map (·.value)).sum

def outputsOf (total amount fee : UInt64) (toScript changeScript : Script) : List TxOut :=
  let change := total - amount - fee
  ⟨amount, toScript⟩ :: if 0 < change then [⟨change, changeScript⟩] else []

/-- A builder, by how it signs an input that spends this output. The inputs are signed in a
transaction without signatures, which no digest reads. -/
def buildAndSignWith
    (signInput : K.PrivateKey → Transaction → ℕ → TxIn → TxOut → Except SignError TxIn)
    (wif : String) (utxos : List Utxo) (toScript : Script) (amount fee : UInt64)
    (changeScript : Script) : Except SignError Transaction := do
  let key ← (K.fromWif wif).mapError .invalidKey
  let total := totalIn utxos
  let needed := amount.toNat + fee.toNat
  if total.toNat < needed then .error (.insufficientUtxos needed)
  else do
    let inputs ← utxos.mapM (txInOf K)
    let tx : Transaction := ⟨2, 0, inputs, outputsOf total amount fee toScript changeScript⟩
    let prevouts ← utxos.mapM (prevoutOf K)
    let signed ← (inputs.zip prevouts).zipIdx.mapM fun ((input, prevout), i) =>
      signInput key tx i input prevout
    pure { tx with input := signed }

def signP2wpkh (key : K.PrivateKey) (tx : Transaction) (i : ℕ) (input : TxIn) (prevout : TxOut) :
    Except SignError TxIn := do
  let sighash ← (K.p2wpkhSignatureHash tx i prevout.scriptPubkey prevout.value).mapError
    .invalidScript
  pure { input with witness := [K.signEcdsa key sighash ++ [0x01], K.publicKey key] }

def pushBytes (b : List UInt8) : Script := UInt8.ofNat b.length :: b

/-- `SIGHASH_ALL | SIGHASH_FORKID` -/
def sighashAllForkid : ℕ := 0x41

def signBchP2pkh (key : K.PrivateKey) (tx : Transaction) (_ : ℕ) (input : TxIn)
    (prevout : TxOut) : Except SignError TxIn := do
  let scriptCode ← p2pkhScriptCode prevout.scriptPubkey
  let digest := bip143ForkidDigest K tx input scriptCode prevout.value sighashAllForkid
  let sig := K.signEcdsa key digest ++ [UInt8.ofNat sighashAllForkid]
  pure { input with scriptSig := pushBytes sig ++ pushBytes (K.publicKey key) }

def buildAndSignP2wpkh := buildAndSignWith K (signP2wpkh K)

def buildAndSignBchP2pkh := buildAndSignWith K (signBchP2pkh K)

end

/-! ## Accounting -/

/-- What all the outputs hold, without wrapping. -/
def valueOf (utxos : List Utxo) : ℕ := (utxos.map (·.value.toNat)).sum

/-- The transaction spends each output in turn, and pays the amount and what is left. -/
structure Spends (K : BitcoinLib) (utxos : List Utxo) (toScript : Script) (amount fee : UInt64)
    (changeScript : Script) (tx : Transaction) : Prop where
  inputs : List.Forall₂ (fun u i => K.txidFromStr u.txid = .ok i.previousOutput.txid ∧
    i.previousOutput.vout = u.vout) utxos tx.input
  outputs : tx.output.map (fun o => (o.value.toNat, o.scriptPubkey)) =
    (amount.toNat, toScript) :: if amount.toNat + fee.toNat < valueOf utxos then
      [(valueOf utxos - amount.toNat - fee.toNat, changeScript)] else []
  balance : valueOf utxos = (tx.output.map (·.value.toNat)).sum + fee.toNat

/-- The builder fails without the funds, or if something is malformed, and only then; and what
it builds spends the outputs. -/
def ConservesValue (K : BitcoinLib) (build : String → List Utxo → Script → UInt64 → UInt64 →
    Script → Except SignError Transaction) (template : Script → Bool) : Prop :=
  ∀ wif utxos toScript amount fee changeScript, valueOf utxos < 2 ^ 64 →
    ((∃ e, build wif utxos toScript amount fee changeScript = .error e) ↔
      valueOf utxos < amount.toNat + fee.toNat ∨ (∃ e, K.fromWif wif = .error e) ∨
      ∃ u ∈ utxos, (∃ e, K.txidFromStr u.txid = .error e) ∨
        ∀ s, K.scriptFromHex u.scriptPubkeyHex = .ok s → ¬ template s) ∧
    ∀ tx, build wif utxos toScript amount fee changeScript = .ok tx →
      Spends K utxos toScript amount fee changeScript tx

section
variable {K : BitcoinLib}
variable {signInput : K.PrivateKey → Transaction → ℕ → TxIn → TxOut → Except SignError TxIn}
variable {template : Script → Bool} {wif : String} {utxos : List Utxo}
variable {toScript changeScript : Script} {amount fee : UInt64} {tx : Transaction}

theorem totalIn_toNat_mod (utxos : List Utxo) :
    (totalIn utxos).toNat = valueOf utxos % 2 ^ 64 := by
  induction utxos with
  | nil => rfl
  | cons u utxos ih =>
    have hsum : valueOf (u :: utxos) = u.value.toNat + valueOf utxos := List.sum_cons
    show (u.value + totalIn utxos).toNat = _
    rw [UInt64.toNat_add, ih, hsum, Nat.add_mod_mod]

theorem totalIn_toNat (h : valueOf utxos < 2 ^ 64) : (totalIn utxos).toNat = valueOf utxos := by
  rw [totalIn_toNat_mod, Nat.mod_eq_of_lt h]

theorem outputsOf_eq {total : UInt64} (h : amount.toNat + fee.toNat ≤ total.toNat) :
    (outputsOf total amount fee toScript changeScript).map
        (fun o => (o.value.toNat, o.scriptPubkey)) =
      (amount.toNat, toScript) :: if amount.toNat + fee.toNat < total.toNat then
        [(total.toNat - amount.toNat - fee.toNat, changeScript)] else [] := by
  have hchange : (total - amount - fee).toNat = total.toNat - amount.toNat - fee.toNat := by
    have h₁ : (total - amount).toNat = total.toNat - amount.toNat :=
      UInt64.toNat_sub_of_le _ _ (UInt64.le_iff_toNat_le.2 (by omega))
    rw [UInt64.toNat_sub_of_le _ _ (UInt64.le_iff_toNat_le.2 (by omega)), h₁]
  have hpos : 0 < total - amount - fee ↔ amount.toNat + fee.toNat < total.toNat := by
    rw [UInt64.lt_iff_toNat_lt, hchange]
    show 0 < _ ↔ _
    omega
  unfold outputsOf
  by_cases hlt : amount.toNat + fee.toNat < total.toNat
  · simp [hpos.2 hlt, hlt, hchange]
  · simp [mt hpos.1 hlt, hlt]

theorem sum_outputsOf {total : UInt64} (h : amount.toNat + fee.toNat ≤ total.toNat) :
    ((outputsOf total amount fee toScript changeScript).map (·.value.toNat)).sum + fee.toNat =
      total.toNat := by
  have hmap := congrArg (List.map Prod.fst) (@outputsOf_eq toScript changeScript
    amount fee total h)
  rw [List.map_map] at hmap
  have hmap : (outputsOf total amount fee toScript changeScript).map (·.value.toNat) = _ := hmap
  rw [hmap]
  split <;> simp <;> omega

/-- A signature is made of what the template admits, and leaves the outpoint. -/
structure SignsFor (signInput : K.PrivateKey → Transaction → ℕ → TxIn → TxOut →
    Except SignError TxIn) (template : Script → Bool) : Prop where
  succeeds : ∀ key tx i input prevout, i < tx.input.length →
    ((∃ input', signInput key tx i input prevout = .ok input') ↔ template prevout.scriptPubkey)
  outpoint : ∀ key tx i input prevout input', signInput key tx i input prevout = .ok input' →
    input'.previousOutput = input.previousOutput

theorem buildAndSignWith_eq_ok_iff :
    buildAndSignWith K signInput wif utxos toScript amount fee changeScript = .ok tx ↔
    ∃ key inputs prevouts signed, K.fromWif wif = .ok key ∧
      amount.toNat + fee.toNat ≤ (totalIn utxos).toNat ∧
      List.Forall₂ (fun u i => txInOf K u = .ok i) utxos inputs ∧
      List.Forall₂ (fun u o => prevoutOf K u = .ok o) utxos prevouts ∧
      List.Forall₂ (fun x i => signInput key ⟨2, 0, inputs,
        outputsOf (totalIn utxos) amount fee toScript changeScript⟩ x.2 x.1.1 x.1.2 = .ok i)
        (inputs.zip prevouts).zipIdx signed ∧
      tx = ⟨2, 0, signed, outputsOf (totalIn utxos) amount fee toScript changeScript⟩ := by
  unfold buildAndSignWith
  dsimp only
  simp only [bind_eq_ok_iff, mapError_eq_ok_iff]
  constructor
  · rintro ⟨key, hkey, h⟩
    split at h
    · cases h
    · rename_i hle
      obtain ⟨inputs, hi, prevouts, hp, signed, hs, h⟩ := by
        simpa only [bind_eq_ok_iff] using h
      cases h
      exact ⟨key, inputs, prevouts, signed, hkey, not_lt.1 hle, mapM_eq_ok_iff.1 hi,
        mapM_eq_ok_iff.1 hp, mapM_eq_ok_iff.1 hs, rfl⟩
  · rintro ⟨key, inputs, prevouts, signed, hkey, hle, hi, hp, hs, rfl⟩
    refine ⟨key, hkey, ?_⟩
    rw [if_neg (not_lt.2 hle)]
    simp only [bind_eq_ok_iff]
    exact ⟨inputs, mapM_eq_ok_iff.2 hi, prevouts, mapM_eq_ok_iff.2 hp, signed,
      mapM_eq_ok_iff.2 hs, rfl⟩

theorem map_zipIdx_zip {α β : Type} {l : List α} {l' : List β} (h : l.length = l'.length) :
    (l.zip l').zipIdx.map (fun x => x.1.1) = l ∧ (l.zip l').zipIdx.map (fun x => x.1.2) = l' := by
  have hfst : (l.zip l').zipIdx.map Prod.fst = l.zip l' := List.zipIdx_map_fst 0 _
  constructor
  · calc (l.zip l').zipIdx.map (fun x => x.1.1)
        = ((l.zip l').zipIdx.map Prod.fst).map Prod.fst := by rw [List.map_map]; rfl
      _ = l := by rw [hfst, List.map_fst_zip h.le]
  · calc (l.zip l').zipIdx.map (fun x => x.1.2)
        = ((l.zip l').zipIdx.map Prod.fst).map Prod.snd := by rw [List.map_map]; rfl
      _ = l' := by rw [hfst, List.map_snd_zip h.ge]

theorem spends_of_build (hsigns : SignsFor signInput template) (hfit : valueOf utxos < 2 ^ 64)
    (h : buildAndSignWith K signInput wif utxos toScript amount fee changeScript = .ok tx) :
    Spends K utxos toScript amount fee changeScript tx := by
  obtain ⟨key, inputs, prevouts, signed, -, hle, hi, hp, hs, rfl⟩ := buildAndSignWith_eq_ok_iff.1 h
  have htotal := totalIn_toNat hfit
  refine ⟨?_, ?_, ?_⟩
  · -- the signed inputs have the outpoints of the unsigned ones
    have hfst := (map_zipIdx_zip (hi.length_eq.symm.trans hp.length_eq)).1
    have hout : signed.map (·.previousOutput) = inputs.map (·.previousOutput) := by
      conv_rhs => rw [← hfst]
      rw [List.map_map]
      exact map_eq_of_forall₂ hs fun x i hx => hsigns.outpoint _ _ _ _ _ _ hx
    have hspent : List.Forall₂ (fun (u : Utxo) (o : OutPoint) => K.txidFromStr u.txid = .ok o.txid ∧
        o.vout = u.vout) utxos (inputs.map (·.previousOutput)) := by
      refine List.forall₂_map_right_iff.2 (hi.imp fun u i hu => ?_)
      obtain ⟨txid, ht, hu⟩ := bind_eq_ok hu
      cases hu
      exact ⟨mapError_eq_ok ht, rfl⟩
    rw [← hout] at hspent
    exact List.forall₂_map_right_iff.1 hspent
  · rw [outputsOf_eq hle, htotal]
  · rw [sum_outputsOf hle, htotal]

theorem exists_signed_iff (hsigns : SignsFor signInput template) (key : K.PrivateKey)
    {inputs : List TxIn} {prevouts : List TxOut} (outputs : List TxOut)
    (hlen : inputs.length = prevouts.length) :
    (∃ signed, List.Forall₂ (fun x i => signInput key ⟨2, 0, inputs, outputs⟩ x.2 x.1.1 x.1.2 = .ok i)
      (inputs.zip prevouts).zipIdx signed) ↔ ∀ o ∈ prevouts, template o.scriptPubkey := by
  simp only [← mapM_eq_ok_iff (f := fun x : (TxIn × TxOut) × ℕ =>
    signInput key ⟨2, 0, inputs, outputs⟩ x.2 x.1.1 x.1.2), exists_mapM_eq_ok_iff]
  conv_rhs => rw [← (map_zipIdx_zip hlen).2]
  rw [List.forall_mem_map]
  refine forall₂_congr fun x hx => hsigns.succeeds _ _ _ _ _ ?_
  have hlt := List.snd_lt_of_mem_zipIdx hx
  rw [List.length_zip] at hlt
  exact hlt.trans_le (by simp)

theorem exists_txInOf_iff {u : Utxo} :
    (∃ i, txInOf K u = .ok i) ↔ ∃ txid, K.txidFromStr u.txid = .ok txid := by
  simp only [txInOf, bind_eq_ok_iff, mapError_eq_ok_iff]
  constructor
  · rintro ⟨i, txid, h, -⟩
    exact ⟨txid, h⟩
  · rintro ⟨txid, h⟩
    exact ⟨_, txid, h, rfl⟩

theorem prevoutOf_eq_ok_iff {u : Utxo} {o : TxOut} : prevoutOf K u = .ok o ↔
    ∃ s, K.scriptFromHex u.scriptPubkeyHex = .ok s ∧ o = ⟨u.value, s⟩ := by
  simp only [prevoutOf, bind_eq_ok_iff, mapError_eq_ok_iff]
  refine exists_congr fun s => and_congr_right fun _ => ?_
  exact ⟨fun h => (Except.ok.inj h).symm, fun h => congrArg Except.ok h.symm⟩

theorem exists_build_iff (hsigns : SignsFor signInput template) (hfit : valueOf utxos < 2 ^ 64) :
    (∃ tx, buildAndSignWith K signInput wif utxos toScript amount fee changeScript = .ok tx) ↔
      (∃ key, K.fromWif wif = .ok key) ∧ amount.toNat + fee.toNat ≤ valueOf utxos ∧
      ∀ u ∈ utxos, (∃ txid, K.txidFromStr u.txid = .ok txid) ∧
        ∃ s, K.scriptFromHex u.scriptPubkeyHex = .ok s ∧ template s := by
  constructor
  · rintro ⟨tx, h⟩
    obtain ⟨key, inputs, prevouts, signed, hkey, hle, hi, hp, hs, -⟩ :=
      buildAndSignWith_eq_ok_iff.1 h
    have hlen := hi.length_eq.symm.trans hp.length_eq
    have htemplate := (exists_signed_iff hsigns key _ hlen).1 ⟨_, hs⟩
    refine ⟨⟨key, hkey⟩, totalIn_toNat hfit ▸ hle, fun u hu => ⟨?_, ?_⟩⟩
    · obtain ⟨i, -, hui⟩ := exists_mem_of_forall₂ hi u hu
      exact exists_txInOf_iff.1 ⟨i, hui⟩
    · obtain ⟨o, ho, huo⟩ := exists_mem_of_forall₂ hp u hu
      obtain ⟨s, hs, rfl⟩ := prevoutOf_eq_ok_iff.1 huo
      exact ⟨s, hs, htemplate _ ho⟩
  · rintro ⟨⟨key, hkey⟩, hle, hall⟩
    obtain ⟨inputs, hi⟩ := exists_mapM_eq_ok_iff.2 fun u hu =>
      (exists_txInOf_iff (K := K)).2 (hall u hu).1
    obtain ⟨prevouts, hp⟩ := exists_mapM_eq_ok_iff.2 fun u hu => by
      obtain ⟨s, hs, -⟩ := (hall u hu).2
      exact ⟨_, (prevoutOf_eq_ok_iff (K := K)).2 ⟨s, hs, rfl⟩⟩
    have hi := mapM_eq_ok_iff.1 hi
    have hp := mapM_eq_ok_iff.1 hp
    have htemplate : ∀ o ∈ prevouts, template o.scriptPubkey := by
      intro o ho
      obtain ⟨u, hu, huo⟩ := exists_mem_of_forall₂ hp.flip o ho
      obtain ⟨s, hs, rfl⟩ := prevoutOf_eq_ok_iff.1 huo
      obtain ⟨s', hs', ht⟩ := (hall u hu).2
      cases hs.symm.trans hs'
      exact ht
    obtain ⟨signed, hs⟩ := (exists_signed_iff hsigns key
      (outputsOf (totalIn utxos) amount fee toScript changeScript)
      (hi.length_eq.symm.trans hp.length_eq)).2 htemplate
    exact ⟨_, buildAndSignWith_eq_ok_iff.2 ⟨key, inputs, prevouts, signed, hkey,
      (totalIn_toNat hfit).symm ▸ hle, hi, hp, hs, rfl⟩⟩

theorem conservesValue_of_signs (hsigns : SignsFor signInput template) :
    ConservesValue K (buildAndSignWith K signInput) template := by
  intro wif utxos toScript amount fee changeScript hfit
  refine ⟨?_, fun tx h => spends_of_build hsigns hfit h⟩
  rw [exists_error_iff, exists_build_iff hsigns hfit, exists_error_iff]
  simp only [exists_error_iff]
  constructor
  · intro h
    by_contra hno
    push Not at hno
    exact h ⟨hno.2.1, hno.1, hno.2.2⟩
  · rintro (hlt | hkey | ⟨u, hu, hbad⟩) ⟨hk, hle, hall⟩
    · omega
    · exact hkey hk
    · obtain ⟨ht, s, hs, hts⟩ := hall u hu
      rcases hbad with hbad | hbad
      · exact hbad ht
      · exact hbad s hs hts

/-- `p2wpkh_signature_hash` gives an error for a script that is not P2WPKH, and for no other
one when the input exists. -/
def BitcoinLib.HashesP2wpkh (K : BitcoinLib) : Prop :=
  ∀ tx i script value, i < tx.input.length →
    ((∃ digest, K.p2wpkhSignatureHash tx i script value = .ok digest) ↔ isP2wpkh script)

theorem signsFor_p2wpkh (hK : K.HashesP2wpkh) : SignsFor (signP2wpkh K) isP2wpkh := by
  constructor
  · intro key tx i input prevout hi
    rw [← hK tx i _ prevout.value hi]
    simp only [signP2wpkh, bind_eq_ok_iff, mapError_eq_ok_iff]
    exact ⟨fun ⟨_, d, hd, _⟩ => ⟨d, hd⟩, fun ⟨d, hd⟩ => ⟨_, d, hd, rfl⟩⟩
  · intro key tx i input prevout input' h
    obtain ⟨d, -, h⟩ := bind_eq_ok h
    cases h
    rfl

theorem signsFor_bchP2pkh : SignsFor (signBchP2pkh K) isP2pkh := by
  constructor
  · intro key tx i input prevout hi
    simp only [signBchP2pkh, bind_eq_ok_iff, p2pkhScriptCode]
    by_cases ht : isP2pkh prevout.scriptPubkey
    · simp [ht, pure, Except.pure]
    · simp [ht]
  · intro key tx i input prevout input' h
    obtain ⟨code, -, h⟩ := bind_eq_ok h
    cases h
    rfl

/-- Both builders keep the same accounts. -/
theorem builders_conserveValue (hK : K.HashesP2wpkh) :
    ConservesValue K (buildAndSignP2wpkh K) isP2wpkh ∧
      ConservesValue K (buildAndSignBchP2pkh K) isP2pkh :=
  ⟨conservesValue_of_signs (signsFor_p2wpkh hK), conservesValue_of_signs signsFor_bchP2pkh⟩

end

/-! Two outputs, spent with change. -/

def hexBytes : List Char → Option (List UInt8)
  | [] => some []
  | a :: b :: rest => do
    let hi ← fromHexDigit a
    let lo ← fromHexDigit b
    return UInt8.ofNat (16 * hi + lo) :: (← hexBytes rest)
  | [_] => none

def hexLib : BitcoinLib where
  PrivateKey := Unit
  fromWif _ := .ok ()
  publicKey _ := 0x02 :: List.replicate 32 0x01
  txidFromStr s := match hexBytes s.toList with
    | some b => if b.length = 32 then .ok b.reverse else .error "bad length"
    | none => .error "bad hex"
  scriptFromHex s := match hexBytes s.toList with
    | some b => .ok b
    | none => .error "bad hex"
  p2wpkhSignatureHash _ _ script _ :=
    if isP2wpkh script then .ok (List.replicate 32 0) else .error "not P2WPKH"
  sha256d _ := List.replicate 32 0
  signEcdsa _ _ := []

theorem hashesP2wpkh_hexLib : hexLib.HashesP2wpkh := by
  intro tx i script value _
  by_cases h : isP2wpkh script <;> simp [hexLib, h]

def witnessScriptHex (c : Char) : String := "0014" ++ String.ofList (List.replicate 40 c)

def zeroTxid (c : Char) : String := String.ofList (c :: List.replicate 63 '0')

def twoUtxos : List Utxo :=
  [⟨zeroTxid '1', 0, 3000, witnessScriptHex 'a'⟩, ⟨zeroTxid '2', 7, 2000, witnessScriptHex 'a'⟩]

theorem twoUtxos_spent : ∃ tx,
    buildAndSignP2wpkh hexLib "key" twoUtxos [] 4000 300 [1] = .ok tx ∧
      Spends hexLib twoUtxos [] 4000 300 [1] tx := by
  obtain ⟨-, hspends⟩ := (builders_conserveValue hashesP2wpkh_hexLib).1 "key" twoUtxos []
    4000 300 [1] (by decide)
  have hok : ((buildAndSignP2wpkh hexLib "key" twoUtxos [] 4000 300 [1]).isOk) = true := by
    decide +kernel
  cases hbuild : buildAndSignP2wpkh hexLib "key" twoUtxos [] 4000 300 [1] with
  | error e => rw [hbuild] at hok; cases hok
  | ok tx => exact ⟨tx, rfl, hspends tx hbuild⟩

end SatsPay
