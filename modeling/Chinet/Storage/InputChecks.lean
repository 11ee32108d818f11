import Chinet.Storage.Chain
import Chinet.Storage.Ledger

/-!
# What a checked input promises

`check_tx_inputs`, and the check of the stake of a PoS block, look up every
output that an input refers to.  An input that passes names a multisig output
that is not spent (`InputChecked`), a direct spend names a key or HTLC output,
and the input can be added: no failure is left to `add_transaction_input_visitor`
but a key image that appears twice in the transaction.
-/

namespace Chinet

open Procedure FiniteStore

variable {env : Env}

/-- Every transaction has one flag for each of its outputs. -/
def FlagsComplete (db : Db) : Prop :=
  ∀ t entry, db.transactions.lookup t = some entry →
    entry.spentFlags.length = entry.tx.vout.length

theorem FlagsComplete.flagAt_isSome {db : Db} (h : FlagsComplete db) {p : Hash × Nat} {out : TxOut}
    (hout : db.outputAt p = some out) : (flagAt db.transactions p).isSome = true := by
  obtain ⟨entry, hentry, hget⟩ := Option.bind_eq_some_iff.mp hout
  have hlt : p.2 < entry.tx.vout.length := (List.getElem?_eq_some_iff.mp hget).1
  rw [flagAt, hentry, Option.bind_some, List.getElem?_eq_getElem (by rw [h p.1 entry hentry]; exact hlt)]
  rfl

theorem FlagsComplete.of_core {db db' : Db} (h : FlagsComplete db')
    (hcore : ∀ t, (db.transactions.lookup t).map TransactionChainEntry.core =
      (db'.transactions.lookup t).map TransactionChainEntry.core) : FlagsComplete db := by
  intro t entry hentry
  have hsame := hcore t
  rw [hentry] at hsame
  obtain ⟨entry', hentry', hcore'⟩ := Option.map_eq_some_iff.mp hsame.symm
  simp only [TransactionChainEntry.core, Prod.mk.injEq] at hcore'
  obtain ⟨htx, _, _, hlength⟩ := hcore'
  rw [← hlength, ← htx]
  exact h t entry' hentry'

/-! ## Direct spends -/

/-- A reference that `scan_outputkeys_for_indexes` accepts. -/
theorem scanOutput_ok {db : Db} {now : Nat} {tx : Transaction} {input : Txin} {amount : UInt64}
    {ringSize : Nat} {ref : TxoutRef} {acc acc' : ScanResult}
    (h : scanOutput db now tx input amount ringSize ref acc = .ok acc') :
    ∃ p out, resolveOutputRef db amount ref = some p ∧ db.outputAt p = some out ∧
      out.target.isIndexed = true := by
  obtain ⟨t, n, entry, out, _, _, _, hresolve, hentry, hout, hallowed, _⟩ :=
    scanOutput_eq_ok_iff.mp h
  refine ⟨(t, n), out, hresolve, by rw [Db.outputAt, hentry, Option.bind_some, hout], ?_⟩
  cases htarget : out.target with
  | multisig target =>
      rw [htarget] at hallowed
      cases hallowed
  | toKey target => rfl
  | htlc target => rfl

/-- A direct spend that the scan accepts names a key or HTLC output. -/
theorem scanOutputkeysForIndexes_ok {db : Db} {now : Nat} {tx : Transaction} {input : Txin}
    {part : TxinToKey} {height : Nat} {scan : ScanResult}
    (h : scanOutputkeysForIndexes db now tx input part height = .ok scan) {ref : TxoutRef}
    (hdirect : part.keyOffsets = [ref]) :
    ∃ p out, db.directTarget part = some p ∧ db.outputAt p = some out ∧
      out.target.isIndexed = true := by
  unfold scanOutputkeysForIndexes at h
  rw [require_bind_eq_ok, bind_eq_ok, hdirect] at h
  obtain ⟨_, offsets, hoffsets, hscan⟩ := h
  have hone : relativeOutputOffsetsToAbsolute [ref] = .ok [ref] := by
    cases ref <;> rfl
  rw [hone] at hoffsets
  cases hoffsets
  rw [scanOutputs, bind_eq_ok] at hscan
  obtain ⟨acc, hfirst, _⟩ := hscan
  obtain ⟨p, out, hp, hout⟩ := scanOutput_ok hfirst
  refine ⟨p, out, ?_, hout⟩
  rw [Db.directTarget, hdirect]
  exact hp

/-- What the scan of the outputs of a key or HTLC input promises. -/
theorem inputChecked_of_scan {db : Db} {now : Nat} {tx : Transaction} {input : Txin}
    {part : TxinToKey} {height : Nat} {scan : ScanResult} (hpart : input.toKeyPart? = some part)
    (hscan : scanOutputkeysForIndexes db now tx input part height = .ok scan) :
    InputChecked db input := by
  refine ⟨?_, ?_⟩
  · intro id hid
    cases input with
    | multisig txin => cases hpart
    | gen height => cases hid
    | toKey txin => cases hid
    | htlc txin => cases hid
  · intro part' p hpart' htarget
    rw [hpart] at hpart'
    cases hpart'
    have hdirect : ∃ ref, part.keyOffsets = [ref] := by
      unfold Db.directTarget at htarget
      split at htarget
      · exact ⟨_, by assumption⟩
      · cases htarget
    obtain ⟨ref, href⟩ := hdirect
    obtain ⟨q, out, hq, hout⟩ := scanOutputkeysForIndexes_ok hscan href
    rw [hq] at htarget
    cases htarget
    exact ⟨out, hout⟩

theorem spendTarget_of_toKeyPart {db : Db} {input : Txin} {part : TxinToKey}
    (hpart : input.toKeyPart? = some part) : db.spendTarget input = db.directTarget part := by
  cases input with
  | gen height => cases hpart
  | multisig txin => cases hpart
  | toKey txin =>
      cases hpart
      rfl
  | htlc txin =>
      cases hpart
      rfl

theorem inputAddable_of_scan {db : Db} (hflags : FlagsComplete db) {now : Nat} {tx : Transaction}
    {input : Txin} {part : TxinToKey} {height : Nat} {scan : ScanResult}
    (hpart : input.toKeyPart? = some part)
    (hscan : scanOutputkeysForIndexes db now tx input part height = .ok scan)
    (hfresh : haveTxKeyimgAsSpent db part.kImage = false)
    (hzone : input.isHtlc = true → env.isAfterHardfork3Zone db.size = true) :
    InputAddable env db input where
  fresh := by
    intro ki hki
    rw [Txin.keyImage?, hpart] at hki
    cases hki
    rw [haveTxKeyimgAsSpent] at hfresh
    simpa using hfresh
  htlcAllowed := hzone
  target := by
    intro hmarks
    have hdirect : ∃ ref, part.keyOffsets = [ref] := by
      have hlength : part.keyOffsets.length = 1 := by
        cases input <;> cases hpart <;> simpa [Txin.marksOutput] using hmarks
      exact List.length_eq_one_iff.mp hlength
    obtain ⟨ref, href⟩ := hdirect
    obtain ⟨p, out, hp, hout, _⟩ := scanOutputkeysForIndexes_ok hscan href
    exact ⟨p, by rw [spendTarget_of_toKeyPart hpart, hp], hflags.flagAt_isSome hout⟩

/-! ## Multisig inputs -/

theorem checkTxInputMultisig_ok {db : Db} {zone : Bool} {now : Nat} {tx : Transaction} {i : Nat}
    {txin : TxinMultisig} {hash : Hash} {height : Nat}
    (h : checkTxInputMultisig env db zone now tx i txin hash = .ok height) :
    ∃ ms, db.multisigOuts.lookup txin.multisigOutId = some ms ∧ ms.spentHeight = 0 ∧
      db.IsMultisigOutput (ms.txId, ms.outNo) ∧
      flagAt db.transactions (ms.txId, ms.outNo) = some false := by
  obtain ⟨ms, entry, target, hms, hunspent, hentry, hkind, hflag, _⟩ :=
    checkTxInputMultisig_eq_ok_iff.mp h
  obtain ⟨out, hout, htarget⟩ := Option.map_eq_some_iff.mp hkind
  refine ⟨ms, hms, hunspent, ⟨out, by rw [Db.outputAt, hentry, Option.bind_some, hout], ?_⟩,
    by rw [flagAt, hentry, Option.bind_some, hflag]⟩
  rw [htarget]
  rfl

/-! ## All inputs -/

theorem inputChecked_gen (db : Db) (height : Nat) : InputChecked db (.gen height) :=
  ⟨nofun, nofun⟩

/-- What one turn of `check_tx_inputs` promises. -/
theorem checkTxInput_ok {db : Db} {zone : Bool} {now : Nat} {tx : Transaction} {hash : Hash}
    {i height height' : Nat} {input : Txin}
    (h : checkTxInput env db zone now tx hash i height input = .ok height') :
    InputChecked db input ∧ (FlagsComplete db → InputAddable env db input) := by
  have hscanned : ∀ {part}, input.toKeyPart? = some part →
      InputChecked db input ∧ (FlagsComplete db → InputAddable env db input) := by
    intro part hpart
    obtain ⟨scan, hscan, hfresh, hzone, _⟩ := checkTxInput_scan hpart h
    exact ⟨inputChecked_of_scan hpart hscan, fun hflags =>
      inputAddable_of_scan hflags hpart hscan hfresh hzone⟩
  cases input with
  | gen height => exact ⟨inputChecked_gen db height, fun _ => inputAddable_gen height⟩
  | toKey txin => exact hscanned rfl
  | multisig txin =>
      unfold checkTxInput at h
      rw [require_bind_eq_ok] at h
      obtain ⟨ms, hms, hunspent, hmultisig, hflag⟩ := checkTxInputMultisig_ok h.2
      have htarget : db.spendTarget (.multisig txin) = some (ms.txId, ms.outNo) := by
        rw [Db.spendTarget, hms, Option.map_some]
      refine ⟨⟨?_, ?_⟩, fun _ => inputAddable_multisig htarget (by rw [hflag, Option.isSome_some])⟩
      · rintro id ⟨⟩
        exact ⟨ms, hms, hunspent, hmultisig, hflag⟩
      · intro part p hpart
        cases hpart
  | htlc txin => exact hscanned rfl

theorem checkTxInputsFrom_ok {db : Db} {zone : Bool} {now : Nat} {tx : Transaction} {hash : Hash}
    {i height height' : Nat} {inputs : List Txin}
    (h : checkTxInputsFrom env db zone now tx hash i height inputs = .ok height') :
    ∀ input ∈ inputs, InputChecked db input ∧ (FlagsComplete db → InputAddable env db input) := by
  induction inputs generalizing i height with
  | nil => exact nofun
  | cons input rest ih =>
      rw [checkTxInputsFrom, bind_eq_ok] at h
      obtain ⟨height₁, hfirst, hrest⟩ := h
      intro other hother
      rcases List.mem_cons.mp hother with rfl | hother
      · exact checkTxInput_ok hfirst
      · exact ih hrest other hother

/-- `check_tx_inputs`. -/
theorem checkTxInputs_ok {db : Db} {zone : Bool} {now : Nat} {tx : Transaction} {hash : Hash}
    {height : Nat} (h : checkTxInputs env db zone now tx hash = .ok height) :
    ∀ input ∈ tx.vin, InputChecked db input ∧ (FlagsComplete db → InputAddable env db input) := by
  unfold checkTxInputs at h
  rw [bind_eq_ok] at h
  obtain ⟨maxUsed, hrun, _⟩ := h
  exact checkTxInputsFrom_ok hrun

/-- The stake of a PoS block is checked on the main chain only. -/
theorem validatePosBlock_ok {db : Db} {zone : Bool} {now : Nat} {b : Block} {id : Hash}
    {basicDiff : WideDifficulty} {proofHash : Hash}
    (h : validatePosBlock env db zone now b id basicDiff = .ok proofHash) :
    ∃ coinstakeIn scan, coinstakeInput? b.minerTx = some coinstakeIn ∧
      haveTxKeyimgAsSpent db coinstakeIn.kImage = false ∧
      scanOutputkeysForIndexes db now b.minerTx (.toKey coinstakeIn) coinstakeIn 0 = .ok scan := by
  obtain ⟨coinstakeIn, _, hstake, hfresh, _, hinputs⟩ := validatePosBlock_eq_ok_iff.mp h
  unfold validatePosBlockInputs at hinputs
  rw [bind_eq_ok] at hinputs
  obtain ⟨scan, hcheck, _⟩ := hinputs
  exact ⟨coinstakeIn, scan, hstake, hfresh, (checkTxInputToKey_eq_ok_iff.mp hcheck).1⟩

/-- The coinbase of a checked header. -/
theorem CheckedHeader.inputs {now : Nat} {bl : Block} {id : Hash} {db : Db}
    {currentDiffic : WideDifficulty} {stakeHash : Hash}
    (h : CheckedHeader env now bl id db currentDiffic stakeHash) :
    ∀ input ∈ bl.minerTx.vin,
      InputChecked db input ∧ (FlagsComplete db → InputAddable env db input) := by
  have hgen : ∀ height, InputChecked db (.gen height) ∧
      (FlagsComplete db → InputAddable env db (.gen height)) :=
    fun height => ⟨inputChecked_gen db height, fun _ => inputAddable_gen height⟩
  have hminer := h.minerTx
  unfold prevalidateMinerTransaction at hminer
  rw [require_bind_eq_ok] at hminer
  have hshape := hminer.1
  split at hshape
  · rename_i height hvin
    rw [hvin]
    intro input hinput
    rw [List.mem_singleton.mp hinput]
    exact hgen height
  · rename_i height stake hvin
    have hpos : isPosBlock bl = true := by
      simp only [Bool.and_eq_true] at hshape
      exact hshape.1
    have hproof := h.proof
    rw [checkProof, if_pos hpos] at hproof
    obtain ⟨coinstakeIn, scan, hstake, hfresh, hscan⟩ := validatePosBlock_ok hproof
    rw [coinstakeInput?, hvin] at hstake
    cases hstake
    have hpart : (Txin.toKey stake).toKeyPart? = some stake := rfl
    rw [hvin]
    intro input hinput
    rcases List.mem_cons.mp hinput with rfl | hinput
    · exact hgen height
    · rw [List.mem_singleton.mp hinput]
      exact ⟨inputChecked_of_scan hpart hscan, fun hflags =>
        inputAddable_of_scan hflags hpart hscan hfresh fun hhtlc =>
          absurd hhtlc Bool.false_ne_true⟩
  · cases hshape

/-- A coinbase spends no multisig output. -/
theorem CheckedHeader.no_multisig {now : Nat} {bl : Block} {id : Hash} {db : Db}
    {currentDiffic : WideDifficulty} {stakeHash : Hash}
    (h : CheckedHeader env now bl id db currentDiffic stakeHash) :
    ∀ input ∈ bl.minerTx.vin, input.multisigOutId? = none := by
  have hminer := h.minerTx
  unfold prevalidateMinerTransaction at hminer
  rw [require_bind_eq_ok] at hminer
  have hshape := hminer.1
  split at hshape
  · rename_i hvin
    rw [hvin]
    simp [Txin.multisigOutId?]
  · rename_i hvin
    rw [hvin]
    simp [Txin.multisigOutId?]
  · cases hshape

end Chinet
