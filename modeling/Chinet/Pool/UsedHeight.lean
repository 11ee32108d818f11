import Chinet.Pool.State
import Chinet.Storage.Maturity
import Chinet.Storage.Supplement
import Mathlib.Order.Bounds.Basic

/-!
# The height a checked transaction depends on

`check_tx_inputs` returns the greatest height of a block that holds an output the transaction
refers to, and the pool takes the verdict as long as the chain still has the block of that height.

A key or HTLC input raises the maximum so far (`checkTxInput_raises`).  A multisig input replaces
it by its own height (`checkTxInput_replaces`), so what is returned is the greatest height from the
last multisig input on (`checkTxInputs_greatest`), and it covers every source exactly if no input
before that one refers to a later block.
-/

namespace Chinet

variable {env : Env} {db db' : Db} {zone : Bool} {now : Nat} {tx : Transaction} {hash : Hash}

/-! ## Sources -/

/-- The heights of the blocks that hold the outputs an input refers to. -/
def Db.sourceHeights (db : Db) (input : Txin) : Set Nat :=
  {height | ∃ txId entry, input.RefersTo db txId ∧ db.transactions.lookup txId = some entry ∧
    entry.keeperBlockHeight = height}

/-- The same for a list of references. -/
def Db.refHeights (db : Db) (amount : UInt64) (refs : List TxoutRef) : Set Nat :=
  {height | ∃ ref ∈ refs, ∃ txId n entry, resolveOutputRef db amount ref = some (txId, n) ∧
    db.transactions.lookup txId = some entry ∧ entry.keeperBlockHeight = height}

theorem sourceHeights_gen (height : Nat) : db.sourceHeights (.gen height) = ∅ := by
  rw [Set.eq_empty_iff_forall_notMem]
  rintro _ ⟨txId, entry, hrefers, -⟩
  rcases hrefers with ⟨part, _, _, _, hpart, _⟩ | ⟨id, _, hid, _⟩
  · cases hpart
  · cases hid

theorem sourceHeights_toKeyPart {input : Txin} {part : TxinToKey} {offsets : List TxoutRef}
    (hpart : input.toKeyPart? = some part)
    (hoffsets : relativeOutputOffsetsToAbsolute part.keyOffsets = .ok offsets) :
    db.sourceHeights input = db.refHeights part.amount offsets := by
  have hmultisig : input.multisigOutId? = none := by
    cases input <;> first | rfl | cases hpart
  ext height
  constructor
  · rintro ⟨txId, entry, hrefers, hentry, hheight⟩
    rcases hrefers with ⟨part', offsets', ref, n, hpart', hoffsets', href, hresolve⟩ | ⟨id, _, hid, _⟩
    · rw [hpart] at hpart'
      cases hpart'
      rw [hoffsets] at hoffsets'
      cases hoffsets'
      exact ⟨ref, href, txId, n, entry, hresolve, hentry, hheight⟩
    · rw [hmultisig] at hid
      cases hid
  · rintro ⟨ref, href, txId, n, entry, hresolve, hentry, hheight⟩
    exact ⟨txId, entry, .inl ⟨part, offsets, ref, n, hpart, hoffsets, href, hresolve⟩, hentry, hheight⟩

/-! ## The maximum over one input -/

/-- Two maxima, one after the other. -/
theorem isGreatest_trans {a b c : Nat} {S T : Set Nat} (hb : IsGreatest (insert a S) b)
    (hc : IsGreatest (insert b T) c) : IsGreatest (insert a (S ∪ T)) c := by
  have hbc : b ≤ c := hc.2 (Set.mem_insert b T)
  refine ⟨?_, ?_⟩
  · rcases hc.1 with rfl | hT
    · rcases hb.1 with heq | hS
      · exact Or.inl heq
      · exact Or.inr (Or.inl hS)
    · exact Or.inr (Or.inr hT)
  · rintro x (rfl | hS | hT)
    · exact (hb.2 (Set.mem_insert x S)).trans hbc
    · exact (hb.2 (Set.mem_insert_of_mem a hS)).trans hbc
    · exact hc.2 (Set.mem_insert_of_mem b hT)

theorem isGreatest_insert_empty (a : Nat) : IsGreatest (insert a ∅) a := by
  simp [isGreatest_singleton]

theorem scanOutput_greatest {input : Txin} {amount : UInt64} {ringSize : Nat} {ref : TxoutRef}
    {acc acc' : ScanResult} (h : scanOutput db now tx input amount ringSize ref acc = .ok acc') :
    IsGreatest (insert acc.maxRelatedBlockHeight (db.refHeights amount [ref]))
      acc'.maxRelatedBlockHeight := by
  obtain ⟨txId, n, entry, _, _, _, _, hresolve, hentry, _, _, _, _, _, rfl⟩ :=
    scanOutput_eq_ok_iff.mp h
  have hheights : db.refHeights amount [ref] = {entry.keeperBlockHeight} := by
    ext height
    simp [Db.refHeights, hresolve, hentry, eq_comm]
  rw [hheights]
  exact isGreatest_pair

theorem scanOutputs_greatest {input : Txin} {amount : UInt64} {ringSize : Nat} {refs : List TxoutRef}
    {acc acc' : ScanResult} (h : scanOutputs db now tx input amount ringSize refs acc = .ok acc') :
    IsGreatest (insert acc.maxRelatedBlockHeight (db.refHeights amount refs))
      acc'.maxRelatedBlockHeight := by
  induction refs generalizing acc with
  | nil =>
      cases h
      have hnone : db.refHeights amount [] = ∅ := by
        ext height
        simp [Db.refHeights]
      rw [hnone]
      exact isGreatest_insert_empty _
  | cons ref rest ih =>
      rw [scanOutputs, bind_eq_ok] at h
      obtain ⟨next, hfirst, hrest⟩ := h
      have hcons : db.refHeights amount (ref :: rest) =
          db.refHeights amount [ref] ∪ db.refHeights amount rest := by
        ext height
        simp [Db.refHeights, or_and_right, exists_or]
      rw [hcons]
      exact isGreatest_trans (scanOutput_greatest hfirst) (ih hrest)

theorem scanOutputkeysForIndexes_greatest {input : Txin} {part : TxinToKey} {height : Nat}
    {scan : ScanResult} (hpart : input.toKeyPart? = some part)
    (h : scanOutputkeysForIndexes db now tx input part height = .ok scan) :
    IsGreatest (insert height (db.sourceHeights input)) scan.maxRelatedBlockHeight := by
  unfold scanOutputkeysForIndexes at h
  rw [require_bind_eq_ok, bind_eq_ok] at h
  obtain ⟨_, offsets, hoffsets, hscan⟩ := h
  rw [sourceHeights_toKeyPart hpart hoffsets]
  exact scanOutputs_greatest hscan

def Txin.isMultisig : Txin → Bool
  | .multisig _ => true
  | _ => false

/-- Every input but a multisig input raises the height to the greatest of its sources. -/
theorem checkTxInput_raises {i height height' : Nat} {input : Txin} (hkind : input.isMultisig = false)
    (h : checkTxInput env db zone now tx hash i height input = .ok height') :
    IsGreatest (insert height (db.sourceHeights input)) height' := by
  have hscanned : ∀ {part}, input.toKeyPart? = some part →
      IsGreatest (insert height (db.sourceHeights input)) height' := by
    intro part hpart
    obtain ⟨scan, hscan, _, _, rfl⟩ := checkTxInput_scan hpart h
    exact scanOutputkeysForIndexes_greatest hpart hscan
  cases input with
  | gen _ =>
      unfold checkTxInput at h
      rw [require_bind_eq_ok] at h
      cases h.2
      rw [sourceHeights_gen]
      exact isGreatest_insert_empty _
  | multisig txin => cases hkind
  | toKey txin => exact hscanned rfl
  | htlc txin => exact hscanned rfl

/-- A multisig input forgets the height so far. -/
theorem checkTxInput_replaces {i height height' : Nat} {input : Txin} (hkind : input.isMultisig = true)
    (h : checkTxInput env db zone now tx hash i height input = .ok height') :
    db.sourceHeights input = {height'} := by
  unfold checkTxInput at h
  rw [require_bind_eq_ok] at h
  replace h := h.2
  cases input with
  | gen _ => cases hkind
  | toKey txin => cases hkind
  | htlc txin => cases hkind
  | multisig txin =>
      obtain ⟨ms, entry, _, hms, _, hentry, _, _, _, rfl⟩ := checkTxInputMultisig_eq_ok_iff.mp h
      ext height
      constructor
      · rintro ⟨txId, entry', hrefers, hentry', hheight⟩
        rcases hrefers with ⟨part, _, _, _, hpart, _⟩ | ⟨id, ms', hid, hms', htxId⟩
        · cases hpart
        · cases hid
          rw [hms] at hms'
          cases hms'
          rw [← htxId, hentry] at hentry'
          cases hentry'
          exact hheight.symm
      · rintro rfl
        exact ⟨ms.txId, entry, .inr ⟨_, ms, rfl, hms, rfl⟩, hentry, rfl⟩

/-! ## The maximum over all inputs -/

/-- The heights of the sources of some inputs. -/
def Db.sourcesOf (db : Db) (inputs : List Txin) : Set Nat :=
  {height | ∃ input ∈ inputs, height ∈ db.sourceHeights input}

theorem sourcesOf_cons (input : Txin) (rest : List Txin) :
    db.sourcesOf (input :: rest) = db.sourceHeights input ∪ db.sourcesOf rest := by
  ext height
  simp [Db.sourcesOf]

/-- The inputs from the last multisig input on, or all of them without one. -/
def fromLastMultisig : List Txin → List Txin
  | [] => []
  | input :: rest => if rest.any Txin.isMultisig then fromLastMultisig rest else input :: rest

theorem fromLastMultisig_eq_self {inputs : List Txin} (h : inputs.any Txin.isMultisig = false) :
    fromLastMultisig inputs = inputs := by
  cases inputs with
  | nil => rfl
  | cons input rest =>
      rw [List.any_cons, Bool.or_eq_false_iff] at h
      rw [fromLastMultisig, h.2]
      rfl

theorem checkTxInputsFrom_raises {i height height' : Nat} {inputs : List Txin}
    (hkind : inputs.any Txin.isMultisig = false)
    (h : checkTxInputsFrom env db zone now tx hash i height inputs = .ok height') :
    IsGreatest (insert height (db.sourcesOf inputs)) height' := by
  induction inputs generalizing i height with
  | nil =>
      cases h
      have hnone : db.sourcesOf [] = ∅ := by
        ext height
        simp [Db.sourcesOf]
      rw [hnone]
      exact isGreatest_insert_empty _
  | cons input rest ih =>
      rw [List.any_cons, Bool.or_eq_false_iff] at hkind
      rw [checkTxInputsFrom, bind_eq_ok] at h
      obtain ⟨height₁, hfirst, hrest⟩ := h
      rw [sourcesOf_cons]
      exact isGreatest_trans (checkTxInput_raises hkind.1 hfirst) (ih hkind.2 hrest)

/-- After a multisig input only it and the inputs behind it count. -/
theorem checkTxInputsFrom_greatest {i height height' : Nat} {inputs : List Txin}
    (hkind : inputs.any Txin.isMultisig = true)
    (h : checkTxInputsFrom env db zone now tx hash i height inputs = .ok height') :
    IsGreatest (db.sourcesOf (fromLastMultisig inputs)) height' := by
  induction inputs generalizing i height with
  | nil => cases hkind
  | cons input rest ih =>
      rw [checkTxInputsFrom, bind_eq_ok] at h
      obtain ⟨height₁, hfirst, hrest⟩ := h
      rw [fromLastMultisig]
      by_cases hlater : rest.any Txin.isMultisig = true
      · rw [if_pos hlater]
        exact ih hlater hrest
      · rw [if_neg hlater]
        rw [Bool.not_eq_true] at hlater
        -- this is the last one: the height starts again from its own
        have hmultisig : input.isMultisig = true := by
          rw [List.any_cons, hlater, Bool.or_false] at hkind
          exact hkind
        rw [sourcesOf_cons, checkTxInput_replaces hmultisig hfirst, Set.singleton_union]
        exact checkTxInputsFrom_raises hlater hrest

/-- What `check_tx_inputs` returns. -/
theorem checkTxInputs_greatest {maxUsed : Nat}
    (h : checkTxInputs env db zone now tx hash = .ok maxUsed) :
    (tx.vin.any Txin.isMultisig = false → IsGreatest (insert 0 (db.sourcesOf tx.vin)) maxUsed) ∧
      (tx.vin.any Txin.isMultisig = true →
        IsGreatest (db.sourcesOf (fromLastMultisig tx.vin)) maxUsed) := by
  unfold checkTxInputs at h
  rw [bind_eq_ok] at h
  obtain ⟨maxUsed', hrun, h⟩ := h
  have hsame : maxUsed' = maxUsed := by
    split at h
    · exact Except.ok.inj h
    · rw [require_bind_eq_ok, require_bind_eq_ok] at h
      exact Except.ok.inj h.2.2
  rw [← hsame]
  exact ⟨fun hkind => checkTxInputsFrom_raises hkind hrun,
    fun hkind => checkTxInputsFrom_greatest hkind hrun⟩

/-- No input before the last multisig input refers to a later block than all inputs from there
on. -/
def LastMultisigCovers (db : Db) (inputs : List Txin) : Prop :=
  ∀ height ∈ db.sourcesOf inputs, ∃ height' ∈ db.sourcesOf (fromLastMultisig inputs), height ≤ height'

theorem covers_iff {maxUsed : Nat} (h : checkTxInputs env db zone now tx hash = .ok maxUsed) :
    (∀ height ∈ db.sourcesOf tx.vin, height ≤ maxUsed) ↔ LastMultisigCovers db tx.vin := by
  obtain ⟨hwithout, hwith⟩ := checkTxInputs_greatest h
  by_cases hkind : tx.vin.any Txin.isMultisig = true
  · obtain ⟨hmem, hle⟩ := hwith hkind
    constructor
    · intro hcovers height hheight
      exact ⟨maxUsed, hmem, hcovers height hheight⟩
    · intro hlast height hheight
      obtain ⟨height', hheight', hlower⟩ := hlast height hheight
      calc height ≤ height' := hlower
        _ ≤ maxUsed := hle hheight'
  · rw [Bool.not_eq_true] at hkind
    have hle := (hwithout hkind).2
    constructor
    · intro _ height hheight
      rw [fromLastMultisig_eq_self hkind]
      exact ⟨height, hheight, le_rfl⟩
    · intro _ height hheight
      exact hle (Set.mem_insert_of_mem 0 hheight)

/-! ## The cached verdict -/

/-- `get_block_id_by_height`. -/
def Db.getBlockIdByHeight (crypto : CryptoPrimitives) (db : Db) (height : Nat) : Hash :=
  match db.blocks[height]? with
  | none => nullHash
  | some bei => crypto.getBlockHash bei.bl

/-- The branch of `is_transaction_ready_to_go` that does not check the inputs again. -/
def PoolTxDetails.reusesVerdict (crypto : CryptoPrimitives) (db : Db) (txd : PoolTxDetails) : Bool :=
  txd.maxUsedBlockId != nullHash && !(txd.maxUsedBlockHeight ≥ db.size) &&
    db.getBlockIdByHeight crypto txd.maxUsedBlockHeight == txd.maxUsedBlockId

/-- Blocks of the two chains with one id are one block. -/
def NoCollision (crypto : CryptoPrimitives) (db db' : Db) : Prop :=
  ∀ bei ∈ db.blocks, ∀ bei' ∈ db'.blocks,
    crypto.getBlockHash bei.bl = crypto.getBlockHash bei'.bl → bei.bl = bei'.bl

/-- Two chains with one block have the same blocks below it. -/
theorem same_below {bei bei' : BlockExtendedInfo} (h : ChainIndexed env db)
    (h' : ChainIndexed env db') (hfree : NoCollision env.crypto db db') (d height : Nat)
    (hbei : db.blocks[height + d]? = some bei) (hbei' : db'.blocks[height + d]? = some bei')
    (hid : env.crypto.getBlockHash bei.bl = env.crypto.getBlockHash bei'.bl) :
    db'.blocks[height]?.map (·.bl) = db.blocks[height]?.map (·.bl) := by
  induction d generalizing bei bei' with
  | zero =>
      have heq := hfree bei (List.mem_of_getElem? hbei) bei' (List.mem_of_getElem? hbei') hid
      rw [Nat.add_zero] at hbei hbei'
      rw [hbei, hbei', Option.map_some, Option.map_some, heq]
  | succ d ih =>
      have heq := hfree bei (List.mem_of_getElem? hbei) bei' (List.mem_of_getElem? hbei') hid
      have hlt : height + d < db.blocks.length :=
        Nat.lt_of_succ_lt (List.getElem?_eq_some_iff.mp hbei).1
      have hlt' : height + d < db'.blocks.length :=
        Nat.lt_of_succ_lt (List.getElem?_eq_some_iff.mp hbei').1
      -- both refer to the block below by its id
      refine ih (List.getElem?_eq_getElem hlt) (List.getElem?_eq_getElem hlt') ?_
      have hlink := h.links _ _ _ (List.getElem?_eq_getElem hlt) hbei
      have hlink' := h'.links _ _ _ (List.getElem?_eq_getElem hlt') hbei'
      rw [← hlink, ← hlink', heq]

theorem kept_of_reusesVerdict {txd : PoolTxDetails} {maxUsed height : Nat} (hreach : Reachable env db)
    (hreach' : Reachable env db') (hfree : NoCollision env.crypto db db')
    (husedHeight : txd.maxUsedBlockHeight = maxUsed)
    (hid : txd.maxUsedBlockId = db.getBlockIdByHeight env.crypto maxUsed)
    (hreuses : txd.reusesVerdict env.crypto db' = true) (hle : height ≤ maxUsed) :
    db'.blocks[height]?.map (·.bl) = db.blocks[height]?.map (·.bl) := by
  rw [PoolTxDetails.reusesVerdict, Bool.and_eq_true, Bool.and_eq_true, husedHeight, hid] at hreuses
  obtain ⟨⟨hnonnull, hsize⟩, hsame⟩ := hreuses
  have hsame' := eq_of_beq hsame
  have hlt : maxUsed < db'.blocks.length := by simpa [Db.size] using hsize
  cases hbei : db.blocks[maxUsed]? with
  | none =>
      rw [Db.getBlockIdByHeight, hbei] at hnonnull
      simp at hnonnull
  | some bei =>
      have hbei' := List.getElem?_eq_getElem hlt
      rw [Db.getBlockIdByHeight, Db.getBlockIdByHeight, hbei, hbei'] at hsame'
      have hsum : height + (maxUsed - height) = maxUsed := Nat.add_sub_cancel' hle
      exact same_below hreach.chainIndexed hreach'.chainIndexed hfree (maxUsed - height) height
        (by rw [hsum]; exact hbei) (by rw [hsum]; exact hbei') hsame'.symm

/-- The height covers every source, and a verdict that is kept with it is reused only on chains that
still have all their blocks. -/
structure UsedHeightSound (env : Env) (db : Db) (tx : Transaction) (maxUsed : Nat) : Prop where
  covers : ∀ input ∈ tx.vin, ∀ height ∈ db.sourceHeights input, height ≤ maxUsed
  kept : ∀ (txd : PoolTxDetails) (db' : Db), txd.maxUsedBlockHeight = maxUsed →
    txd.maxUsedBlockId = db.getBlockIdByHeight env.crypto maxUsed → Reachable env db' →
    NoCollision env.crypto db db' → txd.reusesVerdict env.crypto db' = true →
    ∀ input ∈ tx.vin, ∀ height ∈ db.sourceHeights input,
      db'.blocks[height]?.map (·.bl) = db.blocks[height]?.map (·.bl)

/-- Of an accepted transaction, the height covers every source if and only if no input before the
last multisig input refers to a later block than all from there on. -/
theorem usedHeightSound_iff {maxUsed : Nat} (hreach : Reachable env db)
    (h : checkTxInputs env db zone now tx hash = .ok maxUsed) :
    UsedHeightSound env db tx maxUsed ↔ LastMultisigCovers db tx.vin := by
  rw [← covers_iff h]
  constructor
  · rintro hsound height ⟨input, hinput, hheight⟩
    exact hsound.covers input hinput height hheight
  · intro hcovers
    refine ⟨fun input hinput height hheight => hcovers height ⟨input, hinput, hheight⟩, ?_⟩
    intro txd db' husedHeight hid hreach' hfree hreuses input hinput height hheight
    exact kept_of_reusesVerdict hreach hreach' hfree husedHeight hid hreuses
      (hcovers height ⟨input, hinput, hheight⟩)

/-- A transaction that consumes the outputs of the blocks 2 and 1, in this order. -/
def descendingTx : Transaction :=
  sampleMultisigTx 998 [sampleMultisigInput 0 2 currencyBlockReward,
    sampleMultisigInput 0 1 currencyBlockReward] [sampleMultisigOut (2 * currencyBlockReward)]

def twelveNode : Node :=
  (addBlocks sampleEnv 100000 ∅ ((List.range 13).map samplePlainBlock) emptyNode).getD emptyNode

theorem reachable_twelveNode : Reachable sampleEnv twelveNode.db := by
  have hrun : (addBlocks sampleEnv 100000 ∅ ((List.range 13).map samplePlainBlock)
      emptyNode).isSome = true := by
    decide +kernel
  exact reachable_of_isSome_addBlocks rfl hrun

theorem descendingTx_used :
    checkTxInputs sampleEnv twelveNode.db false 100000 descendingTx 998 = .ok 1 := by
  decide +kernel

theorem usedHeightSound_of_descendingTx :
    UsedHeightSound sampleEnv twelveNode.db descendingTx 1 ↔
      LastMultisigCovers twelveNode.db descendingTx.vin :=
  usedHeightSound_iff reachable_twelveNode descendingTx_used

/-- The output of block 2 comes first, and the height that is returned is 1. -/
theorem descendingTx_not_covered :
    ¬ ∀ (env : Env) (db : Db) (zone : Bool) (now : Nat) (tx : Transaction) (hash : Hash)
        (maxUsed : Nat), Reachable env db → checkTxInputs env db zone now tx hash = .ok maxUsed →
      UsedHeightSound env db tx maxUsed := by
  intro h
  have hsound := h _ _ _ _ _ _ _ reachable_twelveNode descendingTx_used
  have hsource : ((twelveNode.db.multisigOuts.lookup
      (sampleMultisigInput 0 2 currencyBlockReward).multisigOutId).bind fun ms =>
        twelveNode.db.transactions.lookup ms.txId).map TransactionChainEntry.keeperBlockHeight =
      some 2 := by
    decide +kernel
  obtain ⟨entry, hentry, hheight⟩ := Option.map_eq_some_iff.mp hsource
  obtain ⟨ms, hms, hlookup⟩ := Option.bind_eq_some_iff.mp hentry
  have hle := hsound.covers _ List.mem_cons_self entry.keeperBlockHeight
    ⟨ms.txId, entry, .inr ⟨_, ms, rfl, hms, rfl⟩, hlookup, rfl⟩
  rw [hheight] at hle
  exact absurd hle (by decide)

end Chinet
