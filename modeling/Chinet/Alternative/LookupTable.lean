import Chinet.Alternative.Validation
import Chinet.Lib.PartialSteps
import Chinet.Storage.OutputIndexes

/-!
# The lookup table at a height of the main chain

The first block of an alternative chain starts from the number of outputs that every amount had
where it leaves the main chain.  `calculate_local_gindex_lookup_table_for_height` takes it from the
present index: it subtracts the increments of the blocks from that height up.  On every reachable
chain this is the place in the index where the outputs of these blocks begin.

An increment is an `uint32_t` in the source and a number here.  It counts outputs of one block, each
of which takes more than a byte there, so in a block of less than `2 ^ 32` bytes it cannot wrap.
-/

namespace Chinet

open Procedure FiniteStore

variable {env : Env} {records : List BlockRecord} {db : Db}

/-! ## The table -/

/-- The height of the block with an output. -/
def Db.outputHeight (db : Db) (g : GlobalOutputEntry) : Nat :=
  ((db.transactions.lookup g.txId).map TransactionChainEntry.keeperBlockHeight).getD 0

/-- The table knows the amounts that appear from `height` up.  In the index of such an amount it
separates the outputs below `height` from the others. -/
structure LookupTableAt (db : Db) (height : Nat) (table : UInt64 → Option Nat) : Prop where
  unknown : ∀ amount, table amount = none ↔
    ∀ g ∈ db.outputs amount, db.outputHeight g < height
  separates : ∀ (amount : UInt64) (n i : Nat) (g : GlobalOutputEntry), table amount = some n →
    (db.outputs amount)[i]? = some g → (i < n ↔ db.outputHeight g < height)
  le_length : ∀ amount n, table amount = some n → n ≤ (db.outputs amount).length

/-! ## Heights in the index -/

theorem History.outputHeights_eq (h : History env records db) (amount : UInt64) :
    (db.outputs amount).map db.outputHeight =
      records.flatMap fun r => (r.placedOutputs amount).map Prod.snd := by
  have hplaced := congrArg (List.map fun placed => (Option.map Prod.snd placed).getD 0)
    (h.placedOutputs_eq amount)
  rw [List.map_map, List.map_map, List.map_flatMap] at hplaced
  refine Eq.trans ?_ hplaced
  refine List.map_congr_left fun g hg => ?_
  obtain ⟨entry, out, hentry, hout, hindexed, _⟩ := h.ledger.mem_outputs_iff.mp hg
  rw [← TxoutTarget.keyOrHtlc?_isSome] at hindexed
  obtain ⟨key, hkey⟩ := Option.isSome_iff_exists.mp hindexed
  simp [Db.outputHeight, Db.placedOutput, hentry, hout, hkey]

/-- The number of outputs in the first blocks. -/
def outputsBelow (records : List BlockRecord) (height : Nat) (amount : UInt64) : Nat :=
  ((records.take height).flatMap fun r => r.outputsOf amount).length

theorem map_placeAt_snd (height : Nat) (outs : List OutputKeyOrHtlc) :
    (placeAt height outs).map Prod.snd = List.replicate outs.length height := by
  rw [placeAt, List.map_map]
  exact List.map_const' ..

/-- The outputs below a height come first. -/
theorem History.lt_outputsBelow_iff (h : History env records db) {height i : Nat} {amount : UInt64}
    {g : GlobalOutputEntry} (hg : (db.outputs amount)[i]? = some g) :
    i < outputsBelow records height amount ↔ db.outputHeight g < height := by
  have hheight : ((db.outputs amount).map db.outputHeight)[i]? = some (db.outputHeight g) := by
    rw [List.getElem?_map, hg, Option.map_some]
  have hheights : ∀ (k : Nat) (r : BlockRecord), records[k]? = some r →
      (r.placedOutputs amount).map Prod.snd = List.replicate (r.outputsOf amount).length k := by
    intro k r hr
    rw [h.record_placedOutputs hr, map_placeAt_snd]
  have hlength : ∀ r ∈ records,
      ((r.placedOutputs amount).map Prod.snd).length = (r.outputsOf amount).length := by
    intro r hr
    obtain ⟨k, hk⟩ := List.getElem?_of_mem hr
    rw [hheights k r hk, List.length_replicate]
  have hsplit := h.outputHeights_eq amount
  rw [← List.take_append_drop height records, List.flatMap_append] at hsplit
  have hbelow : ((records.take height).flatMap fun r => (r.placedOutputs amount).map Prod.snd).length =
      outputsBelow records height amount := by
    rw [outputsBelow, List.length_flatMap, List.length_flatMap]
    congr 1
    exact List.map_congr_left fun r hr => hlength r (List.mem_of_mem_take hr)
  rw [hsplit] at hheight
  rcases Nat.lt_or_ge i (outputsBelow records height amount) with hlt | hge
  · rw [List.getElem?_append_left (by rw [hbelow]; exact hlt)] at hheight
    obtain ⟨r, hr, hmem⟩ := List.mem_flatMap.mp (List.mem_of_getElem? hheight)
    obtain ⟨k, hk⟩ := List.getElem?_of_mem hr
    rw [List.getElem?_take] at hk
    split at hk
    · rename_i hklt
      rw [hheights k r hk] at hmem
      rw [List.eq_of_mem_replicate hmem]
      exact ⟨fun _ => hklt, fun _ => hlt⟩
    · cases hk
  · rw [List.getElem?_append_right (by rw [hbelow]; exact hge)] at hheight
    obtain ⟨r, hr, hmem⟩ := List.mem_flatMap.mp (List.mem_of_getElem? hheight)
    obtain ⟨k, hk⟩ := List.getElem?_of_mem hr
    rw [List.getElem?_drop] at hk
    rw [hheights _ r hk] at hmem
    rw [List.eq_of_mem_replicate hmem]
    omega

/-! ## The increments -/

/-- The increments of the blocks from a height up. -/
theorem gindexIncrementsFrom_eq (hist : History env records db)
    (hstored : IncrementsStored env records db) (hle : records.length ≤ 2 ^ 32) (height : Nat) :
    gindexIncrementsFrom db height =
      .ok ((records.drop height).map fun r => (r.totals env).gindices) := by
  have hsize : db.size = records.length := by rw [Db.size, hist.blocks_eq, List.length_map]
  rw [gindexIncrementsFrom, hsize]
  refine (PartialSteps.mapM_eq_ok
    (g := fun h => ((records[h]?).map fun r => (r.totals env).gindices).getD ∅)
    fun h hh => ?_).trans (congrArg _ ?_)
  · have hlt : h < records.length := List.mem_range.mp (List.mem_of_mem_drop hh)
    rw [Nat.mod_eq_of_lt (by omega), hstored h, List.getElem?_eq_getElem hlt]
    rfl
  · apply List.ext_getElem (by simp)
    intro i hi hi'
    have hlt : height + i < records.length := by
      rw [List.length_map, List.length_drop, List.length_range] at hi
      omega
    simp [List.getElem?_eq_getElem hlt]

/-- The total of an amount is the number of its outputs in the blocks. -/
theorem sum_increments (hist : History env records db) (height : Nat) (amount : UInt64) :
    (((records.drop height).map fun r => (r.totals env).gindices).map fun incs =>
        (incs.lookup amount).getD 0).sum + outputsBelow records height amount =
      (db.outputs amount).length := by
  have htotal : (db.outputs amount).length = (records.flatMap fun r => r.outputsOf amount).length := by
    have hplaced := congrArg List.length (hist.placedOutputs_eq amount)
    rw [List.length_map, List.length_map, List.length_flatMap] at hplaced
    rw [hplaced, List.length_flatMap]
    congr 1
    refine List.map_congr_left fun r hr => ?_
    obtain ⟨k, hk⟩ := List.getElem?_of_mem hr
    rw [hist.record_placedOutputs hk, length_placeAt]
  have hincs : ((records.drop height).map fun r => (r.totals env).gindices).map (fun incs =>
      (incs.lookup amount).getD 0) = (records.drop height).map fun r => (r.outputsOf amount).length := by
    rw [List.map_map]
    refine List.map_congr_left fun r hr => ?_
    obtain ⟨D, hvalid⟩ := hist.blockValid r (List.mem_of_mem_drop hr)
    exact (BlockRecord.lookup_gindices hvalid amount).1
  have hsplit : (records.flatMap fun r => r.outputsOf amount).length =
      outputsBelow records height amount +
        ((records.drop height).flatMap fun r => r.outputsOf amount).length := by
    rw [outputsBelow, ← List.length_append, ← List.flatMap_append, List.take_append_drop]
  rw [hincs, htotal, hsplit, List.length_flatMap, Nat.add_comm]

/-- An amount has increments from a height up if an output of it is there. -/
theorem any_increments (hist : History env records db) (height : Nat) (amount : UInt64) :
    ((records.drop height).map fun r => (r.totals env).gindices).any (amount ∈ ·) = false ↔
      (db.outputs amount).length = outputsBelow records height amount := by
  have hnone : ∀ r ∈ records.drop height, amount ∉ (r.totals env).gindices ↔
      (r.outputsOf amount).length = 0 := by
    intro r hr
    obtain ⟨D, hvalid⟩ := hist.blockValid r (List.mem_of_mem_drop hr)
    rw [mem_iff_lookup_ne_none, not_not, (BlockRecord.lookup_gindices hvalid amount).2,
      List.length_eq_zero_iff]
  have hsum := sum_increments hist height amount
  have hzero : (((records.drop height).map fun r => (r.totals env).gindices).map fun incs =>
      (incs.lookup amount).getD 0).sum = 0 ↔
        ∀ r ∈ records.drop height, (r.outputsOf amount).length = 0 := by
    rw [List.sum_eq_zero_iff_forall_eq_nat, List.map_map, List.forall_mem_map]
    refine forall₂_congr fun r hr => ?_
    obtain ⟨D, hvalid⟩ := hist.blockValid r (List.mem_of_mem_drop hr)
    rw [Function.comp_apply, (BlockRecord.lookup_gindices hvalid amount).1]
  rw [List.any_eq_false, List.forall_mem_map]
  simp only [decide_eq_true_eq]
  rw [forall₂_congr hnone, ← hzero]
  omega

/-- The total of an amount, if it has increments. -/
def gindexTotal (increments : List (FiniteStore UInt64 Nat)) (amount : UInt64) : Option Nat :=
  if increments.any (amount ∈ ·) then
    some (increments.map fun incs => (incs.lookup amount).getD 0).sum
  else none

/-- Where an amount has a total, this and the outputs below are all of its outputs. -/
theorem gindexTotal_cases (hist : History env records db) (height : Nat) (amount : UInt64) :
    let total := gindexTotal ((records.drop height).map fun r => (r.totals env).gindices) amount
    (total = none ∧ (db.outputs amount).length = outputsBelow records height amount) ∨
      ∃ n, total = some n ∧ n + outputsBelow records height amount = (db.outputs amount).length ∧
        outputsBelow records height amount < (db.outputs amount).length := by
  intro total
  have hsum := sum_increments hist height amount
  have hany := any_increments hist height amount
  unfold total gindexTotal
  cases hknown : ((records.drop height).map fun r => (r.totals env).gindices).any (amount ∈ ·) with
  | false => exact Or.inl ⟨rfl, hany.mp hknown⟩
  | true =>
      have hne : (db.outputs amount).length ≠ outputsBelow records height amount := by
        intro heq
        rw [hany.mpr heq] at hknown
        cases hknown
      exact Or.inr ⟨_, rfl, hsum, by omega⟩

/-- For every height of a run in which heights fit their keys, the table is found and is right. -/
theorem lookupTable_exact (h : ShortReachable env db) (height : Nat) :
    ∃ table, calculateLocalGindexLookupTableForHeight db height = .ok table ∧
      LookupTableAt db height table := by
  obtain ⟨records, hist, hstored, hle⟩ := h.storedHistory
  have hsize : FiniteStore.size db.perBlockGindexIncs = db.size := by
    rw [Db.size, hist.blocks_eq, List.length_map]
    refine size_of_lookup fun k => ?_
    rw [hstored k, Ne, Option.map_eq_none_iff, List.getElem?_eq_none_iff]
    omega
  have hcases := gindexTotal_cases hist height
  dsimp only at hcases
  generalize hincrements : ((records.drop height).map fun r => (r.totals env).gindices) = increments
    at hcases
  have hfrom := gindexIncrementsFrom_eq hist hstored hle height
  rw [hincrements] at hfrom
  refine ⟨fun amount => (gindexTotal increments amount).map fun n => (db.outputs amount).length - n,
    ?_, ?_, ?_, ?_⟩
  · rw [calculateLocalGindexLookupTableForHeight, requireThrow_bind_eq_ok, bind_eq_ok]
    refine ⟨decide_eq_true hsize, _, hfrom, requireThrow_bind_eq_ok.mpr ⟨?_, rfl⟩⟩
    -- the increments of an amount are outputs of it
    refine List.all_eq_true.mpr fun incs _ => all_of_forall incs fun amount _ => decide_eq_true ?_
    show (gindexTotal increments amount).getD 0 ≤ _
    obtain ⟨hnone, _⟩ | ⟨n, hsome, hsum, _⟩ := hcases amount
    · rw [hnone]
      exact Nat.zero_le _
    · rw [hsome, Option.getD_some]
      omega
  · intro amount
    rw [Option.map_eq_none_iff]
    obtain ⟨hnone, hall⟩ | ⟨n, hsome, hsum, hlt⟩ := hcases amount
    · refine iff_of_true hnone fun g hg => ?_
      obtain ⟨i, hi⟩ := List.getElem?_of_mem hg
      rw [← hist.lt_outputsBelow_iff hi, ← hall]
      exact (List.getElem?_eq_some_iff.mp hi).1
    · refine iff_of_false (by rw [hsome]; exact Option.some_ne_none n) fun hall => ?_
      have hfirst := List.getElem?_eq_getElem hlt
      exact absurd ((hist.lt_outputsBelow_iff hfirst).mpr (hall _ (List.getElem_mem hlt)))
        (Nat.lt_irrefl _)
  · intro amount n i g hn hg
    obtain ⟨hnone, _⟩ | ⟨m, hsome, hsum, _⟩ := hcases amount
    · rw [hnone] at hn
      cases hn
    · rw [hsome, Option.map_some, Option.some.injEq] at hn
      rw [← hist.lt_outputsBelow_iff hg, ← hn]
      omega
  · intro amount n hn
    obtain ⟨m, _, rfl⟩ := Option.map_eq_some_iff.mp hn
    exact Nat.sub_le _ _

/-- Adding blocks to a short chain. -/
theorem ShortReachable.of_addBlocks {now : Nat} {onboard : TransactionsMap} {blocks : List Block}
    {node node' : Node} (hreach : ShortReachable env node.db)
    (hlength : node.db.size + blocks.length ≤ 2 ^ 32)
    (h : addBlocks env now onboard blocks node = some node') : ShortReachable env node'.db := by
  induction blocks generalizing node with
  | nil =>
      cases h
      exact hreach
  | cons bl rest ih =>
      rw [List.length_cons] at hlength
      rw [addBlocks] at h
      split at h
      · rename_i n hrun
        obtain ⟨s⟩ := handleBlockToMainChain_added hrun
        have hsize : n.db.size = node.db.size + 1 := by simp [Db.size, s.blocks_eq]
        exact ih (.addBlock hreach (show node.db.size < 2 ^ 32 by omega) hrun) (by omega) h
      · cases h

theorem shortReachable_keyBlocksNode : ShortReachable sampleEnv keyBlocksNode.db := by
  have hrun : (addBlocks sampleEnv 100000 ∅ keyBlocks emptyNode).isSome = true := by decide +kernel
  obtain ⟨node, hnode⟩ := Option.isSome_iff_exists.mp hrun
  rw [keyBlocksNode, hnode, Option.getD_some]
  have hblocks : keyBlocks = sampleKeyBlock 0 0 :: keyBlocks.tail := rfl
  rw [hblocks, addBlocks] at hnode
  split at hnode
  · rename_i n hgenesis
    obtain ⟨s⟩ := handleBlockToMainChain_added hgenesis
    have hsize : n.db.size = 1 := by simp [Db.size, s.blocks_eq, emptyNode, Db.empty]
    have hshort : ShortReachable sampleEnv n.db := .genesis rfl rfl (by decide) hgenesis
    refine hshort.of_addBlocks ?_ hnode
    rw [hsize]
    decide
  · cases hnode

/-- Two of the three rewards are in the blocks from height 2 up. -/
theorem lookupTable_exact_sample :
    ∃ table, calculateLocalGindexLookupTableForHeight keyBlocksNode.db 2 = .ok table ∧
      LookupTableAt keyBlocksNode.db 2 table :=
  lookupTable_exact shortReachable_keyBlocksNode 2

end Chinet
