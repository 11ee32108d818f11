import Chinet.Storage.Chain

/-!
# The cached fee median

`get_tx_fee_median` keeps the fee median with the index of the block it was taken
from, and takes it again when the chain asks for another index.  The cache is
written while the transactions of a block are processed, so it survives whatever
happens to the block.

Why it stays right although no one resets it: the index is a multiple of the
recalculation interval, and the median stored there depends on the blocks below it
only.  A chain that loses one of these has to grow again past a height that is no
multiple, where the block itself asks for the median of an earlier index.
-/

namespace Chinet

open Procedure

variable (env : Env)

/-! ## What asking does -/

/-- The two cache fields after a call of `get_tx_fee_median`. -/
def feeAsked (blocks : List BlockExtendedInfo) (fields : UInt64 × Nat) : UInt64 × Nat :=
  let index := getTxFeeMedianEffectiveIndex blocks.length
  if fields.2 = index then (orInitialCoast fields.1, fields.2)
  else
    match blocks[index]? with
    | none => fields
    | some bei => (orInitialCoast bei.effectiveTxFeeMedian, index)

@[simp] theorem orInitialCoast_idem (median : UInt64) :
    orInitialCoast (orInitialCoast median) = orInitialCoast median := by
  unfold orInitialCoast
  by_cases hzero : median = 0
  · rw [if_pos hzero]
    rfl
  · rw [if_neg hzero, if_neg hzero]

theorem feeFields_getTxFeeMedian (node : Node) :
    (getTxFeeMedian node).2.feeFields = feeAsked node.db.blocks node.feeFields := by
  change _ = if node.currentFeeMedianEffectiveIndex = getTxFeeMedianEffectiveIndex node.db.size then
      (orInitialCoast node.currentFeeMedian, node.currentFeeMedianEffectiveIndex)
    else match node.db.blocks[getTxFeeMedianEffectiveIndex node.db.size]? with
      | none => node.feeFields
      | some bei => (orInitialCoast bei.effectiveTxFeeMedian,
          getTxFeeMedianEffectiveIndex node.db.size)
  unfold getTxFeeMedian
  dsimp only
  by_cases hindex : node.currentFeeMedianEffectiveIndex = getTxFeeMedianEffectiveIndex node.db.size
  · rw [if_neg (not_not.mpr hindex), if_pos hindex]
    rfl
  · rw [if_pos hindex, if_neg hindex, txFeeMedianForHeight]
    cases node.db.blocks[getTxFeeMedianEffectiveIndex node.db.size]? <;> rfl

theorem feeAsked_idem (blocks : List BlockExtendedInfo) (fields : UInt64 × Nat) :
    feeAsked blocks (feeAsked blocks fields) = feeAsked blocks fields := by
  by_cases hindex : fields.2 = getTxFeeMedianEffectiveIndex blocks.length
  · have hasked : feeAsked blocks fields = (orInitialCoast fields.1, fields.2) := by
      unfold feeAsked
      rw [if_pos hindex]
    rw [hasked]
    unfold feeAsked
    rw [if_pos hindex, orInitialCoast_idem]
  · cases hblock : blocks[getTxFeeMedianEffectiveIndex blocks.length]? with
    | none =>
        have hasked : feeAsked blocks fields = fields := by
          simp only [feeAsked, if_neg hindex, hblock]
        rw [hasked, hasked]
    | some bei =>
        have hasked : feeAsked blocks fields = (orInitialCoast bei.effectiveTxFeeMedian,
            getTxFeeMedianEffectiveIndex blocks.length) := by
          simp only [feeAsked, if_neg hindex, hblock]
        rw [hasked]
        unfold feeAsked
        rw [if_pos rfl, orInitialCoast_idem]

/-- The chain stays, and the median is asked for or not. -/
def FeeStep (node node' : Node) : Prop :=
  node'.db.blocks = node.db.blocks ∧
    (node'.feeFields = node.feeFields ∨ node'.feeFields = feeAsked node.db.blocks node.feeFields)

instance : IsPreorder Node FeeStep where
  refl _ := ⟨rfl, .inl rfl⟩
  trans := by
    rintro s t u ⟨hst, hfee⟩ ⟨htu, hfee'⟩
    refine ⟨htu.trans hst, ?_⟩
    rw [hst] at hfee'
    rcases hfee with hfee | hfee
    · rw [hfee] at hfee'
      exact hfee'
    · rw [hfee, feeAsked_idem, or_self] at hfee'
      exact .inr hfee'

theorem follows_getTxFeeMedian : Follows FeeStep getTxFeeMedian := by
  intro node
  refine ⟨?_, .inr (feeFields_getTxFeeMedian node)⟩
  exact congrArg (fun store => store.1.blocks) (keeps_getTxFeeMedian node)

/-- The procedures of a block do nothing else to the median. -/
theorem feeSteps : FrameSteps FeeStep where
  median := follows_getTxFeeMedian
  same hframe hfee := ⟨congrArg (fun frame => frame.1.1) hframe, .inl hfee⟩

/-! ## Coherence -/

variable {env}

/-- `effective_tx_fee_median` of a block whose height is a multiple of the
recalculation interval: it depends on the blocks below only. -/
def recalculatedMedian (blocks : List BlockExtendedInfo) (height : Nat) : UInt64 :=
  if height = 0 then 0
  else
    medianOfFees
      ((((blocks.take height).drop (max 1 (height - aliasCoastPeriod))).map
        BlockExtendedInfo.thisBlockTxFeeMedian).filter (· ≠ 0))

/-- The medians in the chain are the recalculated ones, and so is the cached one if the
chain has all the blocks that it was taken from. -/
structure FeeMedianCoherent (blocks : List BlockExtendedInfo) (fields : UInt64 × Nat) : Prop where
  stored : ∀ k bei, k % aliasMedianRecalcInterwal = 0 → blocks[k]? = some bei →
    bei.effectiveTxFeeMedian = recalculatedMedian blocks k
  index : fields.2 % aliasMedianRecalcInterwal = 0
  cached : fields.2 ≤ blocks.length →
    orInitialCoast fields.1 = orInitialCoast (recalculatedMedian blocks fields.2)

theorem effectiveIndex_mod (h : Nat) :
    getTxFeeMedianEffectiveIndex h % aliasMedianRecalcInterwal = 0 := by
  unfold getTxFeeMedianEffectiveIndex
  split
  · rfl
  · have hdiv := Nat.div_add_mod (h - 1) aliasMedianRecalcInterwal
    have heq : h - 1 - (h - 1) % aliasMedianRecalcInterwal =
        aliasMedianRecalcInterwal * ((h - 1) / aliasMedianRecalcInterwal) := by omega
    rw [heq, Nat.mul_mod_right]

theorem effectiveIndex_lt {h : Nat} (hpos : h ≠ 0) : getTxFeeMedianEffectiveIndex h < h := by
  unfold getTxFeeMedianEffectiveIndex
  split <;> omega

theorem recalculatedMedian_append (blocks rest : List BlockExtendedInfo) {height : Nat}
    (h : height ≤ blocks.length) :
    recalculatedMedian (blocks ++ rest) height = recalculatedMedian blocks height := by
  unfold recalculatedMedian
  rw [List.take_append_of_le_length h]

namespace FeeMedianCoherent

variable {blocks : List BlockExtendedInfo} {fields : UInt64 × Nat}

theorem empty : FeeMedianCoherent [] (0, 0) := by
  refine ⟨fun k bei _ hbei => ?_, rfl, fun _ => rfl⟩
  rw [List.getElem?_nil] at hbei
  cases hbei

/-- A shorter chain of the same blocks. -/
theorem of_append {rest : List BlockExtendedInfo} (h : FeeMedianCoherent (blocks ++ rest) fields) :
    FeeMedianCoherent blocks fields := by
  refine ⟨fun k bei hk hbei => ?_, h.index, fun hle => ?_⟩
  · have hlt : k < blocks.length := (List.getElem?_eq_some_iff.mp hbei).1
    rw [← recalculatedMedian_append blocks rest (by omega)]
    exact h.stored k bei hk (by rw [List.getElem?_append_left hlt, hbei])
  · rw [← recalculatedMedian_append blocks rest hle]
    refine h.cached ?_
    rw [List.length_append]
    omega

/-- Asking on a chain that is not empty gives the median stored in the chain. -/
theorem asked_fst (h : FeeMedianCoherent blocks fields) (hne : blocks ≠ []) :
    ∃ bei, blocks[getTxFeeMedianEffectiveIndex blocks.length]? = some bei ∧
      feeAsked blocks fields = (orInitialCoast bei.effectiveTxFeeMedian,
        getTxFeeMedianEffectiveIndex blocks.length) := by
  have hlt : getTxFeeMedianEffectiveIndex blocks.length < blocks.length :=
    effectiveIndex_lt (by rwa [Ne, List.length_eq_zero_iff])
  refine ⟨blocks[getTxFeeMedianEffectiveIndex blocks.length], List.getElem?_eq_getElem hlt, ?_⟩
  unfold feeAsked
  by_cases hindex : fields.2 = getTxFeeMedianEffectiveIndex blocks.length
  · have hstored := h.stored _ _ (effectiveIndex_mod _) (List.getElem?_eq_getElem hlt)
    rw [if_pos hindex, hstored, h.cached (by omega), hindex]
  · rw [if_neg hindex, List.getElem?_eq_getElem hlt]

theorem asked (h : FeeMedianCoherent blocks fields) :
    FeeMedianCoherent blocks (feeAsked blocks fields) := by
  by_cases hne : blocks = []
  · rw [hne] at h ⊢
    -- no block to ask: the fields stay, up to the initial coast
    have hasked : feeAsked [] fields =
        if fields.2 = 0 then (orInitialCoast fields.1, fields.2) else fields := rfl
    rw [hasked]
    by_cases hindex : fields.2 = 0
    · rw [if_pos hindex]
      refine ⟨h.stored, h.index, fun hle => ?_⟩
      rw [orInitialCoast_idem]
      exact h.cached hle
    · rw [if_neg hindex]
      exact h
  · obtain ⟨bei, hbei, hasked⟩ := h.asked_fst hne
    rw [hasked]
    refine ⟨h.stored, effectiveIndex_mod _, fun _ => ?_⟩
    rw [orInitialCoast_idem, h.stored _ _ (effectiveIndex_mod _) hbei]

theorem feeStep {node node' : Node} (h : FeeMedianCoherent node.db.blocks node.feeFields)
    (hstep : FeeStep node node') : FeeMedianCoherent node'.db.blocks node'.feeFields := by
  obtain ⟨hblocks, hfee | hfee⟩ := hstep
  · rw [hblocks, hfee]
    exact h
  · rw [hblocks, hfee]
    exact h.asked

/-- A new block: the one at a multiple of the interval is recalculated, and another one
asks before it is added. -/
theorem snoc {bei : BlockExtendedInfo} (h : FeeMedianCoherent blocks fields)
    (hmultiple : blocks.length % aliasMedianRecalcInterwal = 0 →
      bei.effectiveTxFeeMedian = recalculatedMedian blocks blocks.length)
    (hother : blocks.length % aliasMedianRecalcInterwal ≠ 0 →
      fields.2 = getTxFeeMedianEffectiveIndex blocks.length) :
    FeeMedianCoherent (blocks ++ [bei]) fields := by
  refine ⟨fun k b hk hb => ?_, h.index, fun hle => ?_⟩
  · rcases lt_or_ge k blocks.length with hlt | hge
    · rw [List.getElem?_append_left hlt] at hb
      rw [recalculatedMedian_append blocks [bei] (by omega)]
      exact h.stored k b hk hb
    · rw [List.getElem?_append_right hge] at hb
      have hlen : k - blocks.length < 1 := (List.getElem?_eq_some_iff.mp hb).1
      obtain rfl : k = blocks.length := by omega
      rw [Nat.sub_self] at hb
      cases hb
      rw [recalculatedMedian_append blocks _ le_rfl, hmultiple hk]
  · rw [List.length_append, List.length_singleton] at hle
    have hold : fields.2 ≤ blocks.length := by
      -- the height after the chain is no multiple that the cache could be ahead by
      by_contra hnot
      have heq : fields.2 = blocks.length + 1 := by omega
      have hmod := h.index
      rw [heq] at hmod
      have hne : blocks.length % aliasMedianRecalcInterwal ≠ 0 := by
        intro hzero
        rw [Nat.add_mod, hzero] at hmod
        exact absurd hmod (by decide)
      have hindex := hother hne
      have hpos : blocks.length ≠ 0 := by
        intro hzero
        rw [hzero] at hne
        exact hne rfl
      have hlt := effectiveIndex_lt hpos
      omega
    rw [recalculatedMedian_append blocks [bei] hold]
    exact h.cached hold

end FeeMedianCoherent

/-- A median that was returned is the one of the effective index. -/
theorem getTxFeeMedian_index {node node' : Node} {median : UInt64}
    (h : getTxFeeMedian node = (.ok median, node')) :
    node'.feeFields.2 = getTxFeeMedianEffectiveIndex node.db.blocks.length := by
  unfold getTxFeeMedian at h
  dsimp only at h
  by_cases hindex : node.currentFeeMedianEffectiveIndex = getTxFeeMedianEffectiveIndex node.db.size
  · rw [if_neg (not_not.mpr hindex)] at h
    cases h
    exact hindex
  · rw [if_pos hindex] at h
    split at h
    · cases h
    · cases h
      rfl

/-- On a coherent cache the answer is the median for the present chain size. -/
theorem FeeMedianCoherent.getTxFeeMedian {node : Node}
    (h : FeeMedianCoherent node.db.blocks node.feeFields) (hne : node.db.blocks ≠ []) :
    ∃ medianFee, txFeeMedianForHeight node.db node.db.size = .ok medianFee ∧
      (Chinet.getTxFeeMedian node).1 = .ok (orInitialCoast medianFee) := by
  obtain ⟨bei, hbei, hasked⟩ := h.asked_fst hne
  have hmedian : txFeeMedianForHeight node.db node.db.size = .ok bei.effectiveTxFeeMedian := by
    rw [txFeeMedianForHeight, Db.size, hbei]
  refine ⟨bei.effectiveTxFeeMedian, hmedian, ?_⟩
  have hfields := feeFields_getTxFeeMedian node
  rw [hasked] at hfields
  have hfirst := congrArg Prod.fst hfields
  unfold Chinet.getTxFeeMedian at hfirst ⊢
  dsimp only at hfirst ⊢
  rw [hmedian] at hfirst ⊢
  split at hfirst
  · rw [if_pos ‹_›]
  · rw [if_neg ‹_›]
    exact congrArg Except.ok hfirst

/-- The effective median of a new block and what the cache has afterwards. -/
theorem makeBlockExtendedInfo_median {bl : Block} {id : Hash} {totals : BlockTotals}
    {currentDiffic : WideDifficulty} {stakeHash : Hash} {count : Nat} {node node' : Node}
    {bei : BlockExtendedInfo}
    (h : makeBlockExtendedInfo env bl id totals currentDiffic stakeHash count node =
      (.ok bei, node')) :
    (node.db.blocks.length % aliasMedianRecalcInterwal = 0 →
      bei.effectiveTxFeeMedian = recalculatedMedian node.db.blocks node.db.blocks.length) ∧
    (node.db.blocks.length % aliasMedianRecalcInterwal ≠ 0 →
      node'.feeFields.2 = getTxFeeMedianEffectiveIndex node.db.blocks.length) := by
  unfold makeBlockExtendedInfo at h
  simp only [check_bind_ok_iff, gets_bind] at h
  obtain ⟨_, _, baseReward, _, _, _, h⟩ := h
  rw [bind_ok_iff] at h
  obtain ⟨median, n₁, hrun, h⟩ := h
  simp only [gets_apply, Prod.mk.injEq, Except.ok.injEq] at h
  obtain ⟨rfl, rfl⟩ := h
  unfold effectiveTxFeeMedian at hrun
  by_cases hmultiple : node.db.size % aliasMedianRecalcInterwal = 0
  · refine ⟨fun _ => ?_, fun hne => absurd hmultiple hne⟩
    rw [if_neg (not_not.mpr hmultiple), gets_apply] at hrun
    obtain ⟨hmedian, _⟩ := Prod.mk.inj hrun
    exact (Except.ok.inj hmedian).symm
  · refine ⟨fun hzero => absurd hzero hmultiple, fun _ => ?_⟩
    rw [if_pos hmultiple] at hrun
    exact getTxFeeMedian_index hrun

theorem AddedBlock.feeMedianCoherent {now : Nat} {bl : Block} {id : Hash}
    {onboard : TransactionsMap} {node node' : Node} (s : AddedBlock env now bl id onboard node node')
    (h : FeeMedianCoherent node.db.blocks node.feeFields) :
    FeeMedianCoherent node'.db.blocks node'.feeFields := by
  have hheader := h.feeStep
    ((follows_checkBlockHeader env feeSteps.storeSteps now bl id).rel_of_run s.header)
  have hcoinbase := hheader.feeStep
    ((follows_addTransactionFromBlock env feeSteps bl.minerTx _ node.db.size).rel_of_run s.coinbase)
  have htxs := hcoinbase.feeStep ((follows_addBlockTransactions env feeSteps now bl id onboard 0
    (coinbaseTotals env bl) bl.txHashes).rel_of_run s.transactions)
  have hinfo := htxs.feeStep ((follows_makeBlockExtendedInfo env feeSteps.storeSteps bl id s.totals
    s.currentDiffic s.stakeHash _).rel_of_run s.info)
  have hblocks : s.afterInfo.db.blocks = node.db.blocks := by
    rw [s.db_afterInfo, s.blocks_afterTransactions]
  obtain ⟨hmultiple, hother⟩ := makeBlockExtendedInfo_median s.info
  rw [s.blocks_afterTransactions] at hmultiple hother
  have hfields : node'.feeFields = s.afterInfo.feeFields :=
    (congrArg Node.feeFields s.result).trans rfl
  rw [hfields, s.blocks_eq]
  rw [hblocks] at hinfo
  exact hinfo.snoc hmultiple hother

theorem PoppedBlock.feeMedianCoherent {onboard : TransactionsMap} {node node' : Node}
    (s : PoppedBlock env onboard node node')
    (h : FeeMedianCoherent node.db.blocks node.feeFields) :
    FeeMedianCoherent node'.db.blocks node'.feeFields := by
  have hpurge := h.feeStep ((follows_purgeBlockDataFromBlockchain env feeSteps _ _).rel_of_run s.purge)
  have hblocks : s.afterPurge.db.blocks = node.db.blocks :=
    congrArg (fun frame => frame.1.1) s.frame_afterPurge
  have hfields : node'.feeFields = s.afterPurge.feeFields :=
    (congrArg Node.feeFields s.result).trans rfl
  rw [hfields, s.blocks_eq]
  rw [hblocks, ← List.dropLast_append_getLast? _ s.last] at hpurge
  exact hpurge.of_append

end Chinet
