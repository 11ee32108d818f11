import Chinet.Alternative.Moves
import Chinet.Caches.Coherence

/-!
# The calls of the node and their caches

The caches change only where the main chain does.  So whatever a call does to the node
can be followed by the caches: every procedure leads from the node of one state to the
node of another that is further on the way, and `add_new_block` and
`truncate_blockchain` are calls in the sense of `CacheCall`.
-/

namespace Chinet

open Procedure CachedNode

variable {env : Env}

/-! ## Pruning -/

theorem feeStep_pruneAltblocks (currentHeight countToDelete : Nat) (ids : List Hash)
    (state : Node × AltsToDelete) :
    FeeStep state.1 (ids.foldl (pruneAltblock env currentHeight countToDelete) state).1 := by
  induction ids generalizing state with
  | nil => exact Std.Refl.refl _
  | cons id rest ih =>
      refine IsTrans.trans _ _ _ ?_ (ih _)
      unfold pruneAltblock
      split
      · exact Std.Refl.refl _
      · split
        · exact ⟨rfl, .inl rfl⟩
        · split <;> exact Std.Refl.refl _

theorem feeStep_pruneAgedAltBlocks (node : Node) : FeeStep node (pruneAgedAltBlocks env node) :=
  IsTrans.trans _ _ _ (feeStep_pruneAltblocks node.db.size _ _ (node, [])) ⟨rfl, .inl rfl⟩

/-! ## Following the node -/

/-- A state of the caches over `node` can go on to one over `node'`. -/
def Lifts (env : Env) (node node' : Node) : Prop :=
  ∀ start cn sized, CachePath env start cn sized → cn.toNode = node →
    ∃ cn' sized', CachePath env start cn' sized' ∧ cn'.toNode = node'

instance : IsPreorder Node (Lifts env) where
  refl _ := fun _ cn sized hpath hnode => ⟨cn, sized, hpath, hnode⟩
  trans := by
    intro _ _ _ hst htu start cn sized hpath hnode
    obtain ⟨cn', sized', hpath', hnode'⟩ := hst start cn sized hpath hnode
    exact htu start cn' sized' hpath' hnode'

theorem CachePath.feeStep {start cn : CachedNode} {sized : Db} {node : Node}
    (hpath : CachePath env start cn sized) (h : FeeStep cn.toNode node) :
    CachePath env start { cn with toNode := node } sized := by
  obtain ⟨hblocks, hfee | hfee⟩ := h
  · exact hpath.elsewhere hblocks (congrArg Prod.fst hfee) (congrArg Prod.snd hfee)
  · -- the median is asked for first
    have hasked := hfee.trans (feeFields_getTxFeeMedian cn.toNode).symm
    have hstep : FeeStep cn.toNode (getTxFeeMedian cn.toNode).2 := follows_getTxFeeMedian cn.toNode
    exact hpath.feeMedianAsked.elsewhere (hblocks.trans hstep.1.symm) (congrArg Prod.fst hasked)
      (congrArg Prod.snd hasked)

theorem Lifts.of_feeStep {node node' : Node} (h : FeeStep node node') : Lifts env node node' := by
  rintro start cn sized hpath rfl
  exact ⟨{ cn with toNode := node' }, sized, hpath.feeStep h, rfl⟩

/-- Every move of the node can be followed. -/
theorem Lifts.of_move {node node' : Node} (h : NodeMove env node node') : Lifts env node node' := by
  cases h with
  | added hrun =>
      rintro start cn sized hpath rfl
      obtain ⟨s⟩ := handleBlockToMainChain_added hrun
      have hlast : node'.db.blocks.getLast? = some s.bei := by
        rw [s.blocks_eq, List.getLast?_concat]
      exact ⟨_, _, hpath.added hrun hlast, (notified_added _ _).toNode⟩
  | removed hrun =>
      rintro start cn sized hpath rfl
      obtain ⟨s⟩ := popBlockFromBlockchain_ok hrun
      exact ⟨_, _, hpath.removed s.last hrun, (notified_removed _ _).toNode⟩
  | accepted hplace hrun =>
      obtain ⟨s⟩ := acceptAlternativeBlock_ok hrun
      rw [s.result]
      exact Lifts.of_feeStep ⟨rfl, .inl rfl⟩
  | erased abei => exact Lifts.of_feeStep ⟨rfl, .inl rfl⟩
  | pruned => exact Lifts.of_feeStep (feeStep_pruneAgedAltBlocks node)
  | cleared => exact Lifts.of_feeStep ⟨rfl, .inl rfl⟩
  | refused hrefusal => exact Lifts.of_feeStep hrefusal.feeStep
  | elsewhere hcontents =>
      have hblocks := congrArg (fun contents => contents.1.blocks) hcontents
      have hfee := congrArg (fun contents => contents.2.2.1) hcontents
      exact Lifts.of_feeStep ⟨hblocks, .inl hfee⟩

theorem Lifts.of_moves {node node' : Node} (h : NodeMoves env node node') : Lifts env node node' := by
  induction h with
  | refl => exact Std.Refl.refl _
  | tail _ hlast ih => exact IsTrans.trans _ _ _ ih (Lifts.of_move hlast)

theorem lifts_of_moves {α : Type} {x : NodeProcedure α} (hx : Follows (NodeMoves env) x) :
    Follows (Lifts env) x :=
  hx.mono fun _ _ => Lifts.of_moves

/-! ## The calls -/

/-- A procedure in a database transaction is a call for the caches. -/
theorem cacheCall_of_lifts {α : Type} {x : NodeProcedure α} (hx : Follows (Lifts env) x)
    (cn : CachedNode) : ∃ cn', CacheCall env cn cn' ∧ cn'.toNode = (inDbTransaction x cn.toNode).2 := by
  obtain ⟨cn', sized, hpath, hnode⟩ := hx cn.toNode cn cn cn.db .refl rfl
  unfold inDbTransaction
  rcases hrun : x cn.toNode with ⟨failure | a, node'⟩
  · rw [hrun] at hnode
    refine ⟨_, .aborted hpath false, ?_⟩
    rw [CachedNode.abortTransaction, if_neg Bool.false_ne_true, hnode]
  · rw [hrun] at hnode
    exact ⟨cn', .committed hpath, hnode⟩

theorem addNewBlock_cacheCall (now : Nat) (bl : Block) (onboard : TransactionsMap)
    (cn : CachedNode) :
    ∃ cn', CacheCall env cn cn' ∧ cn'.toNode = (addNewBlock env now bl onboard cn.toNode).2 := by
  unfold addNewBlock
  refine check_bind_elim
    (motive := fun result => ∃ cn', CacheCall env cn cn' ∧ cn'.toNode = result.2)
    (fun _ _ => ⟨cn, .committed .refl, rfl⟩) fun _ _ => ?_
  rw [gets_bind]
  split
  · exact cacheCall_of_lifts (lifts_of_moves (moves_handleAlternativeBlock now bl onboard)) cn
  · exact cacheCall_of_lifts (lifts_of_moves (moves_addToMainChain now bl onboard)) cn

theorem truncateBlockchain_cacheCall {toHeight : Nat} {cn : CachedNode} {node : Node}
    (h : truncateBlockchain env toHeight cn.toNode = (.ok (), node)) :
    ∃ cn', CacheCall env cn cn' ∧ cn'.toNode = node := by
  obtain ⟨cn', sized, hpath, hnode⟩ :=
    (lifts_of_moves (moves_truncateBlockchain toHeight)).rel_of_run h cn cn cn.db .refl rfl
  exact ⟨cn', .committed hpath, hnode⟩

/-! ## Harmless calls -/

theorem HarmlessCall.added {now : Nat} {bl : Block} {onboard : TransactionsMap} {cn : CachedNode}
    {node : Node}
    (hrun : handleBlockToMainChain env now bl (env.crypto.getBlockHash bl) onboard cn.toNode =
      (.ok .addedToMainChain, node)) :
    ∃ cn', HarmlessCall env cn cn' ∧ cn'.toNode = node := by
  obtain ⟨s⟩ := handleBlockToMainChain_added hrun
  have hlast : node.db.blocks.getLast? = some s.bei := by rw [s.blocks_eq, List.getLast?_concat]
  have hnode := (notified_added { (cn.getNextDiffConditional env (isPosBlock bl)).2 with toNode := node }
    s.bei.toBlockHeaderInfo).toNode
  exact ⟨_, .committed (CachePath.refl.added hrun hlast) (by rw [hnode]), hnode⟩

theorem HarmlessCall.refused {cn : CachedNode} {node : Node} (h : FeeStep cn.toNode node) :
    ∃ cn', HarmlessCall env cn cn' ∧ cn'.toNode = { node with db := cn.db } :=
  ⟨_, .aborted (CachePath.refl.feeStep h) h.1 true, rfl⟩

/-- Adding to the head of the main chain does no harm, whether it succeeds or not. -/
theorem addToMainChain_harmlessCall (now : Nat) (bl : Block) (onboard : TransactionsMap)
    (cn : CachedNode) :
    ∃ cn', HarmlessCall env cn cn' ∧
      cn'.toNode = (inDbTransaction (addToMainChain env now bl onboard) cn.toNode).2 := by
  rcases hrun : handleBlockToMainChain env now bl (env.crypto.getBlockHash bl) onboard cn.toNode with
    ⟨r, node⟩
  by_cases hr : r = .ok .addedToMainChain
  · subst hr
    have hadd : addToMainChain env now bl onboard cn.toNode = (.ok .addedToMainChain, node) := by
      rw [addToMainChain, bind_of_ok hrun, if_pos rfl, pure_apply]
    obtain ⟨cn', hcall, hnode⟩ := HarmlessCall.added hrun
    refine ⟨cn', hcall, ?_⟩
    rw [inDbTransaction, hadd, hnode]
  · have hadd : ∃ failure, addToMainChain env now bl onboard cn.toNode = (.error failure, node) := by
      rw [addToMainChain]
      cases r with
      | error failure => exact ⟨failure, bind_of_error hrun⟩
      | ok verdict =>
          rw [bind_of_ok hrun, if_neg fun hverdict => hr (congrArg Except.ok hverdict)]
          exact ⟨_, fail_apply _ _⟩
    obtain ⟨failure, hadd⟩ := hadd
    obtain ⟨cn', hcall, hnode⟩ := HarmlessCall.refused (handleBlockToMainChain_refused hrun hr).feeStep
    refine ⟨cn', hcall, ?_⟩
    rw [inDbTransaction, hadd, hnode]

/-- A run that only adds blocks to the main chain. -/
theorem CacheReachable.addBlocks {now : Nat} {onboard : TransactionsMap} {blocks : List Block}
    {cn : CachedNode} {node : Node} (h : CacheReachable (HarmlessCall env) cn)
    (hadd : Chinet.addBlocks env now onboard blocks cn.toNode = some node) :
    ∃ cn', CacheReachable (HarmlessCall env) cn' ∧ cn'.toNode = node := by
  induction blocks generalizing cn with
  | nil =>
      cases hadd
      exact ⟨cn, h, rfl⟩
  | cons bl rest ih =>
      rw [Chinet.addBlocks] at hadd
      split at hadd
      · rename_i node' hrun
        obtain ⟨cn', hcall, hnode⟩ := HarmlessCall.added hrun
        refine ih (h.tail hcall) ?_
        rw [hnode]
        exact hadd
      · cases hadd

/-- Removing a block leaves the size limit of the chain with this block. -/
theorem CacheReachable.popBlock {cn : CachedNode} {onboard : TransactionsMap} {node : Node}
    (h : CacheReachable (HarmlessCall env) cn)
    (hpop : popBlockFromBlockchain env cn.toNode = (.ok onboard, node)) :
    ∃ cn', CacheReachable (CacheCall env) cn' ∧ cn'.toNode = node ∧
      cn'.currentBlockCumulSzLimit = nextComulativeSizeLimit cn.db := by
  obtain ⟨s⟩ := popBlockFromBlockchain_ok hpop
  have hnotified := notified_removed { cn with toNode := node } s.bei.toBlockHeaderInfo
  refine ⟨_, (h.mono fun _ _ => HarmlessCall.cacheCall).tail (.committed (.removed .refl s.last hpop)),
    hnotified.toNode, ?_⟩
  rw [hnotified.limit]
  refine h.onPath.limit fun hempty => ?_
  have hsize := s.size_gt
  rw [Db.size, hempty] at hsize
  exact absurd hsize (by decide)

/-- The caches are coherent after every run of harmless calls. -/
theorem caches_coherent_of_harmless (cn : CachedNode) (h : CacheReachable (HarmlessCall env) cn) :
    CachesCoherent env cn :=
  h.onPath.cachesCoherent

/-! ### Two blocks, the first one large -/

/-- The coinbase of the genesis block has 150000 bytes. -/
def largeGenesisEnv : Env :=
  { sampleEnv with
    crypto := { sampleCrypto with
      getObjectBlobsize := fun tx => if getTxPubKeyFromExtra tx.toTransactionPrefix = 1 then 150000 else 100 } }

def emptyCachedNode : CachedNode :=
  { emptyNode with
    currentBlockCumulSzLimit := 0
    timestampsMedianCache := ∅
    posTargetdataCache := []
    powTargetdataCache := [] }

theorem initial_emptyCachedNode : emptyCachedNode.Initial :=
  ⟨rfl, rfl, rfl, fun pos => by cases pos <;> rfl⟩

def largeGenesisNode : Node :=
  (addBlocks largeGenesisEnv 100000 ∅ [samplePlainBlock 0, samplePlainBlock 1] emptyNode).getD
    emptyNode

theorem cacheReachable_largeGenesisNode :
    ∃ cn, CacheReachable (HarmlessCall largeGenesisEnv) cn ∧ cn.toNode = largeGenesisNode := by
  have hrun : (addBlocks largeGenesisEnv 100000 ∅ [samplePlainBlock 0, samplePlainBlock 1]
      emptyNode).isSome = true := by
    decide +kernel
  obtain ⟨node, hnode⟩ := Option.isSome_iff_exists.mp hrun
  have hstart : CacheReachable (HarmlessCall largeGenesisEnv) emptyCachedNode :=
    ⟨emptyCachedNode, initial_emptyCachedNode, .refl⟩
  rw [largeGenesisNode, hnode]
  exact hstart.addBlocks hnode

theorem caches_coherent_on_largeGenesisNode :
    ∃ cn, cn.toNode = largeGenesisNode ∧ CachesCoherent largeGenesisEnv cn := by
  obtain ⟨cn, hreach, hnode⟩ := cacheReachable_largeGenesisNode
  exact ⟨cn, hnode, caches_coherent_of_harmless cn hreach⟩

theorem caches_stale_after_popBlock :
    ¬ ∀ env cn, CacheReachable (CacheCall env) cn → CachesCoherent env cn := by
  intro hclaim
  obtain ⟨cn, hreach, hnode⟩ := cacheReachable_largeGenesisNode
  have hpop : (popBlockFromBlockchain largeGenesisEnv largeGenesisNode).1.isOk = true := by
    decide +kernel
  have hbefore : nextComulativeSizeLimit largeGenesisNode.db = 250000 := by decide +kernel
  have hafter : 2 * max (median (getLastNBlocksSizes
      (popBlockFromBlockchain largeGenesisEnv largeGenesisNode).2.db currencyRewardBlocksWindow))
      currencyBlockGrantedFullRewardZone = 300000 := by
    decide +kernel
  have hblocks : (popBlockFromBlockchain largeGenesisEnv largeGenesisNode).2.db.blocks.length = 1 := by
    decide +kernel
  rcases hrun : popBlockFromBlockchain largeGenesisEnv largeGenesisNode with ⟨failure | onboard, node⟩
  · rw [hrun] at hpop
    cases hpop
  · rw [hrun] at hafter hblocks
    rw [← hnode] at hrun hbefore
    obtain ⟨cn', hreach', hnode', hlimit⟩ := hreach.popBlock hrun
    have hcoherent := hclaim largeGenesisEnv cn' hreach'
    have hne : cn'.db.blocks ≠ [] := by
      rw [hnode', ← List.length_pos_iff, hblocks]
      decide
    have hsize := hcoherent.sizeLimit hne
    rw [hlimit, hnode', hbefore, hafter] at hsize
    exact absurd hsize (by decide)

end Chinet
