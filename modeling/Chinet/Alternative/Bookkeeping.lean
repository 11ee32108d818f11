import Chinet.Alternative.Moves
import Chinet.Alternative.Pruning
import Chinet.Lib.OccurrenceIndex
import Mathlib.Data.List.Sort

/-!
# The books of the alternative blocks

`m_altblocks_keyimages` and `m_alternative_chains_txs` are kept beside `m_alternative_chains`.  They are
exact in a run in which

* no block enters that lists a transaction twice;
* a block that leaves is there, and all its key images are found: those of a transaction that
  is neither in the pool nor in the main chain any more stay behind;
* the blocks that `prune_aged_alt_blocks` erases for their number have neither transactions nor a stake:
  it takes them out of `m_alternative_chains` only.
-/

namespace Chinet

open Procedure FiniteStore OccurrenceIndex

/-! ## The key images of an alternative block -/

/-- The key images of the stake and of the transactions. -/
def AltBlockExtendedInfo.keyImages (abei : AltBlockExtendedInfo) : List KeyImage :=
  coinstakeKeyImages abei.bl ++ txKeyImages (fun txId => abei.onboardTransactions.lookup txId) abei.bl

def AltBlockExtendedInfo.txIds (abei : AltBlockExtendedInfo) : List Hash := abei.bl.txHashes

/-- The books say what the alternative blocks contain. -/
structure AltBooksExact (node : Node) : Prop where
  keyImages : Exact AltBlockExtendedInfo.keyImages node.alternativeChains node.altblocksKeyimages
  txs : Counted AltBlockExtendedInfo.txIds node.alternativeChains node.alternativeChainsTxs

section

variable {env : Env} {node : Node} {ctx : AltInputContext} {now height : Nat}

/-- The collected key images grow by the ones of `images`, and by no one twice. -/
structure Collected (before images after : List KeyImage) : Prop where
  append : after = before ++ images
  nodup : before.Nodup → after.Nodup

theorem Collected.nil (l : List KeyImage) : Collected l [] l :=
  ⟨(List.append_nil l).symm, id⟩

theorem Collected.trans {a b c images images' : List KeyImage} (h : Collected a images b)
    (h' : Collected b images' c) : Collected a (images ++ images') c :=
  ⟨by rw [h'.append, h.append, List.append_assoc], fun ha => h'.nodup (h.nodup ha)⟩

theorem validateAltBlockInput_collected {tx : Transaction} {txHash : Hash} {inIndex : Nat}
    {input : Txin} {sig : List Signature} {before after : List KeyImage} {maxRelated : Nat}
    (h : validateAltBlockInput env node ctx tx txHash inIndex input sig before =
      .ok (after, maxRelated)) :
    ∃ part, input.toKeyPart? = some part ∧ Collected before [part.kImage] after := by
  rw [validateAltBlockInput] at h
  cases hpart : input.toKeyPart? with
  | none =>
      rw [hpart] at h
      cases h
  | some part =>
      rw [hpart] at h
      dsimp only at h
      rw [require_bind_eq_ok, bind_eq_ok] at h
      obtain ⟨hfree, offsets, -, h⟩ := h
      rw [require_bind_eq_ok, bind_eq_ok] at h
      obtain ⟨-, keys, -, h⟩ := h
      rw [bind_eq_ok] at h
      obtain ⟨_, -, hreturn⟩ := h
      cases hreturn
      refine ⟨part, rfl, rfl, ?_⟩
      intro hnodup
      rw [keyImageIsFree, Bool.and_eq_true, Bool.and_eq_true, decide_eq_true_eq] at hfree
      exact List.nodup_append.mpr ⟨hnodup, List.nodup_singleton _,
        fun a ha b hb => by
          rw [List.mem_singleton.mp hb]
          exact fun heq => hfree.1.2 (heq ▸ ha)⟩

theorem validateAltBlockInputs_collected {tx : Transaction} {txId : Hash} {n : Nat} {ins : List Txin}
    {before after : List KeyImage}
    (h : validateAltBlockInputs env node ctx now tx txId n ins before = .ok after) :
    Collected before (ins.filterMap Txin.keyImage?) after := by
  induction ins generalizing n before with
  | nil =>
      cases h
      exact .nil _
  | cons input rest ih =>
      -- an input that spends a key adds its key image, and the others follow
      have hkey (part : TxinToKey) (hpart : input.toKeyPart? = some part)
          (hinput : Txin.keyImage? input = some part.kImage) {collected : List KeyImage}
          {maxRelated : Nat}
          (hone : validateAltBlockInput env node ctx tx txId n input (tx.signatures.getD n [])
            before = .ok (collected, maxRelated))
          (hrest : validateAltBlockInputs env node ctx now tx txId (n + 1) rest collected =
            .ok after) : Collected before ((input :: rest).filterMap Txin.keyImage?) after := by
        obtain ⟨part', hpart', hcollected⟩ := validateAltBlockInput_collected hone
        rw [hpart] at hpart'
        cases hpart'
        rw [List.filterMap_cons, hinput]
        exact hcollected.trans (ih hrest)
      cases input with
      | gen _ => cases h
      | multisig input =>
          rw [validateAltBlockInputs, bind_eq_ok] at h
          obtain ⟨_, -, hrest⟩ := h
          exact ih hrest
      | toKey input =>
          obtain ⟨⟨collected, maxRelated⟩, hone, hrest⟩ := bind_eq_ok.mp h
          exact hkey input rfl rfl hone hrest
      | htlc input =>
          obtain ⟨⟨collected, maxRelated⟩, hone, hrest⟩ := bind_eq_ok.mp h
          exact hkey input.toTxinToKey rfl rfl hone hrest

theorem validateAltBlockTransactions_collected {onboard : TransactionsMap} {ids : List Hash}
    {before after : List KeyImage} {indexes indexes' : AltOutIndexes}
    (hall : ∀ txId ∈ ids, onboard.lookup txId = none →
      getTransactionFromPoolOrDb node txId ctx.splitHeight = none)
    (h : validateAltBlockTransactions env node ctx now height onboard ids before indexes =
      .ok (after, indexes')) :
    Collected before
      (ids.flatMap fun txId => ((onboard.lookup txId).map (·.keyImages)).getD []) after := by
  induction ids generalizing before indexes with
  | nil =>
      cases h
      exact .nil _
  | cons txId rest ih =>
      rw [validateAltBlockTransactions] at h
      cases htx : onboard.lookup txId with
      | none =>
          rw [htx, hall txId List.mem_cons_self htx] at h
          cases h
      | some tx =>
          rw [htx, Option.some_or] at h
          dsimp only at h
          rw [require_bind_eq_ok, bind_eq_ok] at h
          obtain ⟨-, collected, hins, h⟩ := h
          rw [require_bind_eq_ok] at h
          rw [List.flatMap_cons, htx]
          exact (validateAltBlockInputs_collected hins).trans
            (ih (fun txId' hmem => hall txId' (List.mem_cons_of_mem _ hmem)) h.2)

theorem validateAltCoinstake_collected {b : Block} {id : Hash} {after : List KeyImage}
    (h : validateAltCoinstake env node ctx b id height = .ok after) :
    Collected [] (coinstakeKeyImages b) after := by
  rw [validateAltCoinstake] at h
  rw [coinstakeKeyImages]
  by_cases hpos : isPosBlock b = true
  · rw [if_pos hpos] at h ⊢
    have hvin : ∃ n input, b.minerTx.vin = [.gen n, .toKey input] := by
      rw [isPosBlock, Bool.and_eq_true, isPosTransaction] at hpos
      obtain ⟨-, hpos⟩ := hpos
      split at hpos
      · rename_i n input hvin
        exact ⟨n, input, hvin⟩
      · cases hpos
    obtain ⟨n, input, hvin⟩ := hvin
    split at h
    · rename_i sig first second hsig hvin'
      rw [hvin] at hvin'
      cases hvin'
      rw [bind_eq_ok] at h
      obtain ⟨⟨collected, maxRelated⟩, hinput, h⟩ := h
      rw [require_bind_eq_ok] at h
      obtain ⟨-, hreturn⟩ := h
      cases hreturn
      obtain ⟨part, hpart, hcollected⟩ := validateAltBlockInput_collected hinput
      cases hpart
      rw [coinstakeInput?, hvin]
      exact hcollected
    · cases h
  · rw [if_neg hpos] at h ⊢
    cases h
    exact .nil _

theorem lookup_completeOnboardTransactions {txHashes : List Hash} {onboard : TransactionsMap}
    {txId : Hash} :
    (completeOnboardTransactions node txHashes onboard).lookup txId =
      (onboard.lookup txId).or
        (if txId ∈ txHashes then getTransactionFromPoolOrDb node txId 0 else none) := by
  induction txHashes generalizing onboard with
  | nil =>
      rw [if_neg List.not_mem_nil, Option.or_none]
      rfl
  | cons first rest ih =>
      rw [completeOnboardTransactions, List.foldl_cons, ← completeOnboardTransactions, ih]
      by_cases heq : txId = first
      · subst heq
        rw [if_pos (List.mem_cons_self : txId ∈ txId :: rest)]
        split
        · rename_i hmem
          obtain ⟨tx, htx⟩ := Finmap.mem_iff.mp hmem
          rw [htx, Option.some_or, Option.some_or]
        · rename_i hmem
          rw [Finmap.lookup_eq_none.mpr hmem, Option.none_or]
          cases hfound : getTransactionFromPoolOrDb node txId 0 with
          | none => simp [Finmap.lookup_eq_none.mpr hmem]
          | some tx => rw [Finmap.lookup_insert, Option.some_or]
      · have hmem : txId ∈ first :: rest ↔ txId ∈ rest := by simp [heq]
        have hsame : ∀ tx, (onboard.insert first tx).lookup txId = onboard.lookup txId :=
          fun tx => Finmap.lookup_insert_of_ne onboard heq
        simp only [hmem]
        split
        · rfl
        · split
          · rfl
          · rw [hsame]

/-- A block is inserted with its key images, each of them once. -/
theorem AcceptedAltBlock.keyImages_eq {b : Block} {onboard : TransactionsMap} {place : AltPlace}
    {node' : Node} {abei : AltBlockExtendedInfo}
    (s : AcceptedAltBlock env now b onboard place node node' abei) :
    s.keyImages = abei.keyImages ∧ abei.keyImages.Nodup := by
  have htxs := s.txs
  rw [validateAltBlockTxs, bind_eq_ok] at htxs
  obtain ⟨indexes, -, htxs⟩ := htxs
  rw [bind_eq_ok] at htxs
  obtain ⟨collected, hstake, htxs⟩ := htxs
  rw [require_bind_eq_ok] at htxs
  have hall : ∀ txId ∈ b.txHashes, abei.onboardTransactions.lookup txId = none →
      ∀ minHeight, getTransactionFromPoolOrDb node txId minHeight = none := by
    intro txId hmem hnone minHeight
    rw [s.onboard_eq, lookup_completeOnboardTransactions, if_pos hmem, Option.or_eq_none_iff] at hnone
    have hzero := hnone.2
    rw [getTransactionFromPoolOrDb] at hzero ⊢
    split at hzero
    · cases hzero
    · split at hzero
      · rfl
      · rw [if_pos (Nat.zero_le _)] at hzero
        cases hzero
  have hrest : Collected collected (b.txHashes.flatMap fun txId =>
      ((abei.onboardTransactions.lookup txId).map (·.keyImages)).getD []) s.keyImages := by
    refine validateAltBlockTransactions_collected ?_ htxs.2
    intro txId hmem hnone
    exact hall txId hmem hnone _
  have hcollected := (validateAltCoinstake_collected hstake).trans hrest
  have himages : abei.keyImages = coinstakeKeyImages b ++ b.txHashes.flatMap fun txId =>
      ((abei.onboardTransactions.lookup txId).map (·.keyImages)).getD [] := by
    rw [AltBlockExtendedInfo.keyImages, s.bl_eq, txKeyImages]
  rw [himages]
  have happend := hcollected.append
  rw [List.nil_append] at happend
  exact ⟨happend, happend ▸ hcollected.nodup List.nodup_nil⟩

end

/-! ## Leaving -/

/-- All key images of a block are among those that are purged with it. -/
def FoundKeyImages (node : Node) (abei : AltBlockExtendedInfo) : Prop :=
  ∀ ki ∈ abei.keyImages, ki ∈ coinstakeKeyImages abei.bl ++
    txKeyImages (fun txId => getTransactionFromPoolOrDb node txId 0) abei.bl

theorem purgeKeyimageFromBigHeap_eq (id : Hash) : purgeKeyimageFromBigHeap id = remove id := by
  funext heap ki
  rw [purgeKeyimageFromBigHeap, remove]
  cases heap.lookup ki <;> rfl

theorem purgeAltBlockTx_eq : purgeAltBlockTx = decrement := by
  funext counts txId
  unfold purgeAltBlockTx decrement
  cases counts.lookup txId <;> rfl

/-- The books are exact, each block has its own id, and none names a key image or a transaction twice. -/
structure AltBooks (env : Env) (node : Node) : Prop extends AltBooksExact node where
  keptUnderIds : KeptUnderIds env node.alternativeChains
  nodup : ∀ id abei, node.alternativeChains.lookup id = some abei →
    abei.keyImages.Nodup ∧ abei.txIds.Nodup

section

variable {env : Env} {node : Node}

theorem AltBooks.of_altContainers {node' : Node} (h : AltBooks env node)
    (halt : node'.altContainers = node.altContainers) : AltBooks env node' := by
  obtain ⟨hchains, htxs, hki⟩ : node'.alternativeChains = node.alternativeChains ∧
      node'.alternativeChainsTxs = node.alternativeChainsTxs ∧
      node'.altblocksKeyimages = node.altblocksKeyimages := by
    have hpair := Prod.mk.inj halt
    exact ⟨hpair.1, Prod.mk.inj hpair.2⟩
  refine ⟨⟨?_, ?_⟩, ?_, ?_⟩
  · rw [hchains, hki]
    exact h.keyImages
  · rw [hchains, htxs]
    exact h.txs
  · rw [hchains]
    exact h.keptUnderIds
  · rw [hchains]
    exact h.nodup

theorem AltBooks.of_empty (halt : node.altContainers = (∅, ∅, ∅)) : AltBooks env node := by
  have hempty : AltBooks env (clearAltblocks node) := by
    refine ⟨⟨.empty, .empty⟩, ?_, ?_⟩
    · intro id abei h
      cases h
    · intro id abei h
      cases h
  refine hempty.of_altContainers ?_
  rw [halt]
  rfl

theorem AltBooks.exact_erase_iff {abei : AltBlockExtendedInfo} (h : AltBooks env node)
    (hstored : node.alternativeChains.lookup (env.crypto.getBlockHash abei.bl) = some abei) :
    AltBooksExact (doEraseAltblock env abei node) ↔ FoundKeyImages node abei := by
  obtain ⟨hnodup, htxs⟩ := h.nodup _ _ hstored
  have hfound : FoundKeyImages node abei ↔ ∀ ki, abei.keyImages.count ki ≤
      (coinstakeKeyImages abei.bl ++
        txKeyImages (fun txId => getTransactionFromPoolOrDb node txId 0) abei.bl).count ki := by
    apply forall_congr'
    intro ki
    by_cases hmem : ki ∈ abei.keyImages
    · rw [List.count_eq_one_of_mem hnodup hmem, Nat.one_le_iff_ne_zero, Ne, List.count_eq_zero, not_not]
      exact ⟨fun himp => himp hmem, fun hki _ => hki⟩
    · rw [List.count_eq_zero_of_not_mem hmem]
      exact iff_of_true (fun himp => absurd himp hmem) (Nat.zero_le _)
  have herased : (doEraseAltblock env abei node).altblocksKeyimages =
      (coinstakeKeyImages abei.bl ++
        txKeyImages (fun txId => getTransactionFromPoolOrDb node txId 0) abei.bl).foldl
          (remove (env.crypto.getBlockHash abei.bl)) node.altblocksKeyimages := by
    rw [← purgeKeyimageFromBigHeap_eq]
    rfl
  rw [hfound, ← h.keyImages.erase_iff hstored, ← herased]
  constructor
  · intro hexact
    exact hexact.keyImages
  · intro hkeys
    refine ⟨hkeys, ?_⟩
    have hcounts := h.txs.erase hstored htxs
    rw [← purgeAltBlockTx_eq] at hcounts
    exact hcounts

theorem AltBooks.erase {abei : AltBlockExtendedInfo} (h : AltBooks env node)
    (hstored : node.alternativeChains.lookup (env.crypto.getBlockHash abei.bl) = some abei)
    (hfound : FoundKeyImages node abei) : AltBooks env (doEraseAltblock env abei node) where
  toAltBooksExact := (h.exact_erase_iff hstored).mpr hfound
  keptUnderIds id abei' hlookup := h.keptUnderIds id abei' (lookup_of_erase hlookup)
  nodup id abei' hlookup := h.nodup id abei' (lookup_of_erase hlookup)

/-- A block without key images and transactions may go alone. -/
theorem AltBooks.erase_alone (h : AltBooks env node) {id : Hash}
    (hempty : ∀ abei, node.alternativeChains.lookup id = some abei →
      abei.keyImages = [] ∧ abei.txIds = []) :
    AltBooks env { node with alternativeChains := node.alternativeChains.erase id } := by
  cases hlookup : node.alternativeChains.lookup id with
  | none =>
      rw [erase_of_lookup_eq_none _ _ hlookup]
      exact h
  | some abei =>
      obtain ⟨hki, htxs⟩ := hempty abei hlookup
      refine ⟨⟨?_, ?_⟩, ?_, ?_⟩
      · refine (h.keyImages.erase_iff hlookup []).mpr ?_
        intro ki
        rw [hki]
      · have herased := h.txs.erase hlookup (h.nodup _ _ hlookup).2
        rw [htxs] at herased
        exact herased
      · intro id' abei' hlookup'
        exact h.keptUnderIds id' abei' (lookup_of_erase hlookup')
      · intro id' abei' hlookup'
        exact h.nodup id' abei' (lookup_of_erase hlookup')

/-! ### Pruning -/

/-- Every turn of the loop keeps the books, if the key images of the aged blocks are found. -/
theorem AltBooks.pruneTurns {currentHeight count : Nat} {ids : List Hash} {alts : AltsToDelete}
    (h : AltBooks env node)
    (haged : ∀ id abei, node.alternativeChains.lookup id = some abei →
      isAgedAltblock currentHeight abei = true → FoundKeyImages node abei) :
    AltBooks env (ids.foldl (pruneAltblock env currentHeight count) (node, alts)).1 := by
  induction ids generalizing node alts with
  | nil => exact h
  | cons id rest ih =>
      rw [List.foldl_cons, pruneAltblock]
      cases hlookup : node.alternativeChains.lookup id with
      | none => exact ih h haged
      | some abei =>
          dsimp only
          by_cases hold : isAgedAltblock currentHeight abei = true
          · have hid := h.keptUnderIds id abei hlookup
            rw [if_pos hold]
            refine ih (h.erase ?_ (haged id abei hlookup hold)) ?_
            · rw [hid, hlookup]
            · -- the pool and the database stay, so the same transactions are found
              intro id' abei' hlookup'
              exact haged id' abei' (lookup_of_erase hlookup')
          · rw [if_neg hold]
            split
            · exact ih h haged
            · exact ih h haged

/-- The blocks that are erased for their number leave the books as they are. -/
theorem AltBooks.foldl_erase {alts : AltsToDelete} (h : AltBooks env node)
    (hempty : ∀ entry ∈ alts, ∀ abei, node.alternativeChains.lookup entry.2 = some abei →
      abei.keyImages = [] ∧ abei.txIds = []) :
    AltBooks env { node with
      alternativeChains :=
        alts.foldl (fun chains entry => chains.erase entry.2) node.alternativeChains } := by
  induction alts generalizing node with
  | nil => exact h
  | cons entry rest ih =>
      have herased := h.erase_alone (hempty entry List.mem_cons_self)
      refine ih herased ?_
      intro entry' hmem abei hlookup
      exact hempty entry' (List.mem_cons_of_mem _ hmem) abei (lookup_of_erase hlookup)

/-- The loop collects no blocks when there are not too many. -/
theorem foldl_pruneAltblock_zero {currentHeight : Nat} {ids : List Hash} {alts : AltsToDelete} :
    (ids.foldl (pruneAltblock env currentHeight 0) (node, alts)).2 = alts := by
  induction ids generalizing node with
  | nil => rfl
  | cons id rest ih =>
      rw [List.foldl_cons, pruneAltblock]
      split
      · exact ih
      · split
        · exact ih
        · rw [if_pos rfl]
          exact ih

/-- What the loop of `prune_aged_alt_blocks` leaves. -/
def prunedAltblocks (env : Env) (node : Node) : Node × AltsToDelete :=
  (env.altBlocksOrder node.alternativeChains).foldl
    (pruneAltblock env node.db.size (countToDelete env node)) (node, [])

theorem prunedAltblocks_collected
    (horder : ListsAltBlocks (env.altBlocksOrder node.alternativeChains) node.alternativeChains)
    (h : AltBooks env node) {entry : Nat × Hash} (hmem : entry ∈ (prunedAltblocks env node).2) :
    entry ∈ collectedAltblocks env node ∧
      ∀ abei, (prunedAltblocks env node).1.alternativeChains.lookup entry.2 = some abei →
        node.alternativeChains.lookup entry.2 = some abei := by
  rcases Nat.eq_zero_or_pos (countToDelete env node) with hzero | hcount
  · rw [prunedAltblocks, hzero, foldl_pruneAltblock_zero] at hmem
    cases hmem
  · obtain ⟨hchains, halts⟩ := @foldl_pruneAltblock env node.db.size (countToDelete env node) hcount
      node (env.altBlocksOrder node.alternativeChains) h.keptUnderIds horder.nodup
      fun id hid => (horder.mem id).mp hid
    rw [prunedAltblocks, halts] at hmem
    refine ⟨hmem, ?_⟩
    intro abei hlookup
    rw [prunedAltblocks, hchains, lookup_eraseMany] at hlookup
    split at hlookup
    · cases hlookup
    · exact hlookup

theorem AltBooks.prune
    (horder : ListsAltBlocks (env.altBlocksOrder node.alternativeChains) node.alternativeChains)
    (h : AltBooks env node)
    (haged : ∀ id abei, node.alternativeChains.lookup id = some abei →
      isAgedAltblock node.db.size abei = true → FoundKeyImages node abei)
    (hnumber : ∀ entry ∈ collectedAltblocks env node, ∀ abei,
      node.alternativeChains.lookup entry.2 = some abei → abei.keyImages = [] ∧ abei.txIds = []) :
    AltBooks env (pruneAgedAltBlocks env node) := by
  have hloop : AltBooks env (prunedAltblocks env node).1 := h.pruneTurns haged
  refine hloop.foldl_erase ?_
  intro entry hmem abei hlookup
  obtain ⟨hcollected, hbefore⟩ := prunedAltblocks_collected horder h hmem
  exact hnumber entry hcollected abei (hbefore abei hlookup)

end

/-! ## Runs -/

/-- The moves of the node that keep the books. -/
inductive BookedMove (env : Env) : Node → Node → Prop
  | added {now : Nat} {bl : Block} {onboard : TransactionsMap} {node node' : Node}
      (hrun : handleBlockToMainChain env now bl (env.crypto.getBlockHash bl) onboard node =
        (.ok .addedToMainChain, node')) : BookedMove env node node'
  | removed {onboard : TransactionsMap} {node node' : Node}
      (hrun : popBlockFromBlockchain env node = (.ok onboard, node')) : BookedMove env node node'
  | accepted {now : Nat} {b : Block} {onboard : TransactionsMap} {place : AltPlace}
      {abei : AltBlockExtendedInfo} {node node' : Node}
      (hplace : findAltPlace node b.prevId = .ok (some place))
      (hrun : acceptAlternativeBlock env now b onboard place node = (.ok abei, node'))
      (hnodup : b.txHashes.Nodup) : BookedMove env node node'
  /-- The block is there, and its key images are found. -/
  | erased (abei : AltBlockExtendedInfo) (node : Node)
      (hstored : node.alternativeChains.lookup (env.crypto.getBlockHash abei.bl) = some abei)
      (hfound : FoundKeyImages node abei) : BookedMove env node (doEraseAltblock env abei node)
  /-- The key images of the aged blocks are found, and the others that go are empty. -/
  | pruned (node : Node)
      (haged : ∀ id abei, node.alternativeChains.lookup id = some abei →
        isAgedAltblock node.db.size abei = true → FoundKeyImages node abei)
      (hnumber : ∀ entry ∈ collectedAltblocks env node, ∀ abei,
        node.alternativeChains.lookup entry.2 = some abei → abei.keyImages = [] ∧ abei.txIds = []) :
      BookedMove env node (pruneAgedAltBlocks env node)
  | cleared (node : Node) : BookedMove env node (clearAltblocks node)
  | refused {node node' : Node} (hrefusal : Refusal node node') : BookedMove env node node'
  | elsewhere {node node' : Node} (hcontents : node'.contents = node.contents) :
      BookedMove env node node'

theorem BookedMove.nodeMove {env : Env} {node node' : Node} (h : BookedMove env node node') :
    NodeMove env node node' := by
  cases h with
  | added hrun => exact .added hrun
  | removed hrun => exact .removed hrun
  | accepted hplace hrun _ => exact .accepted hplace hrun
  | erased abei node _ _ => exact .erased abei node
  | pruned node _ _ => exact .pruned node
  | cleared node => exact .cleared node
  | refused hrefusal => exact .refused hrefusal
  | elsewhere hcontents => exact .elsewhere hcontents

section

variable {env : Env} {node node' : Node}

theorem altContainers_of_altView (h : node'.altView = node.altView) :
    node'.altContainers = node.altContainers :=
  congrArg (fun view : AltView =>
    (view.alternativeChains, view.alternativeChainsTxs, view.altblocksKeyimages)) h

/-- A block enters all three containers. -/
theorem AltBooks.insert {b : Block} {now : Nat} {onboard : TransactionsMap} {place : AltPlace}
    {abei : AltBlockExtendedInfo} (h : AltBooks env node)
    (s : AcceptedAltBlock env now b onboard place node node' abei) (hnodup : b.txHashes.Nodup) :
    AltBooks env node' := by
  obtain ⟨hkeys, hkeysNodup⟩ := s.keyImages_eq
  have htxs : abei.txIds = b.txHashes := by rw [AltBlockExtendedInfo.txIds, s.bl_eq]
  rw [s.result, hkeys]
  refine ⟨⟨?_, ?_⟩, ?_, ?_⟩
  · exact h.keyImages.insert s.fresh abei
  · exact h.txs.insert s.fresh (htxs ▸ hnodup)
  · intro id abei' hlookup
    rw [insertAltblock, lookup_insert_ite] at hlookup
    split at hlookup
    · rename_i hid
      cases hlookup
      rw [hid, s.bl_eq]
    · exact h.keptUnderIds id abei' hlookup
  · intro id abei' hlookup
    rw [insertAltblock, lookup_insert_ite] at hlookup
    split at hlookup
    · cases hlookup
      exact ⟨hkeysNodup, htxs ▸ hnodup⟩
    · exact h.nodup id abei' hlookup

theorem BookedMove.books
    (horder : ∀ chains, ListsAltBlocks (env.altBlocksOrder chains) chains)
    (h : BookedMove env node node') (hbooks : AltBooks env node) : AltBooks env node' := by
  cases h with
  | added hrun =>
      obtain ⟨s⟩ := handleBlockToMainChain_added hrun
      exact hbooks.of_altContainers (altContainers_of_altView s.altView_eq)
  | removed hrun =>
      obtain ⟨s⟩ := popBlockFromBlockchain_ok hrun
      exact hbooks.of_altContainers (altContainers_of_altView s.altView_eq)
  | accepted _ hrun hnodup =>
      obtain ⟨s⟩ := acceptAlternativeBlock_ok hrun
      exact hbooks.insert s hnodup
  | erased abei _ hstored hfound => exact hbooks.erase hstored hfound
  | pruned _ haged hnumber => exact hbooks.prune (horder _) haged hnumber
  | cleared _ => exact .of_empty rfl
  | refused hrefusal => exact hbooks.of_altContainers hrefusal.altContainers
  | elsewhere hcontents =>
      exact hbooks.of_altContainers (congrArg (fun contents => contents.2.2.2) hcontents)

/-- The books are exact in every state of a run whose moves keep them, whatever order of
calls, commits and rollbacks of the database it has. -/
theorem altBooks_exact_of_booked (horder : ∀ chains, ListsAltBlocks (env.altBlocksOrder chains) chains)
    (h : NodeReachable (BookedMove env) node) : AltBooksExact node := by
  have hbooks : AltBooks env node := by
    refine h.invariant (fun _ => .of_empty) ?_ ?_
    · intro _ _ hmove
      exact hmove.books horder
    · intro _ _ halt hbefore
      exact hbefore.of_altContainers halt
  exact hbooks.toAltBooksExact

end

/-! ## A block that goes by number -/

/-- Ids in the order of their numbers. -/
def sortedIds (l : List Hash) : List Hash := l.insertionSort fun a b => a.toNat ≤ b.toNat

theorem sortedIds_eq_of_perm {l l' : List Hash} (h : l.Perm l') : sortedIds l = sortedIds l' := by
  have htotal : Std.Total (fun a b : Hash => a.toNat ≤ b.toNat) := ⟨fun a b => Nat.le_total _ _⟩
  have htrans : IsTrans Hash (fun a b : Hash => a.toNat ≤ b.toNat) := ⟨fun _ _ _ => Nat.le_trans⟩
  have hperm : (sortedIds l).Perm (sortedIds l') :=
    ((List.perm_insertionSort _ _).trans h).trans (List.perm_insertionSort _ _).symm
  refine hperm.eq_of_pairwise ?_ (List.pairwise_insertionSort _ _) (List.pairwise_insertionSort _ _)
  intro a b _ _ hab hba
  exact BitVec.eq_of_toNat_eq (Nat.le_antisymm hab hba)

def altIdsInOrder (chains : FiniteStore Hash AltBlockExtendedInfo) : List Hash :=
  Quot.liftOn chains.keys.val sortedIds fun _ _ => sortedIds_eq_of_perm

theorem altIdsInOrder_lists (chains : FiniteStore Hash AltBlockExtendedInfo) :
    ListsAltBlocks (altIdsInOrder chains) chains := by
  obtain ⟨l, hl⟩ := Quot.exists_rep chains.keys.val
  have horder : altIdsInOrder chains = sortedIds l := by rw [altIdsInOrder, ← hl]
  have hperm : (sortedIds l).Perm l := List.perm_insertionSort _ _
  have hval : (l : Multiset Hash) = chains.keys.val := hl
  constructor
  · rw [horder, hperm.nodup_iff, ← Multiset.coe_nodup, hval]
    exact chains.keys.nodup
  · intro id
    rw [horder, hperm.mem_iff, ← Multiset.mem_coe, hval]
    exact Finmap.mem_keys

/-- No alternative block may stay. -/
def booksEnv : Env :=
  { sampleEnv with
    config := { getDefaultCoreRuntimeConfig with maxAltBlocks := 0 }
    altBlocksOrder := altIdsInOrder }

/-- The rewards of block 1, for a multisig output, and of block 2, for a key, are spent. -/
def spendRewardTx : Transaction :=
  sampleSpendTx 997
    [.multisig (sampleMultisigInput 0 1 currencyBlockReward), .toKey (sampleStake 0)] []

def spendRewardId : Hash := getTransactionHash sampleCrypto spendRewardTx

/-- A block of height 12 on another branch that has the transaction. -/
def bookedBlock : Block :=
  sampleBlock 1 12 12 [sampleMultisigOut currencyBlockReward] [spendRewardId]

def booksMainNode? : Option Node :=
  addBlocks booksEnv 100000 ∅ ((List.range 2).map samplePlainBlock ++
    [sampleKeyBlock 2 (difficultyPowTarget * 2)] ++ (List.range' 3 10).map samplePlainBlock) emptyNode

def booksMainNode : Node := booksMainNode?.getD emptyNode

theorem NodeReachable.mono {Step Step' : Node → Node → Prop} {node : Node}
    (hstep : ∀ node node', Step node node' → Step' node node') (h : NodeReachable Step node) :
    NodeReachable Step' node := by
  induction h with
  | start hdb halt => exact .start hdb halt
  | call _ hcall ih =>
      cases hcall with
      | committed hsteps => exact ih.call (.committed (Relation.ReflTransGen.mono hstep _ _ hsteps))
      | aborted hsteps => exact ih.call (.aborted (Relation.ReflTransGen.mono hstep _ _ hsteps))
  | poolChanged _ pool ih => exact ih.poolChanged pool

theorem nodeReachable_of_addBlocks {env : Env} {now : Nat} {onboard : TransactionsMap}
    {blocks : List Block} {node node' : Node} (hreach : NodeReachable (BookedMove env) node)
    (h : addBlocks env now onboard blocks node = some node') :
    NodeReachable (BookedMove env) node' := by
  induction blocks generalizing node with
  | nil =>
      cases h
      exact hreach
  | cons bl rest ih =>
      rw [addBlocks] at h
      split at h
      · rename_i n hrun
        exact ih (hreach.call (.committed (.single (.added hrun)))) h
      · cases h

theorem nodeReachable_booksMainNode : NodeReachable (BookedMove booksEnv) booksMainNode := by
  have hrun : booksMainNode?.isSome = true := by decide +kernel
  obtain ⟨node, hnode⟩ := Option.isSome_iff_exists.mp hrun
  rw [booksMainNode, hnode, Option.getD_some]
  exact nodeReachable_of_addBlocks (.start rfl rfl) hnode

/-- The node with the block among its alternative blocks. -/
def booksAltNode? : Option Node :=
  match findAltPlace booksMainNode bookedBlock.prevId with
  | .ok (some place) =>
      match acceptAlternativeBlock booksEnv 100000 bookedBlock
          (Finmap.singleton spendRewardId spendRewardTx) place booksMainNode with
      | (.ok _, node) => some node
      | (.error _, _) => none
  | _ => none

/-- While the block is there, its transaction is counted once and its key image is
entered. -/
theorem altBooks_exact_with_block :
    ∃ node, (node.alternativeChainsTxs.lookup spendRewardId = some 1 ∧
      (node.altblocksKeyimages.lookup 1).map List.length = some 1) ∧ AltBooksExact node := by
  have hsome : (booksAltNode?.map fun node => (node.alternativeChainsTxs.lookup spendRewardId,
      (node.altblocksKeyimages.lookup 1).map List.length)) = some (some 1, some 1) := by
    decide +kernel
  obtain ⟨node, hnode, hbooks⟩ := Option.map_eq_some_iff.mp hsome
  refine ⟨node, Prod.mk.inj hbooks, ?_⟩
  have hreach : NodeReachable (BookedMove booksEnv) node := by
    rw [booksAltNode?] at hnode
    split at hnode
    · rename_i place hplace
      split at hnode
      · rename_i abei node' hrun
        cases hnode
        exact nodeReachable_booksMainNode.call
          (.committed (.single (.accepted hplace hrun (by decide))))
      · cases hnode
    · cases hnode
  exact @altBooks_exact_of_booked booksEnv node altIdsInOrder_lists hreach

def booksPrunedNode : Node :=
  (addNewBlock booksEnv 100000 bookedBlock (Finmap.singleton spendRewardId spendRewardTx)
    booksMainNode).2

/-- The block is taken out for its number, and its transaction is still counted. -/
theorem altBooks_not_exact_after_prune :
    ¬ ∀ (env : Env) (node : Node), (∀ chains, ListsAltBlocks (env.altBlocksOrder chains) chains) →
      NodeReachable (NodeMove env) node → AltBooksExact node := by
  intro hall
  have hmain : NodeReachable (NodeMove booksEnv) booksMainNode :=
    nodeReachable_booksMainNode.mono fun _ _ => BookedMove.nodeMove
  have hexact : AltBooksExact booksPrunedNode :=
    hall booksEnv _ altIdsInOrder_lists (hmain.call (addNewBlock_nodeCall 100000 bookedBlock
      (Finmap.singleton spendRewardId spendRewardTx) booksMainNode))
  have hcounted : booksPrunedNode.alternativeChainsTxs.lookup spendRewardId = some 1 := by
    decide +kernel
  have hgone : FiniteStore.size booksPrunedNode.alternativeChains = 0 := by decide +kernel
  have husers : (users AltBlockExtendedInfo.txIds booksPrunedNode.alternativeChains
      spendRewardId).card ≤ FiniteStore.size booksPrunedNode.alternativeChains :=
    Finset.card_filter_le _ _
  rw [← hexact.txs.count, hcounted, hgone] at husers
  exact absurd husers (by decide)

end Chinet
