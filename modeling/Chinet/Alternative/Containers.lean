import Chinet.Alternative.Validation

/-!
# The containers of the alternative blocks

`m_alternative_chains` holds the alternative blocks, `m_altblocks_keyimages`
lists for each key image the alternative blocks it appears in, and
`m_alternative_chains_txs` counts for each transaction the alternative blocks
it appears in.  Blocks enter all three in one place; `do_erase_altblock` takes
a block out of all three, `prune_aged_alt_blocks` partly out of the first only.
-/

namespace Chinet

variable (env : Env)

abbrev KeyimagesHeap := FiniteStore KeyImage (List Hash)
abbrev AltTxCounts := FiniteStore Hash Nat

/-! ## Key images -/

def appendAltblockKeyimage (blockId : Hash) (heap : KeyimagesHeap) (ki : KeyImage) : KeyimagesHeap :=
  heap.insert ki ((heap.lookup ki).getD [] ++ [blockId])

/-- `append_altblock_keyimages_to_big_heap`; the collected key images differ
from each other, so their order does not matter. -/
def appendAltblockKeyimages (blockId : Hash) (keyImages : List KeyImage) (heap : KeyimagesHeap) :
    KeyimagesHeap :=
  keyImages.foldl (appendAltblockKeyimage blockId) heap

/-- `purge_keyimage_from_big_heap`; no caller looks at its result. -/
def purgeKeyimageFromBigHeap (blockId : Hash) (heap : KeyimagesHeap) (ki : KeyImage) : KeyimagesHeap :=
  match heap.lookup ki with
  | none => heap
  | some ids =>
      if !ids.contains blockId then heap
      else if (ids.erase blockId).isEmpty then heap.erase ki
      else heap.insert ki (ids.erase blockId)

/-- The staked key image of a PoS block. -/
def coinstakeKeyImages (b : Block) : List KeyImage :=
  if isPosBlock b then ((coinstakeInput? b.minerTx).map TxinToKey.kImage).toList else []

/-- The key images of the transactions of a block that `lookup` finds. -/
def txKeyImages (lookup : Hash → Option Transaction) (b : Block) : List KeyImage :=
  b.txHashes.flatMap fun txId => ((lookup txId).map (·.keyImages)).getD []

/-- `purge_altblock_keyimages_from_big_heap`: a transaction that is neither in
the pool nor in the main chain is skipped. -/
def purgeAltblockKeyimages (node : Node) (b : Block) (id : Hash) : KeyimagesHeap :=
  (coinstakeKeyImages b ++ txKeyImages (getTransactionFromPoolOrDb node · 0) b).foldl
    (purgeKeyimageFromBigHeap id) node.altblocksKeyimages

/-! ## Transaction counts -/

def addAltBlockTx (counts : AltTxCounts) (txHash : Hash) : AltTxCounts :=
  counts.insert txHash ((counts.lookup txHash).getD 0 + 1)

/-- `add_alt_block_txs_hashs`. -/
def addAltBlockTxsHashs (b : Block) (counts : AltTxCounts) : AltTxCounts :=
  b.txHashes.foldl addAltBlockTx counts

def purgeAltBlockTx (counts : AltTxCounts) (txHash : Hash) : AltTxCounts :=
  match counts.lookup txHash with
  | none => counts
  | some n => if n - 1 = 0 then counts.erase txHash else counts.insert txHash (n - 1)

/-- `purge_alt_block_txs_hashs`. -/
def purgeAltBlockTxsHashs (b : Block) (counts : AltTxCounts) : AltTxCounts :=
  b.txHashes.foldl purgeAltBlockTx counts

/-! ## Entering and leaving -/

/-- The insertion of `handle_alternative_block` into the three containers. -/
def insertAltblock (id : Hash) (abei : AltBlockExtendedInfo) (keyImages : List KeyImage)
    (node : Node) : Node :=
  { node with
    alternativeChains := node.alternativeChains.insert id abei
    altblocksKeyimages := appendAltblockKeyimages id keyImages node.altblocksKeyimages
    alternativeChainsTxs := addAltBlockTxsHashs abei.bl node.alternativeChainsTxs }

/-- `do_erase_altblock` on the entry `abei`. -/
def doEraseAltblock (abei : AltBlockExtendedInfo) (node : Node) : Node :=
  let id := env.crypto.getBlockHash abei.bl
  { node with
    altblocksKeyimages := purgeAltblockKeyimages node abei.bl id
    alternativeChainsTxs := purgeAltBlockTxsHashs abei.bl node.alternativeChainsTxs
    alternativeChains := node.alternativeChains.erase id }

def clearAltblocks (node : Node) : Node :=
  { node with
    alternativeChains := ∅
    alternativeChainsTxs := ∅
    altblocksKeyimages := ∅ }

/-! ## Pruning -/

/-- `alts_to_delete`, a map from timestamps to blocks in the order of its keys. -/
abbrev AltsToDelete := List (Nat × Hash)

/-- A block that is not aged, met by the loop of `prune_aged_alt_blocks`. -/
def AltsToDelete.note (countToDelete timestamp : Nat) (id : Hash) (alts : AltsToDelete) :
    AltsToDelete :=
  match alts.getLast? with
  | none => [(timestamp, id)]
  | some last =>
      let alts :=
        if timestamp < last.1 then alts
        else if timestamp = last.1 then alts.dropLast ++ [(timestamp, id)]
        else alts ++ [(timestamp, id)]
      if alts.length > countToDelete then alts.tail else alts

def isAgedAltblock (currentHeight : Nat) (abei : AltBlockExtendedInfo) : Bool :=
  currentHeight > abei.height && currentHeight - abei.height > currencyAltBlockLivetimeCount

/-- One turn of the loop of `prune_aged_alt_blocks`. -/
def pruneAltblock (currentHeight countToDelete : Nat) (state : Node × AltsToDelete) (id : Hash) :
    Node × AltsToDelete :=
  match state.1.alternativeChains.lookup id with
  | none => state
  | some abei =>
      if isAgedAltblock currentHeight abei then (doEraseAltblock env abei state.1, state.2)
      else if countToDelete = 0 then state
      else (state.1, state.2.note countToDelete abei.timestamp id)

/-- `prune_aged_alt_blocks`: blocks above the allowed number are erased from
`m_alternative_chains` only. -/
def pruneAgedAltBlocks (node : Node) : Node :=
  let countToDelete := FiniteStore.size node.alternativeChains - env.config.maxAltBlocks
  let (node', altsToDelete) :=
    (env.altBlocksOrder node.alternativeChains).foldl
      (pruneAltblock env node.db.size countToDelete) (node, [])
  { node' with
    alternativeChains :=
      altsToDelete.foldl (fun alts entry => alts.erase entry.2) node'.alternativeChains }

end Chinet
