import Chinet.Alternative.Handle
import Chinet.Storage.FeeMedian
import Mathlib.Logic.Relation

/-!
# The caches of derived values

Besides the fee median and the next difficulties, which are part of `Node`, the
storage keeps

* the medians of the last timestamps (`m_timestamps_median_cache`),
* the cumulative difficulties and timestamps of the last blocks of each type
  (`m_pos_targetdata_cache`, `m_pow_targetdata_cache`), and
* the limit on the size of the next block (`m_db_current_block_cumul_sz_limit`).

The last one is in the database and the others are not.
-/

namespace Chinet

variable (env : Env)

abbrev TargetdataCache := List (WideDifficulty × Nat)

structure CachedNode extends Node where
  currentBlockCumulSzLimit : Nat
  timestampsMedianCache : FiniteStore Nat Nat
  posTargetdataCache : TargetdataCache
  powTargetdataCache : TargetdataCache

namespace CachedNode

/-! ## The median of the timestamps -/

/-- `get_last_n_blocks_timestamps_median`. -/
def getLastNBlocksTimestampsMedian (n : Nat) (cn : CachedNode) : Nat × CachedNode :=
  match cn.timestampsMedianCache.lookup n with
  | some medianRes => (medianRes, cn)
  | none =>
      let medianRes := median (getLastNBlocksTimestamps cn.db.headers n)
      (medianRes, { cn with
        timestampsMedianCache := cn.timestampsMedianCache.insert n medianRes })

/-! ## The target data -/

def targetdataCacheSize : Nat := difficultyWindow + 10

def targetdataCache (cn : CachedNode) (pos : Bool) : TargetdataCache :=
  if pos then cn.posTargetdataCache else cn.powTargetdataCache

def setTargetdataCache (pos : Bool) (cache : TargetdataCache) (cn : CachedNode) : CachedNode :=
  if pos then { cn with posTargetdataCache := cache } else { cn with powTargetdataCache := cache }

/-- `load_targetdata_cache`. -/
def loadTargetdata (pos : Bool) (cn : CachedNode) : CachedNode :=
  cn.setTargetdataCache pos (loadTargetdataCache cn.db.headers pos)

/-- `get_next_diff_conditional`, which loads the target data every time. -/
def getNextDiffConditional (pos : Bool) (cn : CachedNode) : WideDifficulty × CachedNode :=
  if cn.db.blocks = [] then (difficultyStarter, cn)
  else
    let cn := cn.loadTargetdata pos
    let data := (cn.targetdataCache pos).reverse.take difficultyWindow
    let dif := nextDifficulty env cn.db.blocks.length (data.map Prod.snd) (data.map Prod.fst) pos
    (dif,
      if pos then { cn with cachedNextPosDifficulty := dif }
      else { cn with cachedNextPowDifficulty := dif })

def targetdataEntry (bei : BlockHeaderInfo) : WideDifficulty × Nat :=
  (bei.cumulativeDiffPrecise, bei.bl.timestamp)

def updateTargetdataCacheOnBlockAdded (bei : BlockHeaderInfo) (cn : CachedNode) : CachedNode :=
  if bei.height = 0 then cn
  else
    let cache := cn.targetdataCache bei.isPos ++ [targetdataEntry bei]
    cn.setTargetdataCache bei.isPos (cache.drop (cache.length - targetdataCacheSize))

def updateTargetdataCacheOnBlockRemoved (bei : BlockHeaderInfo) (cn : CachedNode) : CachedNode :=
  let cache := (cn.targetdataCache bei.isPos).dropLast
  cn.setTargetdataCache bei.isPos (if cache.length < difficultyWindow then [] else cache)

/-! ## The size limit -/

/-- What `update_next_comulative_size_limit` makes of a chain. -/
def nextComulativeSizeLimit (db : Db) : Nat :=
  let median := median (getLastNBlocksSizes db currencyRewardBlocksWindow)
  (if median ≤ currencyBlockGrantedFullRewardZone then currencyBlockGrantedFullRewardZone
    else median) * 2

def updateNextComulativeSizeLimit (cn : CachedNode) : CachedNode :=
  { cn with currentBlockCumulSzLimit := nextComulativeSizeLimit cn.db }

/-! ## Notifications -/

def clearTimestamps (cn : CachedNode) : CachedNode :=
  { cn with timestampsMedianCache := ∅ }

def onBlockAdded (bei : BlockHeaderInfo) (cn : CachedNode) : CachedNode :=
  (cn.updateNextComulativeSizeLimit.clearTimestamps).updateTargetdataCacheOnBlockAdded bei

/-- The size limit is not computed again. -/
def onBlockRemoved (bei : BlockHeaderInfo) (cn : CachedNode) : CachedNode :=
  cn.clearTimestamps.updateTargetdataCacheOnBlockRemoved bei

/-- `abort_transaction` back to the database of `start`; `on_abort_transaction` follows
it in `add_new_block` after `handle_block_to_main_chain` and after an exception, but not
after `handle_alternative_block`. -/
def abortTransaction (cn start : CachedNode) (onAbort : Bool) : CachedNode :=
  let restored := { cn with
    db := start.db
    currentBlockCumulSzLimit := start.currentBlockCumulSzLimit }
  if onAbort then restored.clearTimestamps else restored

end CachedNode

/-! ## Runs -/

/-- A state of the storage on the way through a call.  `sized` is the database that the
size limit was computed for: the one with the last block that was added, or the one at
the start. -/
inductive CachePath (env : Env) (start : CachedNode) : CachedNode → Db → Prop
  | refl : CachePath env start start start.db
  | medianAsked {cn : CachedNode} {sized : Db} (h : CachePath env start cn sized) (n : Nat) :
      CachePath env start (cn.getLastNBlocksTimestampsMedian n).2 sized
  | difficultyAsked {cn : CachedNode} {sized : Db} (h : CachePath env start cn sized) (pos : Bool) :
      CachePath env start (cn.getNextDiffConditional env pos).2 sized
  | feeMedianAsked {cn : CachedNode} {sized : Db} (h : CachePath env start cn sized) :
      CachePath env start { cn with toNode := (getTxFeeMedian cn.toNode).2 } sized
  /-- Anything else that leaves the main chain and the fee median alone. -/
  | elsewhere {cn : CachedNode} {sized : Db} (h : CachePath env start cn sized) {node : Node}
      (hblocks : node.db.blocks = cn.db.blocks)
      (hmedian : node.currentFeeMedian = cn.currentFeeMedian)
      (hindex : node.currentFeeMedianEffectiveIndex = cn.currentFeeMedianEffectiveIndex) :
      CachePath env start { cn with toNode := node } sized
  | added {cn : CachedNode} {sized : Db} (h : CachePath env start cn sized) {now : Nat} {bl : Block}
      {onboard : TransactionsMap} {node : Node} {bei : BlockExtendedInfo}
      (hrun : handleBlockToMainChain env now bl (env.crypto.getBlockHash bl) onboard cn.toNode =
        (.ok .addedToMainChain, node))
      (hlast : node.db.blocks.getLast? = some bei) :
      CachePath env start
        (CachedNode.onBlockAdded bei.toBlockHeaderInfo
          { (cn.getNextDiffConditional env (isPosBlock bl)).2 with toNode := node }) node.db
  | removed {cn : CachedNode} {sized : Db} (h : CachePath env start cn sized)
      {onboard : TransactionsMap} {node : Node} {bei : BlockExtendedInfo}
      (hlast : cn.db.blocks.getLast? = some bei)
      (hrun : popBlockFromBlockchain env cn.toNode = (.ok onboard, node)) :
      CachePath env start
        (CachedNode.onBlockRemoved bei.toBlockHeaderInfo { cn with toNode := node }) sized

/-- A call in a database transaction. -/
inductive CacheCall (env : Env) (start : CachedNode) : CachedNode → Prop
  | committed {cn : CachedNode} {sized : Db} (h : CachePath env start cn sized) :
      CacheCall env start cn
  | aborted {cn : CachedNode} {sized : Db} (h : CachePath env start cn sized) (onAbort : Bool) :
      CacheCall env start (cn.abortTransaction start onAbort)

/-- A storage without blocks and with nothing cached. -/
structure CachedNode.Initial (cn : CachedNode) : Prop where
  blocks : cn.db.blocks = []
  feeFields : cn.feeFields = (0, 0)
  timestamps : cn.timestampsMedianCache = ∅
  targetdata : ∀ pos, cn.targetdataCache pos = []

/-- The states between calls of the kind `Call`. -/
def CacheReachable (Call : CachedNode → CachedNode → Prop) (cn : CachedNode) : Prop :=
  ∃ start : CachedNode, start.Initial ∧ Relation.ReflTransGen Call start cn

end Chinet
