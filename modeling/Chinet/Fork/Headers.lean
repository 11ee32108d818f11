import Chinet.Storage.State

/-!
# Header rules on the main chain and on an alternative chain

The functions of `blockchain_storage.cpp` that compute the difficulty, the
cumulative difficulties and the proof of a new block, each in its two copies:
one that reads the main chain, and one that walks an alternative chain from its
head down and goes on in the main chain below the split.

A chain is the list of its headers, genesis first.  The loops of the source run
from the top down and stop before the genesis block, which `downFrom` models;
the main chain copy of `get_adjusted_cumulative_difficulty_for_next_pos` and of
`get_last_x_block_height` visit the genesis block as well.
-/

namespace Chinet

variable (env : Env)

namespace BlockHeaderInfo

def isPos (bei : BlockHeaderInfo) : Bool := isPosBlock bei.bl

end BlockHeaderInfo

/-- The headers at the heights `height - 1`, …, `1`, in this order. -/
def downFrom (blocks : List BlockHeaderInfo) (height : Nat) : List BlockHeaderInfo :=
  (blocks.take height).tail.reverse

/-- The order in which `enum_blockchain` visits the headers. -/
def enumBlockchain (blocks altChain : List BlockHeaderInfo) (splitHeight : Nat) :
    List BlockHeaderInfo :=
  altChain.reverse ++
    downFrom blocks
      (if splitHeight ≠ 0 then splitHeight
        else match altChain with
          | [] => blocks.length
          | front :: _ => front.height)

/-! ## Next difficulty -/

def difficultyTarget (pos : Bool) : Nat :=
  if pos then difficultyPosTarget else difficultyPowTarget

/-- The retargeting function in force for a block at `height`. -/
def nextDifficulty (height : Nat) (timestamps : List Nat)
    (cumulativeDifficulties : List WideDifficulty) (pos : Bool) : WideDifficulty :=
  if env.isAfterHardfork1Zone height then
    nextDifficulty2 timestamps cumulativeDifficulties (difficultyTarget pos)
  else nextDifficulty1 timestamps cumulativeDifficulties (difficultyTarget pos)

/-- `load_targetdata_cache`: oldest entry first. -/
def loadTargetdataCache (blocks : List BlockHeaderInfo) (isPos : Bool) :
    List (WideDifficulty × Nat) :=
  ((((downFrom blocks blocks.length).filter (·.isPos = isPos)).take (difficultyWindow + 5)).map
    fun bei => (bei.cumulativeDiffPrecise, bei.bl.timestamp)).reverse

def getNextDiffConditional (blocks : List BlockHeaderInfo) (pos : Bool) : WideDifficulty :=
  if blocks = [] then difficultyStarter
  else
    let data := (loadTargetdataCache blocks pos).reverse.take difficultyWindow
    nextDifficulty env blocks.length (data.map Prod.snd) (data.map Prod.fst) pos

/-- The visitor stops at the first header of height zero. -/
def getNextDiffConditional2 (blocks altChain : List BlockHeaderInfo) (pos : Bool)
    (splitHeight height : Nat) : WideDifficulty :=
  if blocks = [] then difficultyStarter
  else
    let visited := (enumBlockchain blocks altChain splitHeight).takeWhile (·.height ≠ 0)
    let data := (visited.filter (·.isPos = pos)).take difficultyWindow
    nextDifficulty env height (data.map (·.bl.timestamp)) (data.map (·.cumulativeDiffPrecise)) pos

/-! ## Cumulative difficulties -/

/-- The loop body of `get_adjusted_cumulative_difficulty_for_next_pos`: the last
non-zero PoW and PoS difficulties. -/
def scanLastDifficulties (lastPowDiff lastPosDiff : WideDifficulty) :
    List BlockHeaderInfo → WideDifficulty × WideDifficulty
  | [] => (lastPowDiff, lastPosDiff)
  | bei :: rest =>
      if lastPowDiff ≠ 0 ∧ lastPosDiff ≠ 0 then (lastPowDiff, lastPosDiff)
      else if bei.isPos then
        scanLastDifficulties lastPowDiff (if lastPosDiff = 0 then bei.difficulty else lastPosDiff)
          rest
      else
        scanLastDifficulties (if lastPowDiff = 0 then bei.difficulty else lastPowDiff) lastPosDiff
          rest

def adjustPosDifficulty (nextDiff : WideDifficulty) (last : WideDifficulty × WideDifficulty) :
    WideDifficulty :=
  if last.2 = 0 then nextDiff else nextDiff * last.1 / last.2

def getAdjustedCumulativeDifficultyForNextPos (blocks : List BlockHeaderInfo)
    (nextDiff : WideDifficulty) : WideDifficulty :=
  if blocks = [] then nextDiff
  else adjustPosDifficulty nextDiff (scanLastDifficulties 0 0 blocks.reverse)

def getAdjustedCumulativeDifficultyForNextAltPos (blocks altChain : List BlockHeaderInfo)
    (nextDiff : WideDifficulty) (connectionHeight : Nat) : WideDifficulty :=
  let inAlt := scanLastDifficulties 0 0 altChain.reverse
  adjustPosDifficulty nextDiff
    (scanLastDifficulties inAlt.1 inAlt.2 (downFrom blocks connectionHeight))

def getCurrentSequenceFactor (blocks : List BlockHeaderInfo) (pos : Bool) : Nat :=
  ((downFrom blocks blocks.length).takeWhile (·.isPos = pos)).length

def getCurrentSequenceFactorForAlt (blocks altChain : List BlockHeaderInfo) (pos : Bool)
    (connectionHeight : Nat) : Nat :=
  let n := (altChain.reverse.takeWhile (·.isPos = pos)).length
  if n < altChain.length then n
  else n + ((downFrom blocks connectionHeight).takeWhile (·.isPos = pos)).length

/-- The height of the last block of the type; zero also when there is none. -/
def getLastXBlockHeight (blocks : List BlockHeaderInfo) (pos : Bool) : Nat :=
  ((List.range blocks.length).reverse.find?
    fun i => (blocks[i]?.map BlockHeaderInfo.isPos) = some pos).getD 0

/-- `get_last_alt_x_block_cumulative_precise_difficulty` and the adjusted value
it returns by reference. -/
def getLastAltXBlockCumulativePreciseDifficulty (blocks altChain : List BlockHeaderInfo)
    (blockHeight : Nat) (pos : Bool) : WideDifficulty × WideDifficulty :=
  match altChain.reverse.find? (·.isPos = pos) with
  | some bei => (bei.cumulativeDiffPrecise, bei.cumulativeDiffPreciseAdjusted)
  | none =>
      let mainChainFirstBlock :=
        match altChain with
        | [] => blockHeight
        | front :: _ => front.height - 1
      if mainChainFirstBlock < blocks.length then
        match (downFrom blocks (mainChainFirstBlock + 1)).find? (·.isPos = pos) with
        | some bei => (bei.cumulativeDiffPrecise, bei.cumulativeDiffPreciseAdjusted)
        | none => (0, 0)
      else (0, 0)

def getLastAltXBlockCumulativePreciseAdjDifficulty (blocks altChain : List BlockHeaderInfo)
    (blockHeight : Nat) (pos : Bool) : WideDifficulty :=
  (getLastAltXBlockCumulativePreciseDifficulty blocks altChain blockHeight pos).2

/-- `cumulative_diff_delta`, after the correction for a sequence. -/
def cumulativeDiffDelta (height sequenceFactor : Nat) (delta : WideDifficulty) : WideDifficulty :=
  if height ≥ env.config.posMinimumHeigh then
    correctDifficultyWithSequenceFactor sequenceFactor delta
  else delta

/-- The header fields `handle_block_to_main_chain` fills in for a block on top
of `blocks`. -/
def mainHeaderInfo (blocks : List BlockHeaderInfo) (bl : Block) (currentDiffic : WideDifficulty)
    (stakeHash : Hash) : BlockHeaderInfo :=
  let pos := isPosBlock bl
  let height := blocks.length
  let lastXH := getLastXBlockHeight blocks pos
  let sequenceFactor := getCurrentSequenceFactor blocks pos
  let delta :=
    if pos then getAdjustedCumulativeDifficultyForNextPos blocks currentDiffic else currentDiffic
  let diffPreciseAdj := correctDifficultyWithSequenceFactor sequenceFactor currentDiffic
  { bl
    height
    difficulty := currentDiffic
    stakeHash
    cumulativeDiffAdjusted :=
      ((blocks.getLast?.map BlockHeaderInfo.cumulativeDiffAdjusted).getD 0) +
        cumulativeDiffDelta env height sequenceFactor delta
    cumulativeDiffPrecise :=
      if lastXH = 0 then currentDiffic
      else ((blocks[lastXH]?.map BlockHeaderInfo.cumulativeDiffPrecise).getD 0) + currentDiffic
    cumulativeDiffPreciseAdjusted :=
      if lastXH = 0 then diffPreciseAdj
      else
        ((blocks[lastXH]?.map BlockHeaderInfo.cumulativeDiffPreciseAdjusted).getD 0) +
          diffPreciseAdj }

/-- The header fields `handle_alternative_block` fills in for a block whose
predecessor `prev` is the head of `altChain`, or in the main chain when
`altChain` is empty. -/
def altHeaderInfo (blocks altChain : List BlockHeaderInfo) (prev : BlockHeaderInfo) (b : Block)
    (height connectionHeight : Nat) (currentDiff : WideDifficulty) (stakeHash : Hash) :
    BlockHeaderInfo :=
  let pos := isPosBlock b
  let sequenceFactor := getCurrentSequenceFactorForAlt blocks altChain pos connectionHeight
  let delta :=
    if pos then
      getAdjustedCumulativeDifficultyForNextAltPos blocks altChain currentDiff connectionHeight
    else currentDiff
  let last := getLastAltXBlockCumulativePreciseDifficulty blocks altChain (height - 1) pos
  { bl := b
    height
    difficulty := currentDiff
    stakeHash
    cumulativeDiffAdjusted :=
      prev.cumulativeDiffAdjusted + cumulativeDiffDelta env height sequenceFactor delta
    cumulativeDiffPrecise := last.1 + currentDiff
    cumulativeDiffPreciseAdjusted :=
      last.2 + correctDifficultyWithSequenceFactor sequenceFactor currentDiff }

/-! ## Proof of a block -/

def getLastBlockOfType (lookingForPos : Bool) (blocks altChain : List BlockHeaderInfo)
    (splitHeight : Nat) : Option BlockHeaderInfo :=
  (enumBlockchain blocks altChain splitHeight).find? (·.isPos = lookingForPos)

/-- `build_stake_modifier`: throws without a PoW block above the genesis. -/
def buildStakeModifier (blocks altChain : List BlockHeaderInfo) (splitHeight : Nat) :
    Except Failure StakeModifier :=
  match getLastBlockOfType false blocks altChain splitHeight with
  | none => .error .thrown
  | some lastPow =>
      .ok {
        lastPosKernelId :=
          ((getLastBlockOfType true blocks altChain splitHeight).map
            BlockHeaderInfo.stakeHash).getD posStarterKernelHash
        lastPowId := env.crypto.getBlockHash lastPow.bl }

/-- `build_kernel`: the kernel and the staked amount. -/
def buildKernel (bl : Block) (stakeModifier : StakeModifier) : Except Failure (StakeKernel × UInt64) :=
  match bl.minerTx.vin with
  | [.gen _, .toKey txin] =>
      if txin.keyOffsets = [] then .error .rejected
      else .ok ({ stakeModifier, blockTimestamp := bl.timestamp, kimage := txin.kImage }, txin.amount)
  | _ => .error .rejected

/-- The checks of `validate_pos_block` before it looks at the key image. -/
def validatePosBlockHeader (b : Block) : Check := do
  require (isPosBlock b)
  require (b.timestamp % posScanStep = 0)

/-- The checks of `validate_pos_block` from the actual timestamp to the number
of signatures; returns `proof_hash`. -/
def validatePosBlockKernel (blocks altChain : List BlockHeaderInfo) (splitHeight : Nat) (b : Block)
    (basicDiff : WideDifficulty) : Except Failure Hash := do
  let actualTs := getActualTimestamp b
  require (actualTs - b.timestamp ≤ posMaxActualTimestampToMined &&
    b.timestamp - actualTs ≤ posMaxActualTimestampToMined)
  let stakeModifier ← buildStakeModifier env blocks altChain splitHeight
  let (kernel, amount) ← buildKernel b stakeModifier
  require (amount != 0)
  let proofHash := env.crypto.kernelHash kernel
  require (checkHash proofHash (basicDiff / BitVec.ofNat 128 amount.toNat))
  require (b.minerTx.signatures.length = 1)
  return proofHash

/-! ## Timestamps -/

def getLastNBlocksTimestamps (blocks : List BlockHeaderInfo) (n : Nat) : List Nat :=
  (blocks.drop (blocks.length - n)).map (·.bl.timestamp)

def checkBlockTimestamp (timestamps : List Nat) (now : Nat) (b : Block) : Bool :=
  if timestamps.length < blockchainTimestampCheckWindow then true
  else if isPosBlock b && b.timestamp > now + currencyPosBlockFutureTimeLimit then false
  else median timestamps ≤ b.timestamp

def checkBlockTimestampMain (blocks : List BlockHeaderInfo) (now : Nat) (b : Block) : Bool :=
  if b.timestamp > now + currencyBlockFutureTimeLimit then false
  else if isPosBlock b && b.timestamp > now + currencyPosBlockFutureTimeLimit then false
  else checkBlockTimestamp (getLastNBlocksTimestamps blocks blockchainTimestampCheckWindow) now b

/-- The heights `complete_timestamps_vector` walks through: it stops before
`stop_offset`, and visits the genesis block only when it starts there. -/
def completedHeaders (blocks : List BlockHeaderInfo) (startTopHeight needElements : Nat) :
    List BlockHeaderInfo :=
  if startTopHeight = 0 then blocks.take 1
  else
    let stopOffset := if startTopHeight > needElements then startTopHeight - needElements else 0
    ((blocks.take (startTopHeight + 1)).drop (stopOffset + 1)).reverse

/-- `complete_timestamps_vector`; its caller ignores the result of the internal
check, which leaves the vector as it is. -/
def completeTimestampsVector (blocks : List BlockHeaderInfo) (startTopHeight : Nat)
    (timestamps : List Nat) : List Nat :=
  if timestamps.length ≥ blockchainTimestampCheckWindow then timestamps
  else if startTopHeight < blocks.length then
    timestamps ++
      (completedHeaders blocks startTopHeight
        (blockchainTimestampCheckWindow - timestamps.length)).map (·.bl.timestamp)
  else timestamps

end Chinet
