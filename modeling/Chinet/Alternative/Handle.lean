import Chinet.Alternative.Containers
import Chinet.ForkChoice.Reorganize

/-!
# Alternative blocks and chain switches

`handle_alternative_block`, `switch_to_alternative_blockchain` and
`add_new_block`.

A switch hands the disconnected blocks to `handle_alternative_block` again.
That inner call runs while `m_is_reorganize_in_process` is set, so it cannot
switch in turn: a reorganization it finds necessary throws.
-/

namespace Chinet

variable (env : Env)

/-! ## The alternative chain below a block -/

/-- The blocks met on the way down from `id`, with at most `fuel` steps. -/
def altChainFrom (alternativeChains : FiniteStore Hash AltBlockExtendedInfo) :
    Nat → Hash → AltChain
  | 0, _ => []
  | fuel + 1, id =>
      match alternativeChains.lookup id with
      | none => []
      | some abei => altChainFrom alternativeChains fuel abei.bl.prevId ++ [abei]

/-- The alternative chain with head `id`.  A walk without repetitions is not
longer than the container, which bounds the loop of the source. -/
def Node.altChain (node : Node) (id : Hash) : AltChain :=
  altChainFrom node.alternativeChains (FiniteStore.size node.alternativeChains) id

/-- Where an alternative block is attached. -/
structure AltPlace where
  altChain : AltChain
  prev : BlockHeaderInfo
  height : Nat

def AltPlace.connectionHeight (place : AltPlace) : Nat :=
  match place.altChain with
  | [] => place.height
  | front :: _ => front.height

/-- The place of a block with this `prev_id`; none for an orphan. -/
def findAltPlace (node : Node) (prevId : Hash) : Except Failure (Option AltPlace) :=
  match node.alternativeChains.lookup prevId with
  | some prev =>
      .ok (some {
        altChain := node.altChain prevId
        prev := prev.toBlockHeaderInfo
        height := prev.height + 1 })
  | none =>
      match node.db.blocksIndex.lookup prevId with
      | none => .ok none
      | some mainPrev =>
          match node.db.headers[mainPrev]? with
          | none => .error .thrown
          | some prev => .ok (some { altChain := [], prev, height := mainPrev + 1 })

/-! ## The checks of `handle_alternative_block` -/

/-- The connection to the main chain and the timestamp. -/
def checkAltTimestamp (node : Node) (now : Nat) (b : Block) (place : AltPlace) : Check := do
  let timestamps := place.altChain.reverse.map fun abei => abei.bl.timestamp
  match place.altChain with
  | [] => pure ()
  | front :: _ => do
      require (node.db.size ≥ front.height)
      requireThrow (front.height != 0)
      match node.db.headers[front.height - 1]? with
      | none => throw .thrown
      | some bei => require (env.crypto.getBlockHash bei.bl = front.bl.prevId)
  require (checkBlockTimestamp
    (completeTimestampsVector node.db.headers (place.connectionHeight - 1) timestamps) now b)

/-- All transactions of the block that can be found are kept with it. -/
def completeOnboardTransactions (node : Node) (txHashes : List Hash) (onboard : TransactionsMap) :
    TransactionsMap :=
  txHashes.foldl
    (fun onboard txId =>
      if txId ∈ onboard then onboard
      else
        match getTransactionFromPoolOrDb node txId 0 with
        | none => onboard
        | some tx => onboard.insert txId tx)
    onboard

/-- The checkpoint zone flag for an alternative block and its checkpoint. -/
def enterAltCheckpointZone (height : Nat) (id : Hash) : NodeProcedure Unit := do
  Procedure.modify fun node => { node with
    isInCheckpointZone := env.checkpoints.isInCheckpointZone height }
  Procedure.check fun node =>
    require (!node.isInCheckpointZone || env.checkpoints.checkBlock height id)

/-- The proof of an alternative block; returns the stake hash, null for a PoW
block. -/
def checkAltProof (blocks altChain : List BlockHeaderInfo) (connectionHeight : Nat) (b : Block)
    (currentDiff : WideDifficulty) : Except Failure Hash :=
  if isPosBlock b then do
    validatePosBlockHeader b
    let proofHash ← validatePosBlockKernel env blocks altChain connectionHeight b currentDiff
    require (coinstakeAge (connectionHeight + altChain.length) 0 ≥ env.config.minCoinstakeAge)
    return proofHash
  else do
    require (checkHash (env.crypto.getBlockLonghash b) currentDiff)
    return nullHash

/-- The limit on a sequence of PoS blocks, which `handle_alternative_block`
applies up to the first hard fork only. -/
def altSequenceFactorAllowed (blocks altChain : List BlockHeaderInfo) (b : Block)
    (height connectionHeight : Nat) : Bool :=
  !(height > blockchainHeightForPosStrictSequenceLimitation && !env.isAfterHardfork1Zone height &&
    isPosBlock b &&
    getCurrentSequenceFactorForAlt blocks altChain (isPosBlock b) connectionHeight >
      blockPosStrictSequenceLimit)

/-- The header of an alternative block: checks up to the coinbase, difficulty
and proof. -/
def checkAltHeader (now : Nat) (b : Block) (place : AltPlace) : NodeProcedure BlockHeaderInfo := do
  Procedure.check fun node => checkAltTimestamp env node now b place
  Procedure.check fun _ => do
    require (getBlockHeight b = place.height)
    require (place.connectionHeight != 0)
  enterAltCheckpointZone env place.height (env.crypto.getBlockHash b)
  let pos := isPosBlock b
  Procedure.check fun node => do
    require (!(pos && place.height < env.config.posMinimumHeigh))
    let currentDiff := getNextDiffConditional2 env node.db.headers place.altChain.headers pos
      place.connectionHeight place.height
    require (currentDiff != 0)
    let stakeHash ← checkAltProof env node.db.headers place.altChain.headers
      place.connectionHeight b currentDiff
    prevalidateMinerTransaction env b place.height pos
    return altHeaderInfo env node.db.headers place.altChain.headers place.prev b place.height
      place.connectionHeight currentDiff stakeHash

/-- `handle_alternative_block` up to the insertion of the block; returns its
entry. -/
def acceptAlternativeBlock (now : Nat) (b : Block) (onboard : TransactionsMap) (place : AltPlace) :
    NodeProcedure AltBlockExtendedInfo := do
  let id := env.crypto.getBlockHash b
  let onboardTransactions ← Procedure.gets fun node =>
    completeOnboardTransactions node b.txHashes onboard
  let header ← checkAltHeader env now b place
  let (keyImages, indexes) ← Procedure.check fun node =>
    validateAltBlockTxs env node
      { altChain := place.altChain
        splitHeight := place.connectionHeight
        altChainBlockIds := id :: place.altChain.map (fun abei => env.crypto.getBlockHash abei.bl) }
      now b id place.height onboardTransactions
  Procedure.check fun node => do
    require (altSequenceFactorAllowed env node.db.headers place.altChain.headers b place.height
      place.connectionHeight)
    require (node.alternativeChains.lookup id).isNone
  -- the database fields of the entry stay at their initial values
  let abei : AltBlockExtendedInfo := { header, indexes with
    blockCumulativeSize := 0
    alreadyGeneratedCoins := 0
    thisBlockTxFeeMedian := 0
    effectiveTxFeeMedian := 0
    timestamp := now
    onboardTransactions }
  Procedure.modify (insertAltblock id abei keyImages)
  pure abei

/-! ## Handling an alternative block -/

/-- `validate_blockchain_prev_links` on the last ten blocks. -/
def validateBlockchainPrevLinks (db : Db) : Bool :=
  (List.range 10).all fun k =>
    k + 1 ≥ db.size ||
      match db.blocks[db.size - 1 - k]?, db.blocks[db.size - 2 - k]? with
      | some bei, some prev =>
          bei.height = db.size - 1 - k && bei.bl.prevId = env.crypto.getBlockHash prev.bl
      | _, _ => false

def checkPrevLinks : NodeProcedure Unit :=
  Procedure.check fun node => require (validateBlockchainPrevLinks env node.db)

inductive AltVerdict
  | addedToMainChain
  | addedToAltchain
  | orphaned
deriving DecidableEq

/-- The proof of a block that the fork choice compares. -/
def proofOf (abei : AltBlockExtendedInfo) : Hash :=
  if isPosBlock abei.bl then abei.stakeHash else env.crypto.getBlockLonghash abei.bl

/-- `is_reorganize_required` for the chain `altChain`, which ends in the block
just added. -/
def isReorganizeRequiredFor (altChain : AltChain) (proofAlt : Hash) : NodeProcedure Bool := do
  match (← Procedure.gets fun node => node.db.headers.getLast?), altChain.head?,
      altChain.getLast? with
  | some mainChainBei, some connectionPoint, some altChainBei =>
      isReorganizeRequired env mainChainBei altChainBei.toBlockHeaderInfo
        connectionPoint.toBlockHeaderInfo altChain.headers proofAlt
  | _, _, _ => Procedure.fail .thrown

/-- A switch inside a switch throws; the flag is cleared on every way out. -/
def guardReorganize (switch : NodeProcedure Unit) : NodeProcedure Unit := fun node =>
  if node.isReorganizeInProcess then (.error .thrown, { node with isReorganizeInProcess := false })
  else
    let (result, node') := switch { node with isReorganizeInProcess := true }
    (result, { node' with isReorganizeInProcess := false })

/-- `CATCH_ENTRY_CUSTOM`. -/
def catchThrown {α : Type} (x : NodeProcedure α) : NodeProcedure α := fun node =>
  match x node with
  | (.error _, node') => (.error .rejected, node')
  | result => result

/-- The part of `handle_alternative_block` after the block was inserted. -/
def chooseFork (switch : AltChain → NodeProcedure Unit) (altChain : AltChain)
    (abei : AltBlockExtendedInfo) : NodeProcedure AltVerdict := do
  if ← isReorganizeRequiredFor env altChain (proofOf env abei) then
    guardReorganize (switch altChain)
    pure .addedToMainChain
  else
    Procedure.modify fun node =>
      if FiniteStore.size node.alternativeChains > env.config.maxAltBlocks then
        pruneAgedAltBlocks env node
      else node
    pure .addedToAltchain

/-- `handle_alternative_block`, with the switch it may call. -/
def handleAlternativeBlockWith (switch : AltChain → NodeProcedure Unit) (now : Nat) (b : Block)
    (onboard : TransactionsMap) : NodeProcedure AltVerdict := do
  Procedure.check fun node =>
    require (!env.checkpoints.isHeightPassedZone (getBlockHeight b) (node.db.size - 1))
  catchThrown do
    match (← Procedure.check fun node => findAltPlace node b.prevId) with
    | none => do
        checkPrevLinks env
        pure .orphaned
    | some place => do
        let abei ← acceptAlternativeBlock env now b onboard place
        chooseFork env switch (place.altChain ++ [abei]) abei

/-- The call from inside a switch. -/
def handleDisconnectedBlock (now : Nat) (b : Block) (onboard : TransactionsMap) :
    NodeProcedure AltVerdict :=
  handleAlternativeBlockWith env (fun _ => Procedure.fail .thrown) now b onboard

/-! ## Switching to an alternative chain -/

structure BlockWsTxs where
  b : Block
  onboardTransactions : TransactionsMap

/-- Pop `n` blocks, the last one first; `linksChecked` adds the check that
`switch_to_alternative_blockchain` makes after each. -/
def disconnectBlocks (linksChecked : Bool) : Nat → List BlockWsTxs → NodeProcedure (List BlockWsTxs)
  | 0, disconnected => pure disconnected
  | n + 1, disconnected => do
      match (← Procedure.gets fun node => node.db.blocks.getLast?) with
      | none => Procedure.fail .rejected
      | some bei => do
          let onboardTransactions ← popBlockFromBlockchain env
          if linksChecked then checkPrevLinks env else pure ()
          disconnectBlocks linksChecked n ({ b := bei.bl, onboardTransactions } :: disconnected)

/-- A block that has to go to the main chain. -/
def connectBlock (now : Nat) (entry : BlockWsTxs) : NodeProcedure Unit := do
  let verdict ← handleBlockToMainChain env now entry.b (env.crypto.getBlockHash entry.b)
    entry.onboardTransactions
  if verdict = .addedToMainChain then pure () else Procedure.fail .rejected

/-- `rollback_blockchain_switching`. -/
def rollbackBlockchainSwitching (now : Nat) (originalChain : List BlockWsTxs)
    (rollbackHeight : Nat) : NodeProcedure Unit := do
  let size ← Procedure.gets fun node => node.db.size
  let _ ← disconnectBlocks env false (size - rollbackHeight) []
  Procedure.forEach (connectBlock env now) originalChain

/-- Connect the alternative chain; returns its part from the first block that
the main chain refuses. -/
def connectAltChain (now : Nat) : AltChain → NodeProcedure AltChain
  | [] => pure []
  | abei :: rest => do
      if ← succeeds (connectBlock env now
          { b := abei.bl, onboardTransactions := abei.onboardTransactions }) then
        connectAltChain now rest
      else pure (abei :: rest)

/-- `add_block_as_invalid` and `do_erase_altblock`. -/
def discardAltblock (abei : AltBlockExtendedInfo) (node : Node) : Node :=
  doEraseAltblock env abei
    { node with invalidBlocks := insert (env.crypto.getBlockHash abei.bl) node.invalidBlocks }

/-- Hand the disconnected blocks to `handle_alternative_block`.  When one is
refused, returns the whole disconnected chain for the rollback: the blocks
handed over have lost their transactions to it. -/
def handOverDisconnected (now : Nat) (handed : List BlockWsTxs) :
    List BlockWsTxs → NodeProcedure (Option (List BlockWsTxs))
  | [] => pure none
  | entry :: rest => do
      let handed := handed ++ [{ entry with onboardTransactions := ∅ }]
      if ← succeeds (do let _ ← handleDisconnectedBlock env now entry.b entry.onboardTransactions
                        pure ()) then
        handOverDisconnected now handed rest
      else pure (some (handed ++ rest))

/-- The end of a switch whose alternative chain was connected. -/
def finishSwitch (now : Nat) (altChain : AltChain) (disconnected : List BlockWsTxs)
    (splitHeight : Nat) : NodeProcedure Unit := do
  match (← handOverDisconnected env now [] disconnected) with
  | none => pure ()
  | some originalChain => do
      let _ ← succeeds (rollbackBlockchainSwitching env now originalChain splitHeight)
      checkPrevLinks env
  Procedure.modify fun node => altChain.foldl (fun node abei => doEraseAltblock env abei node) node

/-- The end of a switch that failed at the first block of `refused`. -/
def abandonSwitch (now : Nat) (refused : AltChain) (disconnected : List BlockWsTxs)
    (splitHeight : Nat) : NodeProcedure Unit := do
  let _ ← succeeds (rollbackBlockchainSwitching env now disconnected splitHeight)
  Procedure.modify fun node => refused.foldl (fun node abei => discardAltblock env abei node) node
  checkPrevLinks env
  Procedure.fail .rejected

/-- `switch_to_alternative_blockchain`. -/
def switchToAlternativeBlockchain (now : Nat) (altChain : AltChain) : NodeProcedure Unit := do
  checkPrevLinks env
  match altChain with
  | [] => Procedure.fail .rejected
  | front :: _ => do
      let splitHeight := front.height
      Procedure.check fun node => require (node.db.size ≥ splitHeight)
      let size ← Procedure.gets fun node => node.db.size
      let disconnected ← disconnectBlocks env true (size - splitHeight) []
      let refused ← connectAltChain env now altChain
      if refused.isEmpty then finishSwitch env now altChain disconnected splitHeight
      else abandonSwitch env now refused disconnected splitHeight

/-- `handle_alternative_block`. -/
def handleAlternativeBlock (now : Nat) (b : Block) (onboard : TransactionsMap) :
    NodeProcedure AltVerdict :=
  handleAlternativeBlockWith env (switchToAlternativeBlockchain env now) now b onboard

/-! ## Adding a block to the node -/

def haveBlock (node : Node) (id : Hash) : Bool :=
  (node.db.blocksIndex.lookup id).isSome || (node.alternativeChains.lookup id).isSome ||
    id ∈ node.invalidBlocks

/-- `prevalidate_block`. -/
def prevalidateBlock (bl : Block) : Bool :=
  let height := getBlockHeight bl
  if bl.majorVersion = blockMajorVersionInitial && !env.isAfterHardfork1Zone height then true
  else if env.isAfterHardfork1Zone height && !env.isAfterHardfork3Zone height then
    bl.majorVersion ≤ hf1BlockMajorVersion
  else bl.majorVersion ≤ currentBlockMajorVersion && bl.minorVersion ≤ currentBlockMinorVersion

/-- A procedure inside a database transaction: a failure restores the database,
and nothing else. -/
def inDbTransaction {α : Type} (x : NodeProcedure α) : NodeProcedure α := fun node =>
  match x node with
  | (.error e, node') => (.error e, { node' with db := node.db })
  | result => result

/-- A block for the head of the main chain. -/
def addToMainChain (now : Nat) (bl : Block) (onboard : TransactionsMap) :
    NodeProcedure AltVerdict := do
  let verdict ← handleBlockToMainChain env now bl (env.crypto.getBlockHash bl) onboard
  if verdict = .addedToMainChain then pure .addedToMainChain else Procedure.fail .rejected

/-- `add_new_block`; the checks of the links after the transaction, which only
write to the log and to the result, are left out. -/
def addNewBlock (now : Nat) (bl : Block) (onboard : TransactionsMap) : NodeProcedure AltVerdict := do
  Procedure.check fun node => do
    require (!haveBlock node (env.crypto.getBlockHash bl))
    require (prevalidateBlock env bl)
  if bl.prevId ≠ (← Procedure.gets fun node => node.db.topBlockId env.crypto) then
    inDbTransaction (handleAlternativeBlock env now bl onboard)
  else inDbTransaction (addToMainChain env now bl onboard)

/-- `truncate_blockchain`; the loop of the source does not end when a block cannot be
removed. -/
def truncateBlockchain (env : Env) (toHeight : Nat) : NodeProcedure Unit := do
  let size ← Procedure.gets fun node => node.db.size
  let _ ← disconnectBlocks env false (size - toHeight) []
  Procedure.modify clearAltblocks

end Chinet
