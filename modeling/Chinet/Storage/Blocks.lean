import Chinet.Fork.Headers
import Chinet.Storage.Transactions

/-!
# Blocks of the main chain

`handle_block_to_main_chain` and `pop_block_from_blockchain`.

A block is refused by `rejected` (`m_verification_failed`), with the unwinding
the source writes by hand at each exit (`onReject`); an exception leaves
the state as it was reached, and `add_new_block` aborts the transaction.
-/

namespace Chinet

variable (env : Env)

/-! ## The coinbase -/

/-- `height + CURRENCY_MINED_MONEY_UNLOCK_WINDOW` against the unlock times; exact
before the first hard fork. -/
def checkMinerUnlockTime (b : Block) (height : Nat) : Check := do
  let (maxUnlockTime, minUnlockTime) ← getTxMaxMinUnlockTime b.minerTx.toTransactionPrefix
  if env.isAfterHardfork1Zone height then
    require (minUnlockTime ≥ height + currencyMinedMoneyUnlockWindow)
  else
    require (maxUnlockTime = minUnlockTime &&
      minUnlockTime = height + currencyMinedMoneyUnlockWindow)

def prevalidateMinerTransaction (b : Block) (height : Nat) (pos : Bool) : Check := do
  require (match b.minerTx.vin with
    | [.gen h] => !pos && h = height
    | [.gen h, .toKey _] => pos && h = height
    | _ => false)
  checkMinerUnlockTime env b height
  require (checkOutsOverflow b.minerTx.toTransactionPrefix)
  require (b.minerTx.attachment = [])

def validatePosCoinbaseOutsUnlockTime (minerTx : Transaction)
    (stakedAmount : UInt64) (sourceMaxUnlockTime : Nat) (blockHeight : Nat) : Bool :=
  let majorUnlock := majorUnlockTime minerTx.toTransactionPrefix
  if majorUnlock ≠ 0 then sourceMaxUnlockTime ≤ majorUnlock
  else
    let unlockTimes := unlockTimeArray minerTx.toTransactionPrefix
    let lockedOuts := (unlockTimes.zip minerTx.vout).filter (sourceMaxUnlockTime ≤ ·.1)
    env.isAfterHardfork1Zone blockHeight && unlockTimes.length = minerTx.vout.length &&
      unlockTimes.all shouldUnlockValueBeTreatedAsBlockHeight &&
      (lockedOuts.map (·.2.amount)).sum ≥ stakedAmount

/-- `block_height - max_related_block_height - 1` in 64 bits. -/
def coinstakeAge (blockHeight maxRelatedBlockHeight : Nat) : Nat :=
  (blockHeight + 2 ^ 64 - maxRelatedBlockHeight - 1) % 2 ^ 64

/-- The part of `validate_pos_block` that only the main chain goes through, and
the coinstake age. -/
def validatePosBlockInputs (db : Db) (inCheckpointZone : Bool) (now : Nat) (b : Block) (id : Hash)
    (coinstakeIn : TxinToKey) : Check := do
  let scan ← checkTxInputToKey env db inCheckpointZone now b.minerTx 1 coinstakeIn id
    (b.minerTx.signatures.getD 0 []) 0
  if env.isAfterHardfork1Zone (getBlockHeight b) then
    require (scan.maxRelatedBlockHeight ≤ getLastXBlockHeight db.headers false)
    require (validatePosCoinbaseOutsUnlockTime env b.minerTx coinstakeIn.amount
      scan.sourceMaxUnlockTimeForPosCoinbase (getBlockHeight b))
  else
    require (isTxSpendtimeUnlocked scan.sourceMaxUnlockTimeForPosCoinbase db.size now)
  require (coinstakeAge db.size scan.maxRelatedBlockHeight ≥ env.config.minCoinstakeAge)

/-- The staked input of a PoS coinbase. -/
def coinstakeInput? (minerTx : Transaction) : Option TxinToKey :=
  match minerTx.vin with
  | [_, .toKey input] => some input
  | _ => none

/-- `validate_pos_block` for the main chain; returns `proof_hash`. -/
def validatePosBlock (db : Db) (inCheckpointZone : Bool) (now : Nat) (b : Block) (id : Hash)
    (basicDiff : WideDifficulty) : Except Failure Hash := do
  validatePosBlockHeader b
  match coinstakeInput? b.minerTx with
  | none => .error .rejected
  | some coinstakeIn => do
      require (!haveTxKeyimgAsSpent db coinstakeIn.kImage)
      let proofHash ← validatePosBlockKernel env db.headers [] 0 b basicDiff
      validatePosBlockInputs env db inCheckpointZone now b id coinstakeIn
      return proofHash

/-- The steps of `validate_pos_block`. -/
theorem validatePosBlock_eq_ok_iff {env : Env} {db : Db} {inCheckpointZone : Bool} {now : Nat}
    {b : Block} {id : Hash} {basicDiff : WideDifficulty} {proofHash : Hash} :
    validatePosBlock env db inCheckpointZone now b id basicDiff = .ok proofHash ↔
      ∃ coinstakeIn, validatePosBlockHeader b = .ok () ∧
        coinstakeInput? b.minerTx = some coinstakeIn ∧
        haveTxKeyimgAsSpent db coinstakeIn.kImage = false ∧
        validatePosBlockKernel env db.headers [] 0 b basicDiff = .ok proofHash ∧
        validatePosBlockInputs env db inCheckpointZone now b id coinstakeIn = .ok () := by
  rw [validatePosBlock, bind_eq_ok]
  cases coinstakeInput? b.minerTx with
  | none => simp
  | some coinstakeIn =>
      dsimp only
      constructor
      · rintro ⟨_, hheader, h⟩
        rw [require_bind_eq_ok, bind_eq_ok] at h
        obtain ⟨hfresh, _, hkernel, h⟩ := h
        rw [bind_eq_ok] at h
        obtain ⟨_, hinputs, hreturn⟩ := h
        cases hreturn
        exact ⟨coinstakeIn, hheader, rfl, by simpa using hfresh, hkernel, hinputs⟩
      · rintro ⟨coinstakeIn', hheader, hstake, hfresh, hkernel, hinputs⟩
        cases hstake
        refine ⟨(), hheader, ?_⟩
        rw [require_bind_eq_ok, bind_eq_ok]
        refine ⟨by simpa using hfresh, proofHash, hkernel, ?_⟩
        rw [bind_eq_ok]
        exact ⟨(), hinputs, rfl⟩

/-- The parts of `validate_pos_block`, for the input that it stakes. -/
theorem validatePosBlock_isOk_iff_parts {env : Env} {db : Db} {inCheckpointZone : Bool} {now : Nat}
    {b : Block} {id : Hash} {basicDiff : WideDifficulty} {coinstakeIn : TxinToKey}
    (hstake : coinstakeInput? b.minerTx = some coinstakeIn) :
    (∃ proofHash, validatePosBlock env db inCheckpointZone now b id basicDiff = .ok proofHash) ↔
      validatePosBlockHeader b = .ok () ∧
        (∃ proofHash, validatePosBlockKernel env db.headers [] 0 b basicDiff = .ok proofHash) ∧
        haveTxKeyimgAsSpent db coinstakeIn.kImage = false ∧
        validatePosBlockInputs env db inCheckpointZone now b id coinstakeIn = .ok () := by
  simp only [validatePosBlock_eq_ok_iff, hstake, Option.some.injEq]
  constructor
  · rintro ⟨proofHash, _, hheader, rfl, hfresh, hkernel, hinputs⟩
    exact ⟨hheader, ⟨proofHash, hkernel⟩, hfresh, hinputs⟩
  · rintro ⟨hheader, ⟨proofHash, hkernel⟩, hfresh, hinputs⟩
    exact ⟨proofHash, coinstakeIn, hheader, rfl, hfresh, hkernel, hinputs⟩

theorem validatePosBlockInputs_eq_ok_iff_scan {env : Env} {db : Db} {inCheckpointZone : Bool}
    {now : Nat} {b : Block} {id : Hash} {coinstakeIn : TxinToKey} :
    validatePosBlockInputs env db inCheckpointZone now b id coinstakeIn = .ok () ↔ ∃ scan,
      checkTxInputToKey env db inCheckpointZone now b.minerTx 1 coinstakeIn id
        (b.minerTx.signatures.getD 0 []) 0 = .ok scan ∧
      (if env.isAfterHardfork1Zone (getBlockHeight b) then
        scan.maxRelatedBlockHeight ≤ getLastXBlockHeight db.headers false ∧
          validatePosCoinbaseOutsUnlockTime env b.minerTx coinstakeIn.amount
            scan.sourceMaxUnlockTimeForPosCoinbase (getBlockHeight b) = true
      else isTxSpendtimeUnlocked scan.sourceMaxUnlockTimeForPosCoinbase db.size now = true) ∧
      env.config.minCoinstakeAge ≤ coinstakeAge db.size scan.maxRelatedBlockHeight := by
  rw [validatePosBlockInputs, bind_eq_ok]
  refine exists_congr fun scan => and_congr_right fun _ => ?_
  cases env.isAfterHardfork1Zone (getBlockHeight b) with
  | true =>
      rw [if_pos rfl, if_pos rfl, require_bind_eq_ok, require_bind_eq_ok, require_eq_ok,
        decide_eq_true_eq, decide_eq_true_eq, and_assoc]
  | false =>
      rw [if_neg Bool.false_ne_true, if_neg Bool.false_ne_true, require_bind_eq_ok, require_eq_ok,
        decide_eq_true_eq]

/-- The proof of a block for the main chain; returns the stake hash, null for a
PoW block. -/
def checkProof (db : Db) (inCheckpointZone : Bool) (now : Nat) (b : Block) (id : Hash)
    (currentDiffic : WideDifficulty) : Except Failure Hash :=
  if isPosBlock b then validatePosBlock env db inCheckpointZone now b id currentDiffic
  else do
    require (checkHash (env.crypto.getBlockLonghash b) currentDiffic)
    return nullHash

def getLastNBlocksSizes (db : Db) (count : Nat) : List Nat :=
  (db.blocks.drop (db.size - count)).map BlockExtendedInfo.blockCumulativeSize

/-- `validate_miner_transaction`; returns `base_reward`.  The sum of the reward,
the stake and the fees is a `uint64_t`. -/
def validateMinerTransaction (db : Db) (b : Block) (cumulativeBlockSize : Nat) (fee : UInt64) :
    Except Failure UInt64 :=
  let moneyInUse := getOutsMoneyAmount b.minerTx.toTransactionPrefix
  let posIncome :=
    if isPosBlock b then ((coinstakeInput? b.minerTx).map TxinToKey.amount).getD 0 else 0
  let blocksSizeMedian := median (getLastNBlocksSizes db currencyRewardBlocksWindow)
  match getBlockReward blocksSizeMedian cumulativeBlockSize (getBlockHeight b) with
  | none => .error .rejected
  | some baseReward => do
      require (baseReward + posIncome + fee = moneyInUse)
      return baseReward

/-! ## The transactions of a block -/

/-- The running totals of `handle_block_to_main_chain`. -/
structure BlockTotals where
  feeSummary : UInt64
  burnedCoins : UInt64
  cumulativeBlockSize : Nat
  blockFees : List UInt64
  gindices : FiniteStore UInt64 Nat

/-- The totals after the coinbase; a coinbase within the reserved size is free. -/
def coinbaseTotals (bl : Block) : BlockTotals where
  feeSummary := 0
  burnedCoins := 0
  cumulativeBlockSize :=
    let size := env.crypto.getObjectBlobsize bl.minerTx
    if size > currencyCoinbaseBlobReservedSize then size else 0
  blockFees := []
  gindices := appendPerBlockIncrementsForTx bl.minerTx ∅

def BlockTotals.add (totals : BlockTotals) (tx : Transaction) (blobSize : Nat) (fee : UInt64) :
    BlockTotals where
  feeSummary := totals.feeSummary + fee
  burnedCoins := totals.burnedCoins + getBurnedAmount tx.toTransactionPrefix
  cumulativeBlockSize := totals.cumulativeBlockSize + blobSize
  blockFees := if fee = 0 then totals.blockFees else totals.blockFees ++ [fee]
  gindices := appendPerBlockIncrementsForTx tx totals.gindices

/-- `get_tx_from_cache`. -/
def getTxFromCache (txId : Hash) (txCache : TransactionsMap) : Option (Transaction × Nat × UInt64) :=
  (txCache.lookup txId).map fun tx =>
    (tx, env.crypto.getObjectBlobsize tx, getTxFee tx.toTransactionPrefix)

/-- Inside the checkpoint zone signatures and attachments are dropped. -/
def pruneForCheckpointZone (inCheckpointZone : Bool) (tx : Transaction) : Transaction :=
  if inCheckpointZone then { tx with signatures := [], attachment := [] } else tx

/-- A transaction taken from the pool goes back when the block is refused for it. -/
def returnToPool (takenFromPool : Bool) (tx : Transaction) : NodeProcedure Unit :=
  if takenFromPool then do
    let _ ← succeeds (poolAddTx env tx)
    pure ()
  else pure ()

/-- `check_tx_inputs`; a block with wrong inputs is remembered as invalid. -/
def checkBlockTransactionInputs (now : Nat) (id txId : Hash) (takenFromPool : Bool)
    (tx : Transaction) : NodeProcedure Unit :=
  onReject
    (Procedure.check fun node => do
      let _ ← checkTxInputs env node.db node.isInCheckpointZone now tx txId
      return ())
    do
      returnToPool env takenFromPool tx
      Procedure.modify fun node => { node with invalidBlocks := insert id node.invalidBlocks }

/-- One turn of the transaction loop of `handle_block_to_main_chain`. -/
def addBlockTransaction (now : Nat) (id : Hash) (onboardTransactions : TransactionsMap)
    (totals : BlockTotals) (txId : Hash) : NodeProcedure BlockTotals := do
  let fromPool ← poolTakeTx txId
  match (fromPool.map fun td => (td.tx, td.blobSize, td.fee)) <|>
      getTxFromCache env txId onboardTransactions with
  | none => Procedure.fail .rejected
  | some (tx, blobSize, fee) => do
      Procedure.check fun _ => require (validateTxSemantic env.crypto tx.toTransactionPrefix blobSize)
      let tx := pruneForCheckpointZone (← Procedure.gets Node.isInCheckpointZone) tx
      checkBlockTransactionInputs env now id txId fromPool.isSome tx
      let blHeight ← Procedure.gets fun node => node.db.size
      onReject (addTransactionFromBlock env tx txId blHeight)
        (returnToPool env fromPool.isSome tx)
      pure (totals.add tx blobSize fee)

/-- The transaction loop; when a transaction is refused, those processed before
it are purged. -/
def addBlockTransactions (now : Nat) (bl : Block) (id : Hash)
    (onboardTransactions : TransactionsMap) :
    Nat → BlockTotals → List Hash → NodeProcedure BlockTotals
  | _, totals, [] => pure totals
  | txProcessedCount, totals, txId :: rest => do
      let totals ← onReject (addBlockTransaction env now id onboardTransactions totals txId)
        (purgeBlockDataFromBlockchain env bl txProcessedCount)
      addBlockTransactions now bl id onboardTransactions (txProcessedCount + 1) totals rest

/-! ## Adding a block -/

/-- `get_next_diff_conditional`, which stores the result in the cache. -/
def nextDiffConditional (pos : Bool) : NodeProcedure WideDifficulty := fun node =>
  let dif := getNextDiffConditional env node.db.headers pos
  (.ok dif,
    if node.db.blocks = [] then node
    else if pos then { node with cachedNextPosDifficulty := dif }
    else { node with cachedNextPowDifficulty := dif })

/-- The checkpoint zone flag of the next block and its checkpoint. -/
def enterCheckpointZone (id : Hash) : NodeProcedure Unit := do
  Procedure.modify fun node => { node with
    isInCheckpointZone := env.checkpoints.isInCheckpointZone node.db.size }
  Procedure.check fun node =>
    require (!node.isInCheckpointZone || env.checkpoints.checkBlock node.db.size id)

/-- The checks of `handle_block_to_main_chain` up to the coinbase; returns the
difficulty and the stake hash. -/
def checkBlockHeader (now : Nat) (bl : Block) (id : Hash) :
    NodeProcedure (WideDifficulty × Hash) := do
  Procedure.check fun node => require (checkBlockTimestampMain node.db.headers now bl)
  enterCheckpointZone env id
  let pos := isPosBlock bl
  Procedure.check fun node => require (!(pos && node.db.size < env.config.posMinimumHeigh))
  let currentDiffic ← nextDiffConditional env pos
  Procedure.check fun _ => require (currentDiffic != 0)
  let stakeHash ← Procedure.check fun node =>
    checkProof env node.db node.isInCheckpointZone now bl id currentDiffic
  Procedure.check fun node => prevalidateMinerTransaction env bl node.db.size pos
  pure (currentDiffic, stakeHash)

def medianOfFees (fees : List UInt64) : UInt64 :=
  UInt64.ofNat (median (fees.map UInt64.toNat))

/-- `effective_tx_fee_median` of the block at `height`. -/
def effectiveTxFeeMedian (height : Nat) : NodeProcedure UInt64 :=
  if height % aliasMedianRecalcInterwal ≠ 0 then getTxFeeMedian
  else Procedure.gets fun node =>
    if height = 0 then 0
    else
      medianOfFees
        ((((node.db.blocks.take height).drop (max 1 (height - aliasCoastPeriod))).map
          BlockExtendedInfo.thisBlockTxFeeMedian).filter (· ≠ 0))

/-- `already_generated_coins` of the last block. -/
def Db.alreadyGeneratedCoins (db : Db) : BitVec 128 :=
  (db.blocks.getLast?.map BlockExtendedInfo.alreadyGeneratedCoins).getD 0

/-- The header rule on a long sequence of PoS blocks. -/
def sequenceFactorAllowed (blocks : List BlockHeaderInfo) (bl : Block) : Bool :=
  !(blocks.length > blockchainHeightForPosStrictSequenceLimitation && isPosBlock bl &&
    getCurrentSequenceFactor blocks (isPosBlock bl) > blockPosStrictSequenceLimit)

/-- The checks after the transactions of the block and its
`block_extended_info`. -/
def makeBlockExtendedInfo (bl : Block) (id : Hash) (totals : BlockTotals)
    (currentDiffic : WideDifficulty) (stakeHash : Hash) (aliasesCountBeforBlock : Nat) :
    NodeProcedure BlockExtendedInfo := do
  Procedure.check fun node =>
    require (FiniteStore.size node.db.aliases - aliasesCountBeforBlock ≤ maxAliasPerBlock)
  let baseReward ← Procedure.check fun node =>
    validateMinerTransaction node.db bl totals.cumulativeBlockSize totals.feeSummary
  Procedure.check fun node => do
    require (sequenceFactorAllowed node.db.headers bl)
    require (node.db.alreadyGeneratedCoins.toNat ≥ totals.burnedCoins.toNat)
    require (node.db.blocksIndex.lookup id).isNone
  let height ← Procedure.gets fun node => node.db.size
  let effectiveMedian ← effectiveTxFeeMedian height
  Procedure.gets fun node =>
    { mainHeaderInfo env node.db.headers bl currentDiffic stakeHash with
      blockCumulativeSize := totals.cumulativeBlockSize
      alreadyGeneratedCoins :=
        node.db.alreadyGeneratedCoins - BitVec.ofNat 128 totals.burnedCoins.toNat +
          BitVec.ofNat 128 baseReward.toNat
      thisBlockTxFeeMedian :=
        if totals.blockFees = [] then 0 else medianOfFees totals.blockFees
      effectiveTxFeeMedian := effectiveMedian }

/-- The block is pushed: index, per-block increments and the chain. -/
def pushBlock (id : Hash) (bei : BlockExtendedInfo) (gindices : FiniteStore UInt64 Nat) (db : Db) :
    Db :=
  { db with
    blocksIndex := db.blocksIndex.insert id bei.height
    perBlockGindexIncs := db.perBlockGindexIncs.insert (bei.height % 2 ^ 32) gindices
    blocks := db.blocks ++ [bei] }

/-- `handle_block_to_main_chain` on a block that refers to the top of the chain. -/
def addBlockToMainChain (now : Nat) (bl : Block) (id : Hash)
    (onboardTransactions : TransactionsMap) : NodeProcedure Unit := do
  let (currentDiffic, stakeHash) ← checkBlockHeader env now bl id
  let aliasesCountBeforBlock ← Procedure.gets fun node => FiniteStore.size node.db.aliases
  let blHeight ← Procedure.gets fun node => node.db.size
  addTransactionFromBlock env bl.minerTx (getTransactionHash env.crypto bl.minerTx) blHeight
  let totals ← addBlockTransactions env now bl id onboardTransactions 0 (coinbaseTotals env bl)
    bl.txHashes
  let bei ← onReject
    (makeBlockExtendedInfo env bl id totals currentDiffic stakeHash aliasesCountBeforBlock)
    (purgeBlockDataFromBlockchain env bl bl.txHashes.length)
  Procedure.modify fun node => { node with db := pushBlock id bei totals.gindices node.db }

inductive BlockVerdict
  | addedToMainChain
  | wrongPrevId
  | verificationFailed
deriving DecidableEq

/-- `handle_block_to_main_chain`. -/
def handleBlockToMainChain (now : Nat) (bl : Block) (id : Hash)
    (onboardTransactions : TransactionsMap) : NodeProcedure BlockVerdict := do
  if bl.prevId ≠ (← Procedure.gets fun node => node.db.topBlockId env.crypto) then pure .wrongPrevId
  else if (← succeeds (addBlockToMainChain env now bl id onboardTransactions)) then
    pure .addedToMainChain
  else pure .verificationFailed

/-! ## Removing a block -/

/-- `pop_block_from_blockchain`; returns the transactions of the block. -/
def popBlockFromBlockchain : NodeProcedure TransactionsMap := do
  Procedure.check fun node => require (node.db.size > 1)
  match (← Procedure.gets fun node => node.db.blocks.getLast?) with
  | none => Procedure.fail .rejected
  | some bei => do
      let onboardTransactions ←
        purgeBlockDataFromBlockchain env bei.bl bei.bl.txHashes.length
      Procedure.modify fun node => { node with
        db := { node.db with
          perBlockGindexIncs := node.db.perBlockGindexIncs.erase (bei.height % 2 ^ 32)
          blocksIndex := node.db.blocksIndex.erase (env.crypto.getBlockHash bei.bl)
          blocks := node.db.blocks.dropLast } }
      pure onboardTransactions

end Chinet
