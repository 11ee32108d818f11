import Chinet.Storage.Blocks

/-!
# Validation of the transactions of an alternative block

`validate_alt_block_txs` and what it calls.  An input of an alternative block
may refer to an output of the alternative chain, found through the global
indexes the alternative blocks carry, or to one of the main chain below the
split.

The iterators of `alt_chain_type` are read here as the entries they point to.
-/

namespace Chinet

variable (env : Env)

/-! ## Where transactions are looked up -/

/-- `get_transaction_from_pool_or_db`. -/
def getTransactionFromPoolOrDb (node : Node) (txId : Hash) (minAllowedBlockHeight : Nat) :
    Option Transaction :=
  match node.pool.lookup txId with
  | some details => some details.tx
  | none =>
      match node.db.transactions.lookup txId with
      | none => none
      | some entry =>
          if entry.keeperBlockHeight ≥ minAllowedBlockHeight then some entry.tx else none

/-- `alt_chain_tx_ids`: the transactions of the alternative chain with their
heights; the first insertion of an id stays. -/
def altChainTxIds (altChain : AltChain) (txId : Hash) : Option (Transaction × Nat) :=
  altChain.findSome? fun abei =>
    match abei.onboardTransactions.lookup txId with
    | some tx => some (tx, abei.height)
    | none =>
        if getTransactionHash env.crypto abei.bl.minerTx = txId then
          some (abei.bl.minerTx, abei.height)
        else none

/-! ## Global indexes of the alternative chain -/

/-- The increments of the main chain blocks from `height` up; throws where one
is missing. -/
def gindexIncrementsFrom (db : Db) (height : Nat) : Except Failure (List (FiniteStore UInt64 Nat)) :=
  ((List.range db.size).drop height).mapM fun h =>
    match db.perBlockGindexIncs.lookup (h % 2 ^ 32) with
    | none => .error .thrown
    | some increments => .ok increments

/-- `calculate_local_gindex_lookup_table_for_height`: for the amounts that
appear from `height` up, the number of their outputs below. -/
def calculateLocalGindexLookupTableForHeight (db : Db) (height : Nat) :
    Except Failure (UInt64 → Option Nat) := do
  requireThrow (FiniteStore.size db.perBlockGindexIncs = db.size)
  let increments ← gindexIncrementsFrom db height
  let total (amount : UInt64) : Option Nat :=
    if increments.any (amount ∈ ·) then
      some (increments.map fun incs => (incs.lookup amount).getD 0).sum
    else none
  requireThrow (increments.all fun incs =>
    incs.all fun amount _ => (total amount).getD 0 ≤ (db.outputs amount).length)
  return fun amount => (total amount).map fun n => (db.outputs amount).length - n

/-- `update_alt_out_indexes_for_tx_in_block` on one output. -/
def AltOutIndexes.addOutput (db : Db) (indexes : AltOutIndexes) (out : TxOut) : AltOutIndexes :=
  let push (key : OutputKeyOrHtlc) : AltOutIndexes :=
    { gindexLookupTable := Function.update indexes.gindexLookupTable out.amount
        (some ((indexes.gindexLookupTable out.amount).getD (db.outputs out.amount).length))
      outputsPubKeys := Function.update indexes.outputsPubKeys out.amount
        (indexes.outputsPubKeys out.amount ++ [key]) }
  match out.target with
  | .toKey target => push (.publicKey target.key)
  | .htlc target => push (.htlc target)
  | .multisig _ => indexes

/-- `update_alt_out_indexes_for_tx_in_block`. -/
def updateAltOutIndexesForTxInBlock (db : Db) (tx : Transaction) (indexes : AltOutIndexes) :
    AltOutIndexes :=
  tx.vout.foldl (AltOutIndexes.addOutput db) indexes

/-- The indexes a block on top of `altChain` starts from: those of the head,
moved on by the outputs of the head.  Every amount with keys is in the table of
its block, so the internal check of the source is left out. -/
def initialAltOutIndexes (db : Db) (altChain : AltChain) (splitHeight : Nat) :
    Except Failure AltOutIndexes :=
  match altChain.getLast? with
  | none => do
      let gindexLookupTable ← calculateLocalGindexLookupTableForHeight db splitHeight
      return { gindexLookupTable, outputsPubKeys := fun _ => [] }
  | some head =>
      .ok {
        gindexLookupTable := fun amount =>
          (head.gindexLookupTable amount).map (· + (head.outputsPubKeys amount).length)
        outputsPubKeys := fun _ => [] }

/-! ## Key inputs -/

def OutputKeyOrHtlc.toTarget : OutputKeyOrHtlc → TxoutTarget
  | publicKey key => .toKey { key, mixAttr := 0 }
  | htlc out => .htlc out

/-- The key an input signs for when it spends the output. -/
def keyOfTarget (topMinusSourceHeight : Nat) : TxoutTarget → Except Failure PublicKey
  | .toKey out => .ok out.key
  | .htlc out => .ok (if out.isExpired topMinusSourceHeight then out.pkeyRefund else out.pkeyRedeem)
  | .multisig _ => .error .rejected

/-- The checks on a source output at `heightOfSourceBlock`, of either chain. -/
def keyOfSource (target : TxoutTarget) (input : Txin) (heightOfCurrentAltBlock : Nat)
    (heightOfSourceBlock : Nat) : Except Failure PublicKey := do
  require (heightOfCurrentAltBlock > heightOfSourceBlock)
  require (isOutputAllowedForInput target input (heightOfCurrentAltBlock - heightOfSourceBlock))
  keyOfTarget (heightOfCurrentAltBlock - heightOfSourceBlock) target

/-- The block of the alternative chain, given from its head down, that holds
the output with a global index, and the place of the output there. -/
def findGindexInAltChain (amount : UInt64) (offsetGindex : Nat) :
    List AltBlockExtendedInfo → Option (AltBlockExtendedInfo × Nat)
  | [] => none
  | abei :: rest =>
      match abei.gindexLookupTable amount with
      | none => none
      | some start =>
          if offsetGindex ≥ start then some (abei, offsetGindex - start)
          else findGindexInAltChain amount offsetGindex rest

/-- What is fixed while the inputs of an alternative block are checked. -/
structure AltInputContext where
  altChain : AltChain
  splitHeight : Nat
  /-- Of the alternative chain and of the block itself. -/
  altChainBlockIds : List Hash

/-- `height_of_current_alt_block`; one too high for the first block of an
alternative chain. -/
def AltInputContext.heightOfCurrentAltBlock (ctx : AltInputContext) : Nat :=
  match ctx.altChain.getLast? with
  | none => ctx.splitHeight + 1
  | some head => head.height + 1

section

variable (node : Node) (ctx : AltInputContext)

/-- A source output of the main chain, and `max_related_block_height`. -/
def keyOfMainChainOutput (input : Txin) (ringSize maxRelatedBlockHeight : Nat) (txId : Hash)
    (outN : Nat) : Except Failure (PublicKey × Nat) :=
  match node.db.transactions.lookup txId with
  | none => .error .rejected
  | some entry =>
      match entry.tx.vout[outN]? with
      | none => .error .rejected
      | some out => do
          let key ← keyOfSource out.target input ctx.heightOfCurrentAltBlock entry.keeperBlockHeight
          require (match out.target with
            | .toKey target => isMixattrApplicableForFakeOutsCounter target.mixAttr (ringSize - 1)
            | _ => true)
          require (entry.keeperBlockHeight < ctx.splitHeight)
          return (key, max maxRelatedBlockHeight entry.keeperBlockHeight)

/-- One turn of the loop of `validate_alt_block_input` over the references. -/
def keyOfReference (input : Txin) (amount : UInt64) (ringSize maxRelatedBlockHeight : Nat) :
    TxoutRef → Except Failure (PublicKey × Nat)
  | .globalIndex index =>
      let amountTouchedAltchain :=
        (ctx.altChain.getLast?.bind (·.gindexLookupTable amount)).isSome
      let inAltChain :=
        if amountTouchedAltchain then
          findGindexInAltChain amount index.toNat ctx.altChain.reverse
        else none
      match inAltChain with
      | some (abei, localOffset) =>
          match (abei.outputsPubKeys amount)[localOffset]? with
          | none => .error .rejected
          | some out => do
              let key ← keyOfSource out.toTarget input ctx.heightOfCurrentAltBlock abei.height
              return (key, maxRelatedBlockHeight)
      | none =>
          match (node.db.outputs amount)[index.toNat]? with
          | none => .error .rejected
          | some entry =>
              keyOfMainChainOutput node ctx input ringSize maxRelatedBlockHeight entry.txId
                entry.outNo
  | .refById txId n =>
      match altChainTxIds env ctx.altChain txId with
      | some (tx, heightOfSourceBlock) =>
          match tx.vout[n]? with
          | none => .error .rejected
          | some out => do
              let key ← keyOfSource out.target input ctx.heightOfCurrentAltBlock heightOfSourceBlock
              return (key, maxRelatedBlockHeight)
      | none => keyOfMainChainOutput node ctx input ringSize maxRelatedBlockHeight txId n

def keysOfReferences (input : Txin) (amount : UInt64) (ringSize : Nat) :
    Nat → List TxoutRef → Except Failure (List PublicKey × Nat)
  | maxRelatedBlockHeight, [] => .ok ([], maxRelatedBlockHeight)
  | maxRelatedBlockHeight, ref :: rest => do
      let (key, maxRelated) ←
        keyOfReference env node ctx input amount ringSize maxRelatedBlockHeight ref
      let (keys, maxRelated) ← keysOfReferences input amount ringSize maxRelated rest
      return (key :: keys, maxRelated)

/-- The key image is spent neither below the split, nor in the block so far,
nor in the alternative chain. -/
def keyImageIsFree (collectedKeyimages : List KeyImage) (kImage : KeyImage) : Bool :=
  (match node.db.spentKeys.lookup kImage with
    | none => true
    | some height => height ≥ ctx.splitHeight) &&
  kImage ∉ collectedKeyimages &&
  ((node.altblocksKeyimages.lookup kImage).getD []).all (· ∉ ctx.altChainBlockIds)

/-- `validate_alt_block_input`; returns the collected key images and
`max_related_block_height`. -/
def validateAltBlockInput (tx : Transaction) (txHash : Hash) (inIndex : Nat) (input : Txin)
    (sig : List Signature) (collectedKeyimages : List KeyImage) :
    Except Failure (List KeyImage × Nat) :=
  match input.toKeyPart? with
  | none => .error .thrown
  | some part => do
      require (keyImageIsFree node ctx collectedKeyimages part.kImage)
      let absKeyOffsets ← relativeOutputOffsetsToAbsolute part.keyOffsets
      require (absKeyOffsets != [])
      let (pubKeys, maxRelatedBlockHeight) ←
        keysOfReferences env node ctx input part.amount absKeyOffsets.length 0 absKeyOffsets
      checkInputSignature env node.isInCheckpointZone tx inIndex part.kImage part.etcDetails txHash
        sig pubKeys
      return (collectedKeyimages ++ [part.kImage], maxRelatedBlockHeight)

/-! ## Multisig inputs -/

/-- `tx_altchain_checker`: whether a transaction of the alternative chain has
the output, after making sure it does not spend it. -/
def txAltchainChecker (now : Nat) (tx : Transaction) (txHash : Hash) (inIndex : Nat)
    (input : TxinMultisig) (altTx : Transaction) : Except Failure Bool := do
  require (input.multisigOutId ∉ altTx.multisigIds)
  let isSource (n : Nat) : Bool :=
    (match (altTx.vout[n]?).map TxOut.target with
      | some (.multisig _) => true
      | _ => false) &&
    getMultisigOutId env.crypto altTx.toTransactionPrefix n == input.multisigOutId
  match (List.range altTx.vout.length).find? isSource with
  | none => return false
  | some outN => do
      checkMsInput env node.db node.isInCheckpointZone now tx inIndex input txHash altTx outN
      return true

/-- The checker on the transactions of a block in turn, until the output is found. -/
def checkAltTransactions (now : Nat) (tx : Transaction) (txHash : Hash) (inIndex : Nat)
    (input : TxinMultisig) : List Hash → Except Failure Bool
  | [] => .ok false
  | txId :: rest =>
      match getTransactionFromPoolOrDb node txId ctx.splitHeight with
      | none => .error .rejected
      | some altTx => do
          if ← txAltchainChecker env node now tx txHash inIndex input altTx then return true
          else checkAltTransactions now tx txHash inIndex input rest

/-- The walk of `validate_alt_block_ms_input` from the head down. -/
def scanAltChainForMsOut (now : Nat) (tx : Transaction) (txHash : Hash) (inIndex : Nat)
    (input : TxinMultisig) : List AltBlockExtendedInfo → Check
  | [] => .error .rejected
  | abei :: rest => do
      if ← txAltchainChecker env node now tx txHash inIndex input abei.bl.minerTx then return ()
      if ← checkAltTransactions env node ctx now tx txHash inIndex input abei.bl.txHashes then
        return ()
      scanAltChainForMsOut now tx txHash inIndex input rest

/-- `validate_alt_block_ms_input`. -/
def validateAltBlockMsInput (now : Nat) (tx : Transaction) (txHash : Hash) (inIndex : Nat)
    (input : TxinMultisig) : Check :=
  match node.db.multisigOuts.lookup input.multisigOutId with
  | none => scanAltChainForMsOut env node ctx now tx txHash inIndex input ctx.altChain.reverse
  | some ms => do
      require (ms.spentHeight = 0 || ms.spentHeight ≥ ctx.splitHeight)
      match node.db.transactions.lookup ms.txId with
      | none => .error .rejected
      | some source =>
          if source.keeperBlockHeight < ctx.splitHeight then
            checkMsInput env node.db node.isInCheckpointZone now tx inIndex input txHash source.tx
              ms.outNo
          else scanAltChainForMsOut env node ctx now tx txHash inIndex input ctx.altChain.reverse

/-! ## The transactions of a block -/

/-- The inputs of a transaction of the block, from number `n` on. -/
def validateAltBlockInputs (now : Nat) (tx : Transaction) (txId : Hash) :
    Nat → List Txin → List KeyImage → Except Failure (List KeyImage)
  | _, [], collectedKeyimages => .ok collectedKeyimages
  | _, .gen _ :: _, _ => .error .rejected
  | n, .multisig input :: rest, collectedKeyimages => do
      validateAltBlockMsInput env node ctx now tx txId n input
      validateAltBlockInputs now tx txId (n + 1) rest collectedKeyimages
  | n, input :: rest, collectedKeyimages => do
      let (collectedKeyimages, _) ←
        validateAltBlockInput env node ctx tx txId n input (tx.signatures.getD n [])
          collectedKeyimages
      validateAltBlockInputs now tx txId (n + 1) rest collectedKeyimages

/-- The transactions after the coinbase. -/
def validateAltBlockTransactions (now height : Nat) (onboardTransactions : TransactionsMap) :
    List Hash → List KeyImage → AltOutIndexes → Except Failure (List KeyImage × AltOutIndexes)
  | [], collectedKeyimages, indexes => .ok (collectedKeyimages, indexes)
  | txId :: rest, collectedKeyimages, indexes =>
      match (onboardTransactions.lookup txId).or
          (getTransactionFromPoolOrDb node txId ctx.splitHeight) with
      | none => .error .rejected
      | some tx => do
          require (tx.signatures.length = tx.vin.length)
          let collectedKeyimages ←
            validateAltBlockInputs env node ctx now tx txId 0 tx.vin collectedKeyimages
          require (validateTxForHardforkSpecificTerms env tx height)
          validateAltBlockTransactions now height onboardTransactions rest collectedKeyimages
            (updateAltOutIndexesForTxInBlock node.db tx indexes)

/-- The staked input of a PoS block and its age; returns its key image. -/
def validateAltCoinstake (b : Block) (id : Hash) (height : Nat) : Except Failure (List KeyImage) :=
  if isPosBlock b then
    match b.minerTx.signatures, b.minerTx.vin with
    | [sig], [_, input] => do
        let (collectedKeyimages, maxRelatedBlockHeight) ←
          validateAltBlockInput env node ctx b.minerTx id 1 input sig []
        require (coinstakeAge height maxRelatedBlockHeight ≥ env.config.minCoinstakeAge)
        return collectedKeyimages
    | _, _ => .error .rejected
  else .ok []

/-- `validate_alt_block_txs`; returns the key images of the block and its output
indexes. -/
def validateAltBlockTxs (now : Nat) (b : Block) (id : Hash) (height : Nat)
    (onboardTransactions : TransactionsMap) : Except Failure (List KeyImage × AltOutIndexes) := do
  let indexes ← initialAltOutIndexes node.db ctx.altChain ctx.splitHeight
  let collectedKeyimages ← validateAltCoinstake env node ctx b id height
  require (validateTxForHardforkSpecificTerms env b.minerTx height)
  validateAltBlockTransactions env node ctx now height onboardTransactions b.txHashes
    collectedKeyimages (updateAltOutIndexesForTxInBlock node.db b.minerTx indexes)

end

end Chinet
