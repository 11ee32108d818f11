import Chinet.Alternative.Containers
import Chinet.Lib.ReverseIndex

/-!
# The transaction pool

`tx_memory_pool` with its indexes: the key images of the transactions of the pool
and the alias names and addresses they register.  The storage (`Node.pool`) sees
only the transactions; here is what the pool keeps besides them.

The pool asks the blockchain, which changes between its calls: every operation takes
the node as it is at that time.
-/

namespace Chinet

variable (env : Env)

/-! ## Data -/

/-- `tx_details` with the result of the last check. -/
structure PoolTxDetails extends TxDetails where
  maxUsedBlockId : Hash
  maxUsedBlockHeight : Nat
  lastFailedHeight : Nat
  lastFailedId : Hash
  receiveTime : Nat
deriving DecidableEq

/-- `m_taken_txs` has the ids taken since the last database transaction. -/
structure TxMemoryPool where
  transactions : FiniteStore Hash PoolTxDetails
  blackTxList : Finset Hash
  aliasNames : Finset ByteString
  aliasAddresses : Finset AccountPublicAddress
  keyImages : FiniteStore KeyImage (Finset Hash)
  takenTxs : Finset Hash

def TxMemoryPool.empty : TxMemoryPool where
  transactions := ∅
  blackTxList := ∅
  aliasNames := ∅
  aliasAddresses := ∅
  keyImages := ∅
  takenTxs := ∅

abbrev PoolProcedure (α : Type) := Procedure Failure TxMemoryPool α

def currencyMempoolTxLivetime : Nat := 345600

def conflictKeyImageSpentDepthToRemoveTxFromPool : Nat := 50

/-! ## The indexes -/

/-- The key image of a `txin_to_key`, the only kind of input that the pool looks at. -/
def Txin.toKeyImage? : Txin → Option KeyImage
  | .toKey input => some input.kImage
  | _ => none

def toKeyImages (tx : TransactionPrefix) : List KeyImage :=
  tx.vin.filterMap Txin.toKeyImage?

/-- The alias entry that `parse_and_validate_tx_extra` finds, if its name is not
empty. -/
def registeredAlias? (tx : TransactionPrefix) : Option ExtraAliasEntry :=
  (parseAndValidateTxExtra tx).bind TxExtraInfo.mAlias

def TxMemoryPool.insertKeyImages (txId : Hash) (tx : TransactionPrefix) (pool : TxMemoryPool) :
    TxMemoryPool :=
  { pool with keyImages := ReverseIndex.addAll txId (toKeyImages tx) pool.keyImages }

def TxMemoryPool.removeKeyImages (txId : Hash) (tx : TransactionPrefix) (pool : TxMemoryPool) :
    TxMemoryPool :=
  { pool with keyImages := ReverseIndex.removeAll txId (toKeyImages tx) pool.keyImages }

def TxMemoryPool.insertAliasInfo (tx : TransactionPrefix) (pool : TxMemoryPool) : TxMemoryPool :=
  match registeredAlias? tx with
  | none => pool
  | some entry => { pool with
      aliasNames := insert entry.mAlias pool.aliasNames
      aliasAddresses := insert entry.mAddress pool.aliasAddresses }

def TxMemoryPool.removeAliasInfo (tx : TransactionPrefix) (pool : TxMemoryPool) : TxMemoryPool :=
  match registeredAlias? tx with
  | none => pool
  | some entry => { pool with
      aliasNames := pool.aliasNames.erase entry.mAlias
      aliasAddresses := pool.aliasAddresses.erase entry.mAddress }

def TxMemoryPool.onTxAdd (txId : Hash) (tx : TransactionPrefix) (pool : TxMemoryPool) : TxMemoryPool :=
  (pool.insertKeyImages txId tx).insertAliasInfo tx

def TxMemoryPool.onTxRemove (txId : Hash) (tx : TransactionPrefix) (pool : TxMemoryPool) :
    TxMemoryPool :=
  (pool.removeKeyImages txId tx).removeAliasInfo tx

/-! ## The checks of `add_tx` -/

def TxMemoryPool.haveTxKeyimgAsSpent (pool : TxMemoryPool) (kImage : KeyImage) : Bool :=
  (pool.keyImages.lookup kImage).isSome

/-- `have_tx_keyimges_as_spent` of the pool. -/
def TxMemoryPool.haveTxKeyimgesAsSpent (pool : TxMemoryPool) (tx : TransactionPrefix) : Bool :=
  (toKeyImages tx).any pool.haveTxKeyimgAsSpent

/-- The ids of the multisig outputs of a transaction. -/
def multisigOutIds (tx : TransactionPrefix) : List Hash :=
  ((List.range tx.vout.length).filter fun n =>
    match (tx.vout[n]?).map TxOut.target with
    | some (.multisig _) => true
    | _ => false).map (getMultisigOutId env.crypto tx)

def doesTxHaveGivenMultisigId (tx : TransactionPrefix) (multisigId : Hash) : Bool :=
  tx.multisigIds.contains multisigId || (multisigOutIds env tx).contains multisigId

/-- `check_tx_multisig_ins_and_outs`. -/
def checkTxMultisigInsAndOuts (db : Db) (pool : TxMemoryPool) (tx : TransactionPrefix)
    (checkAgainstPoolTxs : Bool) : Bool :=
  let inPool (id : Hash) : Bool :=
    checkAgainstPoolTxs &&
      pool.transactions.any fun _ details =>
        doesTxHaveGivenMultisigId env details.tx.toTransactionPrefix id
  tx.multisigIds.all (!inPool ·) &&
    (multisigOutIds env tx).all fun id => (db.multisigOuts.lookup id).isNone && !inPool id

def isValidContractFinalizationTx (db : Db) (tx : TransactionPrefix) : Bool :=
  match tx.vin with
  | [.multisig input] =>
      match db.multisigOuts.lookup input.multisigOutId with
      | none => false
      | some ms =>
          match db.transactions.lookup ms.txId with
          | none => false
          | some related => getTxFee tx ≥ getTxFee related.tx.toTransactionPrefix
  | _ => false

/-- The check of `validate_alias_info` on one alias entry.  Inside a block nothing is
checked. -/
def validateAliasEntry (node : Node) (pool : TxMemoryPool) (tx : Transaction)
    (entry : ExtraAliasEntry) : Check := do
  require (!(entry.mSign = [] && node.db.aliasHistory entry.mAlias != []))
  require (!(entry.mSign = [] && (node.db.addrToAlias.lookup entry.mAddress).any (· ≠ ∅)))
  require (entry.mAlias ∉ pool.aliasNames)
  require (entry.mAddress ∉ pool.aliasAddresses)
  (prevalidateAliasInfo env tx entry node).1

/-- `validate_alias_info`: every alias entry of the extra has to pass. -/
def validateAliasInfo (node : Node) (pool : TxMemoryPool) (tx : Transaction) (isInBlock : Bool) :
    Check :=
  if isInBlock then .ok ()
  else (tx.extra.filterMap aliasEntryOf?).forM (validateAliasEntry env node pool tx)

/-- The overload of `check_tx_inputs` that returns the last used block. -/
def checkTxInputsUsedBlock (node : Node) (now : Nat) (tx : Transaction) (txId : Hash) :
    Except Failure (Nat × Hash) := do
  let maxUsedBlockHeight ← checkTxInputs env node.db node.isInCheckpointZone now tx txId
  match node.db.blocks[maxUsedBlockHeight]? with
  | none => .error .rejected
  | some bei => return (maxUsedBlockHeight, env.crypto.getBlockHash bei.bl)

/-! ## Operations -/

/-- What `add_tx` reports when it does not fail. -/
inductive AddTxResult
  | verificationImpossible
  | tooSmallFee
  | added (inputsChecked : Bool)
deriving DecidableEq

/-- `do_insert_transaction`. -/
def TxMemoryPool.doInsertTransaction (now : Nat) (tx : Transaction) (id : Hash) (blobSize : Nat)
    (keptByBlock : Bool) (fee : UInt64) (maxUsedBlockId : Hash) (maxUsedBlockHeight : Nat)
    (pool : TxMemoryPool) : TxMemoryPool :=
  let details : PoolTxDetails := {
    tx, blobSize, fee, keptByBlock, maxUsedBlockId, maxUsedBlockHeight
    lastFailedHeight := 0
    lastFailedId := nullHash
    receiveTime := now }
  { pool with transactions := pool.transactions.insert id details }.onTxAdd id tx.toTransactionPrefix

/-- The checks that hold for a transaction in every mode; returns its fee. -/
def checkTxAmounts (db : Db) (tx : Transaction) : Except Failure UInt64 := do
  require (validateTxForHardforkSpecificTerms env tx db.size)
  require (checkInputsTypesSupported tx.toTransactionPrefix)
  let (positive, inputsAmount) := getInputsMoneyAmount tx.toTransactionPrefix
  require positive
  require (tx.vout.length ≤ currencyTxMaxAllowedOuts)
  let outputsAmount := getOutsMoneyAmount tx.toTransactionPrefix
  require (outputsAmount ≤ inputsAmount)
  return inputsAmount - outputsAmount

/-- The result of `check_tx_inputs`; a failure is passed over for a transaction kept
by a block or from the core. -/
def checkInputsUnless (skip : Bool) (node : Node) (now : Nat) (tx : Transaction) (id : Hash) :
    Except Failure (Option (Nat × Hash)) :=
  match checkTxInputsUsedBlock env node now tx id with
  | .ok used => .ok (some used)
  | .error .thrown => .error .thrown
  | .error .rejected => if skip then .ok none else .error .rejected

/-- The checks of `add_tx`: the result without the insertion, and what to insert. -/
def checkNewTx (node : Node) (pool : TxMemoryPool) (now : Nat) (tx : Transaction) (id : Hash)
    (keptByBlock fromCore : Bool) :
    Except Failure (AddTxResult × Option (UInt64 × Hash × Nat)) := do
  if !keptByBlock && !fromCore && node.isInCheckpointZone then
    return (.verificationImpossible, none)
  let fee ← checkTxAmounts env node.db tx
  require (fromCore || keptByBlock ||
    !isTxExpired tx.toTransactionPrefix (getTxExpirationMedian node.db))
  if !fromCore then validateAliasInfo env node pool tx keptByBlock
  if !fromCore && !keptByBlock then
    require (!pool.haveTxKeyimgesAsSpent tx.toTransactionPrefix)
    if fee < env.config.txPoolMinFee &&
        !isValidContractFinalizationTx node.db tx.toTransactionPrefix then
      return (.tooSmallFee, none)
    require (checkTxMultisigInsAndOuts env node.db pool tx.toTransactionPrefix true)
  let used ← checkInputsUnless env (keptByBlock || fromCore) node now tx id
  let (maxUsedBlockHeight, maxUsedBlockId) := used.getD (0, nullHash)
  return (.added used.isSome, some (fee, maxUsedBlockId, maxUsedBlockHeight))

/-- `add_tx`. -/
def poolAddTxFull (node : Node) (now : Nat) (tx : Transaction) (id : Hash) (blobSize : Nat)
    (keptByBlock fromCore : Bool) : PoolProcedure AddTxResult := do
  match (← Procedure.check fun pool => checkNewTx env node pool now tx id keptByBlock fromCore) with
  | (result, none) => pure result
  | (result, some (fee, maxUsedBlockId, maxUsedBlockHeight)) => do
      Procedure.modify fun pool => pool.doInsertTransaction now tx id blobSize keptByBlock fee
        maxUsedBlockId maxUsedBlockHeight
      pure result

/-- `take_tx`. -/
def TxMemoryPool.takeTx (id : Hash) (pool : TxMemoryPool) : Option PoolTxDetails × TxMemoryPool :=
  match pool.transactions.lookup id with
  | none => (none, pool)
  | some details =>
      let removed := { pool with transactions := pool.transactions.erase id }.onTxRemove id
        details.tx.toTransactionPrefix
      (some details, { removed with takenTxs := insert id removed.takenTxs })

/-- How often `remove_stuck_transactions` lists a transaction for removal: for its
age, for its expiration and for a key image that was spent deep enough in the
chain. -/
def stuckReasons (node : Node) (now : Nat) (details : PoolTxDetails) : Nat :=
  let outdated := now > details.receiveTime + currencyMempoolTxLivetime
  let expired := isTxExpired details.tx.toTransactionPrefix (getTxExpirationMedian node.db)
  let spentBefore := node.db.size - 1 - conflictKeyImageSpentDepthToRemoveTxFromPool
  let spent := node.db.size - 1 > conflictKeyImageSpentDepthToRemoveTxFromPool &&
    (toKeyImages details.tx.toTransactionPrefix).any fun kImage =>
      (node.db.spentKeys.lookup kImage).any (· < spentBefore)
  (if outdated then 1 else 0) + (if expired then 1 else 0) + (if spent then 1 else 0)

/-- The transactions to delete, met in the given order of the container. -/
def stuckTransactions (node : Node) (now : Nat) (order : List Hash) (pool : TxMemoryPool) :
    List (Hash × Transaction) :=
  order.flatMap fun id =>
    match pool.transactions.lookup id with
    | none => []
    | some details =>
        if id ∈ node.alternativeChainsTxs then []
        else List.replicate (stuckReasons node now details) (id, details.tx)

def TxMemoryPool.removeStuck (pool : TxMemoryPool) (entry : Hash × Transaction) : TxMemoryPool :=
  { pool with transactions := pool.transactions.erase entry.1 }.onTxRemove entry.1
    entry.2.toTransactionPrefix

/-- `remove_stuck_transactions`. -/
def TxMemoryPool.removeStuckTransactions (node : Node) (now : Nat) (order : List Hash)
    (pool : TxMemoryPool) : TxMemoryPool :=
  (stuckTransactions node now order pool).foldl TxMemoryPool.removeStuck pool

/-- `purge_transactions`: the alias names and addresses stay. -/
def TxMemoryPool.purgeTransactions (pool : TxMemoryPool) : TxMemoryPool :=
  { pool with transactions := ∅, keyImages := ∅ }

/-- `clear`: they stay here, too. -/
def TxMemoryPool.clear (pool : TxMemoryPool) : TxMemoryPool :=
  { pool with transactions := ∅, blackTxList := ∅, keyImages := ∅ }

def TxMemoryPool.addTransactionToBlackList (tx : Transaction) (pool : TxMemoryPool) : TxMemoryPool :=
  { pool with blackTxList := insert (getTransactionHash env.crypto tx) pool.blackTxList }

/-- `on_finalize_db_transaction`. -/
def TxMemoryPool.onFinalizeDbTransaction (pool : TxMemoryPool) : TxMemoryPool :=
  { pool with takenTxs := ∅ }

end Chinet
