import Chinet.Storage.Aliases
import Chinet.Storage.Inputs
import Chinet.Storage.Outputs

/-!
# Adding and purging a transaction of a block

`add_transaction_from_block` and `purge_transaction_from_blockchain`, with the
transaction pool that takes a purged transaction back.

Service attachments are handed to the offers service, which is not modelled;
their processing never fails.
-/

namespace Chinet

variable (env : Env)

/-! ## The transaction pool -/

/-- The checks of `add_tx` for a transaction `kept_by_block` and `from_core`.
The verdict of `check_tx_inputs` is ignored in this mode, and is left out. -/
def poolAccepts (db : Db) (tx : Transaction) : Bool :=
  validateTxForHardforkSpecificTerms env tx db.size &&
    checkInputsTypesSupported tx.toTransactionPrefix &&
    (getInputsMoneyAmount tx.toTransactionPrefix).1 &&
    tx.vout.length ≤ currencyTxMaxAllowedOuts &&
    getOutsMoneyAmount tx.toTransactionPrefix ≤ (getInputsMoneyAmount tx.toTransactionPrefix).2

/-- `tx_memory_pool::add_tx` with `kept_by_block` and `from_core`. -/
def poolAddTx (tx : Transaction) : NodeProcedure Unit := do
  Procedure.check fun node => require (poolAccepts env node.db tx)
  Procedure.modify fun node => { node with
    pool := node.pool.insert (getTransactionHash env.crypto tx) {
      tx
      blobSize := env.crypto.getObjectBlobsize tx
      fee := (getInputsMoneyAmount tx.toTransactionPrefix).2 -
        getOutsMoneyAmount tx.toTransactionPrefix
      keptByBlock := true } }

/-- `tx_memory_pool::take_tx`. -/
def poolTakeTx (id : Hash) : NodeProcedure (Option TxDetails) := fun node =>
  (.ok (node.pool.lookup id), { node with pool := node.pool.erase id })

/-! ## Adding -/

/-- The inputs of `add_transaction_from_block`: a failure purges the key images
of the whole transaction and its alias entry. -/
def addTransactionInputs (tx : Transaction) (blHeight : Nat) : DbProcedure Unit := do
  if (← succeeds (Procedure.forEach (addTransactionInput env blHeight) tx.vin)) then pure ()
  else
    let _ ← succeeds (purgeTransactionKeyimages tx false)
    unprocessBlockchainTxExtra tx
    Procedure.fail .rejected

/-- A transaction with this id may already be there; then its inputs and its
alias entry are undone. -/
def checkTransactionIsNew (tx : Transaction) (txId : Hash) : DbProcedure Unit := do
  if (← Procedure.gets fun db => (db.transactions.lookup txId).isNone) then pure ()
  else
    let _ ← succeeds (purgeTransactionKeyimages tx true)
    unprocessBlockchainTxExtra tx
    Procedure.fail .rejected

/-- The outputs and the entry of a new transaction.  When
`push_transaction_to_global_outs_index` fails, nothing is undone. -/
def storeTransaction (tx : Transaction) (txId : Hash) (blHeight : Nat) : DbProcedure Unit := do
  let globalOutputIndexes ← pushTransactionToGlobalOutsIndex env tx txId
  Procedure.modify fun db => { db with
    transactions := db.transactions.insert txId {
      tx
      keeperBlockHeight := blHeight
      globalOutputIndexes
      spentFlags := List.replicate tx.vout.length false } }

/-- `add_transaction_from_block`. -/
def addTransactionFromBlock (tx : Transaction) (txId : Hash) (blHeight : Nat) :
    NodeProcedure Unit := do
  Procedure.check fun node => do
    require (!isTxExpired tx.toTransactionPrefix (getTxExpirationMedian node.db))
    require (validateTxForHardforkSpecificTerms env tx blHeight)
  processBlockchainTxExtra env tx
  NodeProcedure.onDb do
    addTransactionInputs env tx blHeight
    checkTransactionIsNew tx txId
    storeTransaction env tx txId blHeight

/-! ## Purging -/

/-- The last part of `purge_transaction_from_blockchain`: the outputs and the
entry; the entry is erased whether or not the outputs could be popped. -/
def eraseTransaction (tx : Transaction) (txId : Hash) : DbProcedure Unit := do
  let res ← succeeds (popTransactionFromGlobalIndex env tx txId)
  Procedure.modify fun db => { db with transactions := db.transactions.erase txId }
  if res then pure () else Procedure.fail .rejected

/-- `purge_transaction_from_blockchain`; returns the transaction.  A transaction
the pool refuses keeps its outputs and its entry. -/
def purgeTransactionFromBlockchain (txId : Hash) : NodeProcedure Transaction := do
  match (← Procedure.gets fun node => node.db.transactions.lookup txId) with
  | none => Procedure.fail .rejected
  | some entry => do
      NodeProcedure.onDb do
        let _ ← succeeds (purgeTransactionKeyimages entry.tx true)
        unprocessBlockchainTxExtra entry.tx
      if isCoinbase entry.tx.toTransactionPrefix then pure () else poolAddTx env entry.tx
      NodeProcedure.onDb (eraseTransaction env entry.tx txId)
      pure entry.tx

/-- A call of `purge_transaction_from_blockchain` whose failure is remembered
only. -/
def tryPurgeTransaction (txId : Hash) : NodeProcedure (Option Transaction) := fun node =>
  match purgeTransactionFromBlockchain env txId node with
  | (.ok tx, node') => (.ok (some tx), node')
  | (.error .rejected, node') => (.ok none, node')
  | (.error .thrown, node') => (.error .thrown, node')

/-- The loop of `purge_block_data_from_blockchain` over the transaction ids in
the order of the calls, with its result and the transactions so far. -/
def purgeTransactions : List Hash → Bool → TransactionsMap → NodeProcedure (Bool × TransactionsMap)
  | [], res, onboardTransactions => pure (res, onboardTransactions)
  | txId :: rest, res, onboardTransactions => do
      match (← tryPurgeTransaction env txId) with
      | none => purgeTransactions rest false onboardTransactions
      | some tx => purgeTransactions rest res (onboardTransactions.insert txId tx)

/-- `purge_block_data_from_blockchain`: the processed transactions from the last
one down, then the coinbase.  Every failure is reported at the end only. -/
def purgeBlockDataFromBlockchain (bl : Block) (processedTxCount : Nat) :
    NodeProcedure TransactionsMap := do
  Procedure.check fun _ => require (processedTxCount ≤ bl.txHashes.length)
  let (res, onboardTransactions) ←
    purgeTransactions env (bl.txHashes.take processedTxCount).reverse true ∅
  let minerTx ← tryPurgeTransaction env (getTransactionHash env.crypto bl.minerTx)
  if res && minerTx.isSome then pure onboardTransactions else Procedure.fail .rejected

end Chinet
