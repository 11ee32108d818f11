import Chinet.Storage.State

/-!
# Outputs, spent flags and key images

The containers that a transaction of a block changes besides its own entry: the
per-amount output index, the multisig outputs, the spent flags of the outputs
it refers to and the spent key images.  Each has a push and a pop side.
-/

namespace Chinet

variable (env : Env)

/-! ## Spent flags -/

/-- `update_spent_tx_flags_for_input` by transaction id and output number. -/
def updateSpentTxFlags (txId : Hash) (n : Nat) (spent : Bool) : DbProcedure Unit := fun db =>
  match db.transactions.lookup txId with
  | none => (.error .rejected, db)
  | some entry =>
      if n < entry.spentFlags.length then
        (.ok (), { db with
          transactions :=
            db.transactions.insert txId { entry with spentFlags := entry.spentFlags.set n spent } })
      else (.error .rejected, db)

/-- `update_spent_tx_flags_for_input` for an output of an amount. -/
def updateSpentTxFlagsForInput (amount : UInt64) (ref : TxoutRef) (spent : Bool) : DbProcedure Unit :=
  match ref with
  | .refById txId n => updateSpentTxFlags txId n spent
  | .globalIndex index => do
      match (← Procedure.gets fun db => (db.outputs amount)[index.toNat]?) with
      | none => Procedure.fail .rejected
      | some entry => updateSpentTxFlags entry.txId entry.outNo spent

/-- `update_spent_tx_flags_for_input` for a multisig output.  An output that is
already spent is only reported, and its height overwritten. -/
def updateSpentTxFlagsForMultisig (multisigId : Hash) (spentHeight : Nat) : DbProcedure Unit := do
  match (← Procedure.gets fun db => db.multisigOuts.lookup multisigId) with
  | none => Procedure.fail .rejected
  | some ms => do
      Procedure.modify fun db => { db with
        multisigOuts :=
          db.multisigOuts.insert multisigId { ms with spentHeight := spentHeight % 2 ^ 32 } }
      updateSpentTxFlags ms.txId ms.outNo (spentHeight ≠ 0)

/-! ## Inputs -/

/-- A direct spend names one output only, whose spent flag then changes. -/
def updateDirectSpend (part : TxinToKey) (spent : Bool) : DbProcedure Unit :=
  match part.keyOffsets with
  | [ref] => updateSpentTxFlagsForInput part.amount ref spent
  | _ => pure ()

/-- `add_transaction_input_visitor` on a key input. -/
def addKeyInput (blHeight : Nat) (part : TxinToKey) : DbProcedure Unit := do
  Procedure.check fun db => require (db.spentKeys.lookup part.kImage).isNone
  Procedure.modify fun db => { db with spentKeys := db.spentKeys.insert part.kImage blHeight }
  updateDirectSpend part true

/-- `add_transaction_input_visitor`. -/
def addTransactionInput (blHeight : Nat) : Txin → DbProcedure Unit
  | .gen _ => pure ()
  | .toKey input => addKeyInput blHeight input
  | .multisig input => updateSpentTxFlagsForMultisig input.multisigOutId blHeight
  | .htlc input => do
      Procedure.check fun db => require (env.isAfterHardfork3Zone db.size)
      addKeyInput blHeight input.toTxinToKey

/-- `purge_transaction_visitor` on a key input. -/
def purgeKeyInput (strictCheck : Bool) (part : TxinToKey) : DbProcedure Unit := do
  let found ← Procedure.gets fun db => (db.spentKeys.lookup part.kImage).isSome
  Procedure.modify fun db => { db with spentKeys := db.spentKeys.erase part.kImage }
  Procedure.check fun _ => require (found || !strictCheck)
  updateDirectSpend part false

/-- `purge_transaction_visitor`. -/
def purgeInput (strictCheck : Bool) : Txin → DbProcedure Unit
  | .gen _ => pure ()
  | .toKey input => purgeKeyInput strictCheck input
  | .multisig input => updateSpentTxFlagsForMultisig input.multisigOutId 0
  | .htlc input => purgeKeyInput strictCheck input.toTxinToKey

/-- `purge_transaction_keyimages_from_blockchain`: a strict call stops at the
first input that fails, the other one goes through all of them. -/
def purgeTransactionKeyimages (tx : Transaction) (strictCheck : Bool) : DbProcedure Unit :=
  Procedure.forEach (fun input =>
    if strictCheck then purgeInput true input
    else do
      let _ ← succeeds (purgeInput false input)
      pure ()) tx.vin

/-! ## Outputs -/

/-- `get_item_size` after `push_back_item`. -/
def pushOutput (amount : UInt64) (entry : GlobalOutputEntry) (db : Db) : Db :=
  { db with
    outputs := Function.update db.outputs amount (db.outputs amount ++ [entry]) }

/-- One turn of the loop of `push_transaction_to_global_outs_index`; returns the
global index. -/
def pushTransactionOutput (tx : Transaction) (txId : Hash) (i : Nat) (out : TxOut) :
    DbProcedure Nat := do
  if out.target.isIndexed then
    Procedure.modify (pushOutput out.amount { txId, outNo := i })
    Procedure.check fun db => require (!out.target.isHtlc || env.isAfterHardfork3Zone db.size)
    Procedure.gets fun db => (db.outputs out.amount).length - 1
  else
    let multisigOutId := getMultisigOutId env.crypto tx.toTransactionPrefix i
    Procedure.check fun db => do
      require (multisigOutId != nullHash)
      require (db.multisigOuts.lookup multisigOutId).isNone
    Procedure.modify fun db => { db with
      multisigOuts := db.multisigOuts.insert multisigOutId { txId, outNo := i, spentHeight := 0 } }
    pure 0

def pushTransactionOutputs (tx : Transaction) (txId : Hash) : Nat → List TxOut → DbProcedure (List Nat)
  | _, [] => pure []
  | i, out :: rest => do
      let index ← pushTransactionOutput env tx txId i out
      let indexes ← pushTransactionOutputs tx txId (i + 1) rest
      pure (index :: indexes)

/-- `push_transaction_to_global_outs_index`; returns the global indexes. -/
def pushTransactionToGlobalOutsIndex (tx : Transaction) (txId : Hash) : DbProcedure (List Nat) :=
  pushTransactionOutputs env tx txId 0 tx.vout

/-- One turn of the loop of `pop_transaction_from_global_index`. -/
def popTransactionOutput (tx : Transaction) (txId : Hash) (i : Nat) (out : TxOut) :
    DbProcedure Unit := do
  if out.target.isIndexed then
    Procedure.check fun db =>
      require ((db.outputs out.amount).getLast? = some { txId, outNo := i })
    Procedure.modify fun db => { db with
      outputs := Function.update db.outputs out.amount (db.outputs out.amount).dropLast }
  else
    let multisigOutId := getMultisigOutId env.crypto tx.toTransactionPrefix i
    Procedure.check fun db => do
      require (multisigOutId != nullHash)
      require (db.multisigOuts.lookup multisigOutId).isSome
    Procedure.modify fun db => { db with multisigOuts := db.multisigOuts.erase multisigOutId }

/-- The outputs from the last down to the first, `i` being the number of the
first. -/
def popTransactionOutputs (tx : Transaction) (txId : Hash) : Nat → List TxOut → DbProcedure Unit
  | _, [] => pure ()
  | i, out :: rest => do
      popTransactionOutputs tx txId (i + 1) rest
      popTransactionOutput env tx txId i out

/-- `pop_transaction_from_global_index`. -/
def popTransactionFromGlobalIndex (tx : Transaction) (txId : Hash) : DbProcedure Unit :=
  popTransactionOutputs env tx txId 0 tx.vout

/-- `append_per_block_increments_for_tx`. -/
def appendPerBlockIncrementsForTx (tx : Transaction) (gindices : FiniteStore UInt64 Nat) :
    FiniteStore UInt64 Nat :=
  (tx.vout.filter (·.target.isIndexed)).foldl
    (fun incs out => incs.insert out.amount ((incs.lookup out.amount).getD 0 + 1)) gindices

end Chinet
