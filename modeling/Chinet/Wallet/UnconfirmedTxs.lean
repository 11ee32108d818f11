import Chinet.Pool.State
import Chinet.Wallet.TransferIndexes
import Mathlib.Data.List.DropRight

/-!
# Unconfirmed transactions of a wallet

What the wallet knows of the transactions that are in no block: `m_unconfirmed_txs`,
`m_unconfirmed_in_transfers` and `m_unconfirmed_multisig_transfers`, with the multisig
transfers and the history.  `scan_tx_pool` brings them up to the pool, and
`scan_unconfirmed_outdate_tx` drops what has become too old.

The pool comes parsed.  Contracts that a transaction brings, and the alias flag, are left out.
-/

namespace Chinet

/-! ## Data -/

/-- `wallet_transfer_info`, of the history and of `m_unconfirmed_txs`. -/
structure UnconfirmedTx where
  tx : Transaction
  isIncome : Bool
  height : Nat
  timestamp : Nat
  selectedIndicies : List Nat
deriving DecidableEq

/-- `transfer_details_base`, of a multisig output. -/
structure MultisigTransfer where
  tx : Transaction
  blockHeight : Nat
  internalOutputIndex : Nat
  flags : BitVec 32
  spentHeight : Nat
deriving DecidableEq

def MultisigTransfer.isSpent (tdb : MultisigTransfer) : Bool :=
  tdb.flags &&& walletTransferDetailFlagSpent != 0

/-- What the wallet takes from `crypto/` and its keys: the id of a transaction, whether its extra
can be read, the money that it brings, and whether its attachments are for this wallet. -/
structure PoolPrimitives where
  getTransactionHash : Transaction → Hash
  parseAndValidateTxExtra : Transaction → Bool
  lookupAccOuts : Transaction → Option UInt64
  isDerivationUsedToEncrypt : Transaction → Bool
  getMultisigOutId : Transaction → Nat → Hash

/-- `unconfirmedEntries` are all of `m_unconfirmed_txs`, of which `unconfirmedTxs` has the
selected indexes. -/
structure PoolWallet extends IndexedWallet where
  unconfirmedEntries : List (Hash × UnconfirmedTx)
  unconfirmedInTransfers : List (Hash × Transaction)
  unconfirmedMultisigTransfers : List Hash
  multisigTransfers : Hash → Option MultisigTransfer
  transferHistory : List UnconfirmedTx

namespace PoolWallet

/-- A wallet that has processed nothing. -/
def empty (watchOnly auditable : Bool) : PoolWallet where
  toIndexedWallet := .empty watchOnly auditable
  unconfirmedEntries := []
  unconfirmedInTransfers := []
  unconfirmedMultisigTransfers := []
  multisigTransfers := fun _ => none
  transferHistory := []

/-! ## Entries -/

def hasUnconfirmed (w : PoolWallet) (txHash : Hash) : Bool :=
  w.unconfirmedEntries.any fun e => e.1 = txHash

/-- An entry that is there already is written over. -/
def putUnconfirmed (w : PoolWallet) (txHash : Hash) (wti : UnconfirmedTx) : PoolWallet :=
  { w with
    toIndexedWallet := w.toIndexedWallet.addSentUnconfirmedTx txHash wti.selectedIndicies
    unconfirmedEntries := (w.unconfirmedEntries.filter fun e => e.1 ≠ txHash) ++ [(txHash, wti)] }

def eraseUnconfirmed (w : PoolWallet) (txHash : Hash) : PoolWallet :=
  { w with
    unconfirmedTxs := Function.update w.unconfirmedTxs txHash none
    unconfirmedEntries := w.unconfirmedEntries.filter fun e => e.1 ≠ txHash }

/-- The multisig outputs that a transaction spends. -/
def multisigInputs (tx : Transaction) : List Hash := tx.vin.filterMap Txin.multisigOutId?

/-! ## Blocks -/

/-- A transaction of a block, with the outputs that `lookup_acc_outs` has found in it. -/
structure ReceivedTransaction where
  tx : Transaction
  outs : List IndexedWallet.OwnOutput
  multisigOuts : List Nat
  txMoneyGotInOuts : UInt64

def toKeyAmount : Txin → UInt64
  | .toKey input => input.amount
  | _ => 0

/-- The inputs by which a transaction spends transfers. -/
def spendsTransfer (w : PoolWallet) : Txin → Bool
  | .toKey input => ((w.spentTransferId input).bind id).isSome
  | _ => false

/-- The inputs by which it spends multisig transfers. -/
def spendsMultisig (w : PoolWallet) (input : Txin) : Bool :=
  match input.multisigOutId? with
  | some multisigId => (w.multisigTransfers multisigId).isSome
  | none => false

/-- The inputs that are left when one of them throws. -/
def unprocessedInputs (prims : PoolPrimitives) (w : PoolWallet) (height : Nat) (tx : Transaction) :
    List Txin :=
  (w.toIndexedWallet.processInputs tx (prims.getTransactionHash tx) height).2

/-- Whether the history takes the transaction, and as an income or not. -/
def historyKind (prims : PoolPrimitives) (w : PoolWallet) (height : Nat) (t : ReceivedTransaction) :
    Option Bool :=
  let txMoneySpentInIns := ((t.tx.vin.filter w.spendsTransfer).map toKeyAmount).sum
  if w.unprocessedInputs prims height t.tx ≠ [] then none
  else if txMoneySpentInIns ≠ 0 then some (decide (txMoneySpentInIns ≤ t.txMoneyGotInOuts))
  else if t.txMoneyGotInOuts ≠ 0 then some true
  else if prims.isDerivationUsedToEncrypt t.tx then some true
  else if t.tx.vin.any fun input => w.spendsTransfer input || w.spendsMultisig input then
    some false
  else none

/-- The multisig inputs of a transaction in a block. -/
def spendMultisigs (height : Nat) (inputs : List Txin) (transfers : Hash → Option MultisigTransfer) :
    Hash → Option MultisigTransfer :=
  fun multisigId =>
    if multisigId ∈ inputs.filterMap Txin.multisigOutId? then (transfers multisigId).map fun tdb =>
      { tdb with flags := tdb.flags ||| walletTransferDetailFlagSpent, spentHeight := height }
    else transfers multisigId

/-- A multisig output; an entry that is there already keeps its flags. -/
def receiveMultisig (prims : PoolPrimitives) (height : Nat) (tx : Transaction)
    (transfers : Hash → Option MultisigTransfer) (o : Nat) : Hash → Option MultisigTransfer :=
  let multisigId := prims.getMultisigOutId tx o
  let tdb := (transfers multisigId).getD ⟨tx, height, o, 0, 0⟩
  Function.update transfers multisigId
    (some { tdb with tx, blockHeight := height, internalOutputIndex := o })

/-- `process_new_transaction`; after an exception nothing comes of the rest of the transaction. -/
def processNewTransaction (prims : PoolPrimitives) (w : PoolWallet) (height timestamp : Nat)
    (t : ReceivedTransaction) : PoolWallet :=
  let txHash := prims.getTransactionHash t.tx
  let rest := w.unprocessedInputs prims height t.tx
  { w.eraseUnconfirmed txHash with
    toIndexedWallet := (w.toIndexedWallet.processNewTransaction t.tx txHash height t.outs).1
    multisigTransfers :=
      (if rest = [] then t.multisigOuts else []).foldl (receiveMultisig prims height t.tx)
        (spendMultisigs height (t.tx.vin.take (t.tx.vin.length - rest.length)) w.multisigTransfers)
    transferHistory := w.transferHistory ++ (historyKind prims w height t).toList.map fun isIncome =>
      ⟨t.tx, isIncome, height, timestamp, []⟩ }

/-- An entry of the history that goes back to `m_unconfirmed_txs`, if there is none of its id. -/
def unconfirm (prims : PoolPrimitives) (w : PoolWallet) (wti : UnconfirmedTx) : PoolWallet :=
  let txHash := prims.getTransactionHash wti.tx
  if isCoinbase wti.tx.toTransactionPrefix || w.hasUnconfirmed txHash then w
  else w.putUnconfirmed txHash wti

/-- `detach_blockchain`.  The multisig transfers stay as they are. -/
def detachBlockchain (prims : PoolPrimitives) (w : PoolWallet) (includingHeight : Nat) : PoolWallet :=
  let n := w.toIndexedWallet.cutIndex includingHeight
  let detached := { w with
    toIndexedWallet := w.toIndexedWallet.detachBlockchain prims.getTransactionHash includingHeight }
  match IndexedWallet.forgetTransfers includingHeight
      (List.range' n (w.transfers.length - n)) w.toIndexedWallet with
  | (_, false) => detached
  | (_, true) =>
      let isDetached (wti : UnconfirmedTx) : Bool := includingHeight ≤ wti.height
      let kept := w.transferHistory.rdropWhile isDetached
      { (w.transferHistory.drop kept.length).foldl (unconfirm prims) detached with
        transferHistory := kept }

/-- `reset_all` -/
def resetAll (w : PoolWallet) : PoolWallet where
  toIndexedWallet := w.toIndexedWallet.resetAll
  unconfirmedEntries := []
  unconfirmedInTransfers := []
  unconfirmedMultisigTransfers := []
  multisigTransfers := fun _ => none
  transferHistory := []

/-! ## Sending -/

/-- A transaction that the network has taken: its transfers are marked and it is recorded. -/
def send (prims : PoolPrimitives) (w : PoolWallet) (tx : Transaction) (selectedTransfers : List Nat) :
    PoolWallet :=
  putUnconfirmed { w with
      toIndexedWallet := w.toIndexedWallet.markTransfersWithFlag selectedTransfers
        walletTransferDetailFlagSpent }
    (prims.getTransactionHash tx) ⟨tx, false, 0, w.coreTime, selectedTransfers⟩

/-- `submit_transfer` up to the key images: the transfers stay reserved, and are not marked. -/
def submitTransfer (prims : PoolPrimitives) (w : PoolWallet) (tx : Transaction)
    (selectedTransfers : List Nat) : PoolWallet :=
  w.putUnconfirmed (prims.getTransactionHash tx) ⟨tx, false, 0, w.coreTime, selectedTransfers⟩

/-- `accept_proposal` puts the multisig output of a template into the multisig transfers while the
release templates are built.  If that throws, the entry stays. -/
def acceptProposal (w : PoolWallet) (contractId : Hash) (template : Transaction) (n : Nat)
    (thrown : Bool) : PoolWallet :=
  let tdb := (w.multisigTransfers contractId).getD ⟨template, 0, n, 0, 0⟩
  let tdb := { tdb with
    tx := template
    blockHeight := 0
    internalOutputIndex := n
    flags := tdb.flags &&& ~~~walletTransferDetailFlagSpent }
  { w with
    multisigTransfers :=
      Function.update w.multisigTransfers contractId (if thrown then some tdb else none) }

/-! ## The pool -/

/-- What the loop over the inputs of a transaction works on: the wallet,
`unconfirmed_multisig_transfers_from_tx_pool` and its locals. -/
structure InputScan where
  wallet : PoolWallet
  fromTxPool : List Hash
  txMoneySpentInIns : UInt64
  spendTransfers : List Nat
  newMultisigSpendDetected : Bool

/-- The multisig output is marked when the last pool did not spend it. -/
def markMultisigSpent (w : PoolWallet) (multisigId : Hash) (tdb : MultisigTransfer) : PoolWallet :=
  { w with
    multisigTransfers := Function.update w.multisigTransfers multisigId
      (some { tdb with flags := tdb.flags ||| walletTransferDetailFlagSpent, spentHeight := 0 }) }

/-- An input of a transaction of the pool; the flag says that nothing was thrown. -/
def scanInput (s : InputScan) : Txin → InputScan × Bool
  | .toKey input =>
      match s.wallet.spentTransferId input with
      | none => (s, false)
      | some none => (s, true)
      | some (some tid) =>
          ({ s with
            txMoneySpentInIns := s.txMoneySpentInIns + input.amount
            spendTransfers := s.spendTransfers ++ [tid] }, true)
  | .multisig input =>
      match s.wallet.multisigTransfers input.multisigOutId with
      | none => (s, true)
      | some tdb =>
          let s := { s with fromTxPool := s.fromTxPool ++ [input.multisigOutId] }
          if input.multisigOutId ∈ s.wallet.unconfirmedMultisigTransfers then (s, true)
          else
            ({ s with
              wallet := s.wallet.markMultisigSpent input.multisigOutId tdb
              newMultisigSpendDetected := true }, true)
  | _ => (s, true)

def scanInputs : List Txin → InputScan → InputScan × Bool
  | [], s => (s, true)
  | input :: rest, s =>
      match scanInput s input with
      | (s, true) => scanInputs rest s
      | (s, false) => (s, false)

/-- A transaction with inputs of this wallet, or with outputs for it, is recorded. -/
def recordIncome (prims : PoolPrimitives) (w : PoolWallet) (tx : Transaction) : PoolWallet :=
  let txHash := prims.getTransactionHash tx
  let w := { w with unconfirmedInTransfers := w.unconfirmedInTransfers ++ [(txHash, tx)] }
  if w.hasUnconfirmed txHash then w
  else w.putUnconfirmed txHash ⟨tx, true, 0, w.coreTime, []⟩

/-- An index that is the number of transfers passes its check. -/
def recordSpend (prims : PoolPrimitives) (w : PoolWallet) (tx : Transaction)
    (spendTransfers : List Nat) : PoolWallet :=
  let txHash := prims.getTransactionHash tx
  let w := { w with unconfirmedInTransfers := w.unconfirmedInTransfers ++ [(txHash, tx)] }
  if w.hasUnconfirmed txHash then w
  else
    let spendTransfers := spendTransfers.filter (· ≤ w.transfers.length)
    putUnconfirmed { w with
        toIndexedWallet := w.toIndexedWallet.markTransfersWithFlag spendTransfers
          walletTransferDetailFlagSpent }
      txHash ⟨tx, false, 0, w.coreTime, spendTransfers⟩

/-- A transaction of the pool.  One that the scan before has recorded is kept, without a look at
its inputs. -/
def scanTx (prims : PoolPrimitives) (txExpirationTsMedian : Nat) (before : List (Hash × Transaction))
    (w : PoolWallet) (fromTxPool : List Hash) (tx : Transaction) : (PoolWallet × List Hash) × Bool :=
  match before.find? fun e => e.1 = prims.getTransactionHash tx with
  | some e =>
      (({ w with unconfirmedInTransfers := w.unconfirmedInTransfers ++ [e] }, fromTxPool), true)
  | none =>
      if !prims.parseAndValidateTxExtra tx then ((w, fromTxPool), false)
      else
        match prims.lookupAccOuts tx with
        | none => ((w, fromTxPool), false)
        | some txMoneyGotInOuts =>
            match scanInputs tx.vin ⟨w, fromTxPool, 0, [], false⟩ with
            | (s, false) => ((s.wallet, s.fromTxPool), false)
            | (s, true) =>
                let income := s.txMoneySpentInIns = 0 ∧
                  (txMoneyGotInOuts ≠ 0 ∨ prims.isDerivationUsedToEncrypt tx = true)
                let w :=
                  if income ∧ isTxExpired tx.toTransactionPrefix txExpirationTsMedian = false then
                    recordIncome prims s.wallet tx
                  else if s.txMoneySpentInIns ≠ 0 ∨ s.newMultisigSpendDetected = true then
                    recordSpend prims s.wallet tx s.spendTransfers
                  else s.wallet
                ((w, s.fromTxPool), true)

def scanTxs (prims : PoolPrimitives) (txExpirationTsMedian : Nat)
    (before : List (Hash × Transaction)) :
    List Transaction → PoolWallet × List Hash → (PoolWallet × List Hash) × Bool
  | [], s => (s, true)
  | tx :: rest, s =>
      match scanTx prims txExpirationTsMedian before s.1 s.2 tx with
      | (s, true) => scanTxs prims txExpirationTsMedian before rest s
      | (s, false) => (s, false)

/-- A multisig output that the last pool spent and this one does not is free again, unless it
was spent in a block. -/
def clearVanished (w : PoolWallet) (fromTxPool : List Hash) : PoolWallet :=
  let unconfirmedInMultisigTransfers := w.unconfirmedInTransfers.flatMap fun e => multisigInputs e.2
  { w with
    multisigTransfers := fun multisigId =>
      if multisigId ∈ w.unconfirmedMultisigTransfers ∧ multisigId ∉ fromTxPool ∧
          multisigId ∉ unconfirmedInMultisigTransfers then
        (w.multisigTransfers multisigId).map fun tdb =>
          if tdb.isSpent ∧ tdb.spentHeight = 0 then
            { tdb with flags := tdb.flags &&& ~~~walletTransferDetailFlagSpent }
          else tdb
      else w.multisigTransfers multisigId
    unconfirmedMultisigTransfers := fromTxPool }

/-- `scan_tx_pool`.  What was changed before an exception stays. -/
def scanTxPool (prims : PoolPrimitives) (w : PoolWallet) (txs : List Transaction)
    (txExpirationTsMedian : Nat) : PoolWallet × Bool :=
  match scanTxs prims txExpirationTsMedian w.unconfirmedInTransfers txs
      ({ w with unconfirmedInTransfers := [] }, []) with
  | ((w, _), false) => (w, false)
  | ((w, fromTxPool), true) => (w.clearVanished fromTxPool, true)

/-! ## Outdated transactions -/

/-- The reasons for which an unconfirmed transaction is dropped. -/
def outdated (w : PoolWallet) (txExpirationTsMedian : Nat) (wti : UnconfirmedTx) : Bool :=
  decide (wti.timestamp < (w.coreTime + 2 ^ 64 - currencyMempoolTxLivetime) % 2 ^ 64) ||
    isTxExpired wti.tx.toTransactionPrefix txExpirationTsMedian

/-- The transfer has a key image that one of the entries spends. -/
def knownSpent (entries : List (Hash × UnconfirmedTx)) (td : IndexedTransfer) : Bool :=
  entries.any fun e => !e.2.isIncome && e.2.tx.vin.any fun
    | .toKey input => input.kImage == td.keyImage
    | _ => false

def clearSpent (td : IndexedTransfer) : IndexedTransfer :=
  { td with flags := td.flags &&& ~~~walletTransferDetailFlagSpent }

/-- The transfer is no HTLC. -/
def isToKeyOutput (td : IndexedTransfer) : Bool :=
  match td.output?.map TxOut.target with
  | some (.htlc _) => false
  | _ => true

/-- A transfer that is marked as spent, but is in no block and reserved for no escrow. -/
def looksSpent (td : IndexedTransfer) : Bool :=
  td.flags &&& walletTransferDetailFlagSpent != 0 && td.spentHeight == 0 &&
    td.flags &&& walletTransferDetailFlagEscrowProposalReservation == 0 && isToKeyOutput td

/-- `scan_unconfirmed_outdate_tx` -/
def scanUnconfirmedOutdateTx (w : PoolWallet) (txExpirationTsMedian : Nat) : PoolWallet :=
  let removed := w.unconfirmedEntries.filter fun e => w.outdated txExpirationTsMedian e.2
  let left := w.unconfirmedEntries.filter fun e => !w.outdated txExpirationTsMedian e.2
  { w with
    unconfirmedTxs := fun txHash =>
      if removed.any fun e => e.1 = txHash then none else w.unconfirmedTxs txHash
    unconfirmedEntries := left
    transfers := w.transfers.mapIdx fun i td =>
      let td := if (removed.any fun e => i ∈ e.2.selectedIndicies) ∧ td.spentHeight = 0 then
        clearSpent td else td
      if looksSpent td && !knownSpent left td then clearSpent td else td }

/-! ## Runs -/

inductive Event where
  | processNewTransaction (height timestamp : Nat) (t : ReceivedTransaction)
  | blockAdded (height : Nat)
  | advance (blockchainCurrentSize coreTime : Nat)
  | detachBlockchain (includingHeight : Nat)
  | resetAll
  /-- Flags that change by a reservation, an expiration, a failed broadcast or the user. -/
  | changeFlags (change : Nat → BitVec 32 → BitVec 32)
  | send (tx : Transaction) (selectedTransfers : List Nat)
  | submitTransfer (tx : Transaction) (selectedTransfers : List Nat)
  | acceptProposal (contractId : Hash) (template : Transaction) (n : Nat) (thrown : Bool)
  | associateKeyImage (transferIndex : Nat) (keyImage : KeyImage)
  | scanTxPool (txs : List Transaction) (txExpirationTsMedian : Nat)
  | scanUnconfirmedOutdateTx (txExpirationTsMedian : Nat)

def step (prims : PoolPrimitives) (w : PoolWallet) : Event → PoolWallet
  | .processNewTransaction height timestamp t => processNewTransaction prims w height timestamp t
  | .blockAdded height => { w with
      toIndexedWallet := IndexedWallet.processHtlcTriggersOnBlockAdded prims.getTransactionHash
        w.toIndexedWallet height }
  | .advance blockchainCurrentSize coreTime => { w with blockchainCurrentSize, coreTime }
  | .detachBlockchain includingHeight => detachBlockchain prims w includingHeight
  | .resetAll => w.resetAll
  | .changeFlags change =>
      { w with transfers := w.transfers.mapIdx fun i td => { td with flags := change i td.flags } }
  | .send tx selectedTransfers => send prims w tx selectedTransfers
  | .submitTransfer tx selectedTransfers => submitTransfer prims w tx selectedTransfers
  | .acceptProposal contractId template n thrown => acceptProposal w contractId template n thrown
  | .associateKeyImage transferIndex keyImage =>
      { w with toIndexedWallet := w.toIndexedWallet.associateKeyImage transferIndex keyImage }
  | .scanTxPool txs txExpirationTsMedian => (scanTxPool prims w txs txExpirationTsMedian).1
  | .scanUnconfirmedOutdateTx txExpirationTsMedian => w.scanUnconfirmedOutdateTx txExpirationTsMedian

def run (prims : PoolPrimitives) (w : PoolWallet) (events : List Event) : PoolWallet :=
  events.foldl (step prims) w

end PoolWallet

end Chinet
