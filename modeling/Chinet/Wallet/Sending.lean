import Chinet.Lib.Procedure
import Chinet.Lib.SortContract
import Chinet.Wallet.Escrow
import Chinet.Wallet.EscrowReservations
import Chinet.Wallet.SpentFlags

/-!
# Sending transactions

`transfer`, `sweep_below`, `submit_transfer`, `send_escrow_proposal`, `accept_proposal` and
`request_cancel_contract`, call by call.  Each selects transfers, marks them at its own moment,
and has its own handler for exceptions, which undoes a part.

What the daemon, the network and the construction of a transaction answer comes from outside.
The secret keys of transactions are left out.
-/

namespace Chinet

/-! ## Data -/

/-- `WALLET_GLOBAL_OUTPUT_INDEX_UNDEFINED` -/
def walletGlobalOutputIndexUndefined : Nat := 2 ^ 64 - 1

/-- An exception that the macros of the wallet throw clears the cache of free transfers. -/
inductive SendError
  | wallet
  | other
deriving DecidableEq

structure SendPrimitives extends ProposalPrimitives where
  getObjectBlobsize : Transaction → Nat

/-- `amount`, `td.rcv` and `td.spn` of an entry of `m_unconfirmed_txs`. -/
structure UnconfirmedMoney where
  amount : UInt64
  rcv : List UInt64
  spn : List UInt64
deriving DecidableEq

/-- `accepted` are the transactions that the network has taken, with the transfers that were
selected for them. -/
structure SendingWallet extends PoolWallet where
  unconfirmedMoney : Hash → UnconfirmedMoney
  pendingKeyImages : PublicKey → Option KeyImage
  accepted : List (Transaction × List Nat)

abbrev SendProcedure (α : Type) := Procedure SendError SendingWallet α

/-- The results of `balance`. -/
structure Balance where
  total : UInt64
  unlocked : UInt64
  awaitingIn : UInt64
  awaitingOut : UInt64
  mined : UInt64
deriving DecidableEq

namespace SendingWallet

/-- The transfers that count for the balance. -/
def counted (s : SendingWallet) : List IndexedTransfer :=
  s.transfers.filter fun td => td.isSpendable || (td.isReservedForEscrow && !td.isSpent)

def moneyOf (transfers : List IndexedTransfer) : UInt64 :=
  (transfers.map fun td => td.amount.toUInt64).sum

/-- `balance` -/
def balance (s : SendingWallet) : Balance :=
  let income := s.unconfirmedEntries.filter fun e => e.2.isIncome
  let outgoing := s.unconfirmedEntries.filter fun e => !e.2.isIncome
  let awaitingIn := (income.map fun e => (s.unconfirmedMoney e.1).amount).sum
  { total := moneyOf s.counted + awaitingIn +
      (outgoing.map fun e => (s.unconfirmedMoney e.1).rcv.sum).sum
    unlocked := moneyOf (s.counted.filter fun td => isTransferUnlocked s.cacheView td.toTransferDetails)
    awaitingIn
    awaitingOut := (outgoing.map fun e => (s.unconfirmedMoney e.1).amount).sum
    mined := moneyOf (s.counted.filter fun td =>
      td.flags &&& walletTransferDetailFlagMinedTransfer != 0) }

/-- A wallet that has processed nothing. -/
def empty (watchOnly auditable : Bool) : SendingWallet where
  toPoolWallet := .empty watchOnly auditable
  unconfirmedMoney := fun _ => ⟨0, [], []⟩
  pendingKeyImages := fun _ => none
  accepted := []

def onWallet (f : IndexedWallet → IndexedWallet) (s : SendingWallet) : SendingWallet :=
  { s with toIndexedWallet := f s.toIndexedWallet }

def exceptionHandler (s : SendingWallet) : SendError → SendingWallet
  | .wallet => s.onWallet fun w => { w with foundFreeAmounts := [] }
  | .other => s

def throwSendError {α : Type} (e : SendError) : SendProcedure α := do
  Procedure.modify (exceptionHandler · e)
  Procedure.fail e

/-- A call whose outcome comes from outside. -/
def called {α : Type} : Except SendError α → SendProcedure α
  | .ok a => pure a
  | .error e => throwSendError e

theorem called_ok {α : Type} {answer : Except SendError α} {s t : SendingWallet} {a : α}
    (h : called answer s = (.ok a, t)) : answer = .ok a ∧ t = s := by
  cases answer with
  | ok a' =>
      cases h
      exact ⟨rfl, rfl⟩
  | error e => cases h

def calledIf (condition : Bool) (answer : Except SendError Unit) : SendProcedure Unit :=
  if condition then called answer else pure ()

def require (condition : Bool) : SendProcedure Unit :=
  if condition then pure () else throwSendError .wallet

/-! ## Marks -/

/-- `mark_transfers_with_flag`, which checks all transfers before it changes one. -/
def markTransfersWithFlag (selectedTransfers : List Nat) (flag : BitVec 32)
    (throwIfFlagAlreadySet : Bool) : SendProcedure Unit := do
  let transfers ← Procedure.gets fun s : SendingWallet => s.transfers
  require (selectedTransfers.all fun i => (transfers[i]?).any fun td =>
    !throwIfFlagAlreadySet || td.flags &&& flag == 0)
  Procedure.modify (onWallet (·.markTransfersWithFlag selectedTransfers flag))

def markTransfersAsSpent (selectedTransfers : List Nat) : SendProcedure Unit :=
  markTransfersWithFlag selectedTransfers walletTransferDetailFlagSpent false

/-- `clear_transfers_from_flag`, which throws nothing. -/
def clearTransfersFromFlag (selectedTransfers : List Nat) (flag : BitVec 32) :
    SendingWallet → SendingWallet :=
  onWallet (·.clearTransfersFromFlag selectedTransfers flag)

/-! ## Preparing a transaction -/

/-- Where the money of a transaction comes from, by its `construct_tx_param`. -/
inductive MoneySource
  | packing (posMintPackingSize : Nat)
  | htlc
  | multisig
  | regular

/-- What `prepare_transaction` is told, and the answers that it gets. -/
structure PrepareCalls where
  fakeOutputsCount : Nat
  dustThreshold : Nat
  getNeededMoney : Except SendError UInt64
  getRandomOutputs : Except SendError Unit
  fetchTxGlobalIndixes : Except SendError (Nat → Nat)
  makeSources : Except SendError Unit
  prepareTxDestinations : Except SendError Unit

/-- `prefetch_global_indicies_if_needed`, with the indexes that the daemon gives. -/
def prefetchGlobalIndicies (selectedIndicies : List Nat) (found : Nat → Nat) (w : IndexedWallet) :
    IndexedWallet :=
  selectedIndicies.foldl (fun w i =>
    if (w.transfers[i]?).any fun td => td.globalOutputIndex = walletGlobalOutputIndexUndefined then
      w.prefetchGlobalIndex i (found i)
    else w) w

/-- `prepare_tx_sources` for transfers that are selected. -/
def prepareTxSources (c : PrepareCalls) (fakeOutputsCount : Nat) (selectedIndicies : List Nat) :
    SendProcedure Unit := do
  calledIf (fakeOutputsCount ≠ 0) c.getRandomOutputs
  let found ← called c.fetchTxGlobalIndixes
  Procedure.modify (onWallet (prefetchGlobalIndicies selectedIndicies found))
  called c.makeSources

def selectTransfers (neededMoney : UInt64) (fakeOutputsCount dust : Nat) :
    SendProcedure IndexSelection := fun s =>
  match s.toIndexedWallet.selectTransfers neededMoney fakeOutputsCount dust with
  | (selection, w) => (.ok selection, s.onWallet fun _ => w)

def packTransfers (posMintPackingSize : Nat) : SendProcedure (Option (List Nat)) := fun s =>
  match s.cacheView.prepareTxSourcesForPacking 0 posMintPackingSize with
  | (picked, v) => (.ok picked, s.onWallet (·.withCache v))

/-- Too few rewards for packing are no exception. -/
def selectSources (source : MoneySource) (c : PrepareCalls) (neededMoney : UInt64) :
    SendProcedure (List Nat) :=
  match source with
  | .packing posMintPackingSize => do
      match ← packTransfers posMintPackingSize with
      | none => pure []
      | some selectedIndicies => do
          prepareTxSources c 0 selectedIndicies
          pure selectedIndicies
  | .htlc | .multisig => do
      called c.makeSources
      pure []
  | .regular => do
      let selection ← selectTransfers neededMoney c.fakeOutputsCount c.dustThreshold
      require (neededMoney ≤ selection.foundMoney)
      prepareTxSources c c.fakeOutputsCount selection.selectedIndexes
      pure selection.selectedIndexes

/-- `prepare_transaction`: the transfers that it selects. -/
def prepareTransaction (source : MoneySource) (c : PrepareCalls) : SendProcedure (List Nat) := do
  let neededMoney ← called c.getNeededMoney
  let selectedTransfers ← selectSources source c neededMoney
  called c.prepareTxDestinations
  pure selectedTransfers

/-! ## Finalizing a transaction -/

/-- How `add_sent_tx_detailed_info` ends: with the amounts of the change, or with an exception that
leaves the entry as far as it is filled. -/
inductive Recording
  | done (change : List UInt64)
  | thrown (entry : UnconfirmedTx) (money : UnconfirmedMoney) (proposalHandled : Bool) (e : SendError)

/-- The answers that `finalize_transaction` gets. -/
structure FinalizeCalls where
  constructTx : Except SendError Transaction
  signMultisigInput : Transaction → Except SendError Transaction
  sendTransactionToNetwork : Except SendError Unit
  addSentTxDetailedInfo : Recording

def sendTransactionToNetwork (answer : Except SendError Unit) (tx : Transaction)
    (selectedTransfers : List Nat) : SendProcedure Unit := do
  called answer
  Procedure.modify fun s => { s with accepted := s.accepted ++ [(tx, selectedTransfers)] }

/-- An entry of `m_unconfirmed_txs` that is written, and the proposal that its transaction brings. -/
def putEntry (prims : SendPrimitives) (tx : Transaction) (entry : UnconfirmedTx)
    (money : UnconfirmedMoney) (proposalHandled : Bool) (s : SendingWallet) : SendingWallet :=
  let txHash := prims.getTransactionHash tx
  let w := s.toPoolWallet.putUnconfirmed txHash entry
  { s with
    toPoolWallet := if proposalHandled then PoolWallet.handleProposal prims.toProposalPrimitives w tx else w
    unconfirmedMoney := Function.update s.unconfirmedMoney txHash money }

/-- The money of a transaction that is sent; an entry that is there already is added to. -/
def sentMoney (prims : SendPrimitives) (s : SendingWallet) (tx : Transaction) (change : List UInt64) :
    UnconfirmedMoney :=
  let txHash := prims.getTransactionHash tx
  let before := if s.hasUnconfirmed txHash then s.unconfirmedMoney txHash else ⟨0, [], []⟩
  let rcv := before.rcv ++ change
  let spn := before.spn ++ tx.vin.filterMap fun
    | .toKey input => if (s.keyImages input.kImage).isSome then some input.amount else none
    | _ => none
  ⟨spn.sum - (rcv.sum + getTxFee tx.toTransactionPrefix), rcv, spn⟩

/-- `add_sent_tx_detailed_info` -/
def addSentTxDetailedInfo (prims : SendPrimitives) (tx : Transaction) (selectedTransfers : List Nat) :
    Recording → SendProcedure Unit
  | .done change => Procedure.modify fun s =>
      s.putEntry prims tx ⟨tx, false, 0, s.coreTime, selectedTransfers⟩ (s.sentMoney prims tx change) true
  | .thrown entry money proposalHandled e => do
      Procedure.modify (putEntry prims tx entry money proposalHandled)
      throwSendError e

/-- The transaction is sent and recorded. -/
def broadcast (prims : SendPrimitives) (c : FinalizeCalls) (tx : Transaction)
    (selectedTransfers : List Nat) : SendProcedure Unit := do
  sendTransactionToNetwork c.sendTransactionToNetwork tx selectedTransfers
  addSentTxDetailedInfo prims tx selectedTransfers c.addSentTxDetailedInfo

/-- `finalize_transaction` -/
def finalizeTransaction (prims : SendPrimitives) (c : FinalizeCalls) (selectedTransfers : List Nat)
    (broadcastTx : Bool) : SendProcedure Transaction := do
  let tx ← called c.constructTx
  let tx ← called (c.signMultisigInput tx)
  require (prims.getObjectBlobsize tx < currencyMaxTransactionBlobSize)
  (if broadcastTx then broadcast prims c tx selectedTransfers else pure ())
  pure tx

/-- A transaction is sent, and its transfers are freed if that throws. -/
def finalizeOrClear (prims : SendPrimitives) (c : FinalizeCalls) (selectedTransfers : List Nat)
    (broadcastTx : Bool) : SendProcedure Transaction :=
  Procedure.onFailure (finalizeTransaction prims c selectedTransfers broadcastTx)
    (clearTransfersFromFlag selectedTransfers walletTransferDetailFlagSpent)

/-- How four operations end: the transfers are marked before the transaction is sent. -/
def spendAndFinalize (prims : SendPrimitives) (c : FinalizeCalls) (selectedTransfers : List Nat)
    (broadcastTx : Bool) : SendProcedure Unit := do
  markTransfersAsSpent selectedTransfers
  let _ ← finalizeOrClear prims c selectedTransfers broadcastTx

/-! ## `transfer` -/

structure TransferCalls where
  source : MoneySource
  checkSelfDirected : Except SendError Unit
  prepare : PrepareCalls
  storeUnsignedTx : Except SendError Unit
  finalize : FinalizeCalls
  sendToNetwork : Bool

/-- `store_unsigned_tx_to_file_and_reserve_transfers` -/
def storeUnsignedTxAndReserveTransfers (stored : Except SendError Unit) (selectedTransfers : List Nat) :
    SendProcedure Unit := do
  called stored
  markTransfersWithFlag selectedTransfers walletTransferDetailFlagColdSigReservation true

def transfer (prims : SendPrimitives) (c : TransferCalls) : SendProcedure Unit := do
  let s ← Procedure.gets fun s : SendingWallet => s
  require (!s.auditable || !s.watchOnly)
  called c.checkSelfDirected
  let selectedTransfers ← prepareTransaction c.source c.prepare
  if s.watchOnly then storeUnsignedTxAndReserveTransfers c.storeUnsignedTx selectedTransfers
  else spendAndFinalize prims c.finalize selectedTransfers c.sendToNetwork

/-! ## `sweep_below` -/

/-- `try_construct_result_t`, or an exception that is not caught. -/
inductive TryConstructResult
  | ok
  | tooFewOutputs
  | tooManyOutputs
  | createTxFailed
  | thrown (e : SendError)

/-- A `std::sort` of transfers, the bigger ones first; those of one amount come in any order. -/
structure TransferSort where
  sort : (Nat → Nat) → List Nat → List Nat
  sorts : ∀ amountAt, SortContract.Sorts (fun i j => decide (amountAt j < amountAt i)) (sort amountAt)

structure SweepCalls where
  sortTransfers : TransferSort
  fakeOutsCount : Nat
  thresholdAmount : Nat
  fetchTxGlobalIndixes : Except SendError (Nat → Nat)
  getRandomOutputs : Except SendError Unit
  /-- `try_construct_tx`, by the number of inputs. -/
  tryConstructTx : Nat → TryConstructResult
  storeUnsignedTx : Except SendError Unit
  finalize : FinalizeCalls

def estimatedBytesPerInput : Nat := 78

/-- The maximum of `CURRENCY_MAX_TRANSACTION_BLOB_SIZE / (78 * (fake_outs_count + 1.5))`. -/
def estimatedMaxInputs (fakeOutsCount : Nat) : Nat :=
  2 * currencyMaxTransactionBlobSize / (estimatedBytesPerInput * (2 * fakeOutsCount + 3))

/-- The transfers below the threshold that are ready, the bigger ones first. -/
def transfersBelow (sortTransfers : TransferSort) (w : IndexedWallet)
    (thresholdAmount fakeOutsCount : Nat) : List Nat :=
  sortTransfers.sort w.cacheView.amountAt ((List.range w.transfers.length).filter fun i =>
    decide (w.cacheView.amountAt i < thresholdAmount) && w.cacheView.ready fakeOutsCount i)

/-- The bisection for the number of inputs; `best` is what the last transaction that was small
enough has, or the first one that was tried. -/
def bisectInputs (tryConstructTx : Nat → TryConstructResult) (lowBound highBound best : Nat) :
    Except SendError Nat :=
  if lowBound + 1 ≥ highBound then .ok best
  else
    match tryConstructTx ((lowBound + highBound) / 2) with
    | .ok => bisectInputs tryConstructTx ((lowBound + highBound) / 2) highBound
        ((lowBound + highBound) / 2)
    | .tooManyOutputs => bisectInputs tryConstructTx lowBound ((lowBound + highBound) / 2) best
    | .thrown e => .error e
    | _ => .error .wallet
termination_by highBound - lowBound

def sweptInputs (tryConstructTx : Nat → TryConstructResult) (upperBoundary : Nat) :
    Except SendError Nat :=
  match tryConstructTx upperBoundary with
  | .ok => .ok upperBoundary
  | .tooManyOutputs => bisectInputs tryConstructTx 0 upperBoundary upperBoundary
  | .thrown e => .error e
  | _ => .error .wallet

def sweepBelow (prims : SendPrimitives) (c : SweepCalls) : SendProcedure Unit := do
  let s ← Procedure.gets fun s : SendingWallet => s
  let below := transfersBelow c.sortTransfers s.toIndexedWallet c.thresholdAmount c.fakeOutsCount
  require (!below.isEmpty)
  let candidates := below.take (estimatedMaxInputs c.fakeOutsCount * 2)
  let found ← called c.fetchTxGlobalIndixes
  Procedure.modify (onWallet (prefetchGlobalIndicies candidates found))
  calledIf (c.fakeOutsCount ≠ 0) c.getRandomOutputs
  let inputs ← called (sweptInputs c.tryConstructTx
    (min candidates.length (estimatedMaxInputs c.fakeOutsCount)))
  let selectedTransfers := candidates.take inputs
  if s.watchOnly then storeUnsignedTxAndReserveTransfers c.storeUnsignedTx selectedTransfers
  else spendAndFinalize prims c.finalize selectedTransfers true

/-! ## `submit_transfer` -/

/-- A `tx_source_entry` of a signed transaction: the keys of its outputs, and which one is real. -/
structure SignedSource where
  transferIndex : Nat
  outputs : List PublicKey
  realOutput : Nat

/-- `finalized_tx`, as it comes from the wallet that has signed. -/
structure FinalizedTx where
  tx : Transaction
  selectedTransfers : List Nat
  sources : List SignedSource
  outsKeyImages : List (Nat × KeyImage)

structure SubmitCalls where
  /-- The blob, decrypted and read. -/
  finalizedTx : Except SendError FinalizedTx
  sameSpendKey : Bool
  sendTransactionToNetwork : Except SendError Unit
  addSentTxDetailedInfo : Recording

/-- The keys of the change outputs, with their key images. -/
def changeKeyImages (ft : FinalizedTx) : Option (List (PublicKey × KeyImage)) :=
  ft.outsKeyImages.mapM fun p =>
    match (ft.tx.vout[p.1]?).map TxOut.target with
    | some (.toKey out) => some (out.key, p.2)
    | _ => none

/-- The transfer and the key of each input, with its key image. -/
def inputKeyImages (ft : FinalizedTx) : Option (List (Nat × PublicKey × KeyImage)) :=
  if ft.tx.vin.length = ft.sources.length then
    (ft.tx.vin.zip ft.sources).mapM fun
      | (.toKey input, src) =>
          (src.outputs[src.realOutput]?).map fun key => (src.transferIndex, key, input.kImage)
      | _ => none
  else none

def addPendingKeyImage (s : SendingWallet) (p : PublicKey × KeyImage) : SendingWallet :=
  if (s.pendingKeyImages p.1).isSome then s
  else { s with pendingKeyImages := Function.update s.pendingKeyImages p.1 (some p.2) }

def associateKeyImage (p : Nat × PublicKey × KeyImage) : SendProcedure Unit := do
  let s ← Procedure.gets fun s : SendingWallet => s
  require (p.1 < s.transfers.length)
  Procedure.modify (onWallet (·.associateKeyImage p.1 p.2.2))

/-- The key images that a watch-only wallet learns from a signed transaction. -/
def learnKeyImages (ft : FinalizedTx) : SendProcedure Unit :=
  match changeKeyImages ft, inputKeyImages ft with
  | some outs, some ins => do
      Procedure.modify fun s =>
        (outs ++ ins.map fun p => (p.2.1, p.2.2)).foldl addPendingKeyImage s
      Procedure.forEach associateKeyImage ins
  | _, _ => throwSendError .wallet

/-- The end of `submit_transfer`, once the network has taken the transaction. -/
def recordSubmitted (prims : SendPrimitives) (ft : FinalizedTx) (r : Recording) :
    SendProcedure Unit := do
  addSentTxDetailedInfo prims ft.tx ft.selectedTransfers r
  let watchOnly ← Procedure.gets fun s : SendingWallet => s.watchOnly
  if watchOnly then learnKeyImages ft else pure ()

def submitTransfer (prims : SendPrimitives) (c : SubmitCalls) : SendProcedure Unit := do
  let ft ← called c.finalizedTx
  require c.sameSpendKey
  Procedure.onFailure (sendTransactionToNetwork c.sendTransactionToNetwork ft.tx ft.selectedTransfers)
    (clearTransfersFromFlag ft.selectedTransfers
      (walletTransferDetailFlagSpent ||| walletTransferDetailFlagColdSigReservation))
  recordSubmitted prims ft c.addSentTxDetailedInfo

/-! ## Escrow contracts -/

/-- A transaction that is prepared and finalized, and not sent. -/
structure BuildCalls where
  prepare : PrepareCalls
  finalize : FinalizeCalls

def buildTransaction (prims : SendPrimitives) (source : MoneySource) (c : BuildCalls) :
    SendProcedure (List Nat × Transaction) := do
  let selectedTransfers ← prepareTransaction source c.prepare
  let tx ← finalizeTransaction prims c.finalize selectedTransfers false
  pure (selectedTransfers, tx)

structure ProposalCalls where
  connectedToNet : Except SendError Unit
  template : BuildCalls
  proposal : BuildCalls
  sendTransactionToNetwork : Except SendError Unit
  addSentTxDetailedInfo : Recording

/-- The transfers of a template are freed and go back to the cache. -/
def undoTemplate (selectedTransfers : List Nat) : SendingWallet → SendingWallet :=
  onWallet (IndexedWallet.releaseHold IndexedWallet.escrowTemplateMask · selectedTransfers)

/-- The end of `send_escrow_proposal`, once the network has taken the transaction. -/
def recordProposal (prims : SendPrimitives) (tx : Transaction) (selectedTransfers : List Nat)
    (r : Recording) : SendProcedure Unit := do
  markTransfersAsSpent selectedTransfers
  addSentTxDetailedInfo prims tx selectedTransfers r

/-- `send_escrow_proposal` up to the sending; what is caught ends here. -/
def buildProposal (prims : SendPrimitives) (c : ProposalCalls) : SendProcedure (List Nat × Transaction) := do
  called c.connectedToNet
  let (selectedForTemplate, _) ← buildTransaction prims .regular c.template
  markTransfersWithFlag selectedForTemplate IndexedWallet.escrowTemplateMask false
  Procedure.onFailure (buildTransaction prims .regular c.proposal) (undoTemplate selectedForTemplate)

def sendEscrowProposal (prims : SendPrimitives) (c : ProposalCalls) : SendProcedure Unit := do
  let (selectedTransfers, tx) ← buildProposal prims c
  sendTransactionToNetwork c.sendTransactionToNetwork tx selectedTransfers
  recordProposal prims tx selectedTransfers c.addSentTxDetailedInfo

structure AcceptCalls where
  normalRelease : BuildCalls
  burnRelease : BuildCalls
  prepare : PrepareCalls
  finalize : FinalizeCalls

def escrowMoney (cpd : ContractPrivateDetails) : UInt64 :=
  cpd.amountToPay + cpd.amountBPledge + cpd.amountAPledge

/-- The multisig output of a template is entered before it is in the chain. -/
def enterMultisig (contractId : Hash) (template : Transaction) (n : Nat) (s : SendingWallet) :
    SendingWallet :=
  { s with toPoolWallet := s.toPoolWallet.acceptProposal contractId template n true }

def eraseMultisig (contractId : Hash) (s : SendingWallet) : SendingWallet :=
  { s with multisigTransfers := Function.update s.multisigTransfers contractId none }

/-- The release templates of a contract, with its multisig output entered for the time. -/
def buildReleaseTemplates (prims : SendPrimitives) (contractId : Hash)
    (contract : EscrowContractDetails) (c : AcceptCalls) : SendProcedure Unit := do
  let template := contract.proposal.txTemplate
  let n := getMultisigOutIndex template.vout
  Procedure.modify (enterMultisig contractId template n)
  require ((template.vout[n]?).any fun out => out.amount > escrowMoney contract.privateDetailes)
  let _ ← buildTransaction prims .multisig c.normalRelease
  let _ ← buildTransaction prims .multisig c.burnRelease
  Procedure.modify (eraseMultisig contractId)

/-- `accept_proposal`, for what `m_contracts` has under the id. -/
def acceptProposal (prims : SendPrimitives) (contractId : Hash) (contract : Option EscrowContractDetails)
    (c : AcceptCalls) : SendProcedure Unit :=
  match contract with
  | none => throwSendError .wallet
  | some contract => do
      require (!contract.isA)
      require (contract.state == .proposalSent)
      require (getMultisigOutIndex contract.proposal.txTemplate.vout !=
        contract.proposal.txTemplate.vout.length)
      buildReleaseTemplates prims contractId contract c
      let selectedTransfers ← prepareTransaction .regular c.prepare
      spendAndFinalize prims c.finalize selectedTransfers true

structure CancelCalls where
  cancelTemplate : BuildCalls
  prepare : PrepareCalls
  finalize : FinalizeCalls

/-- `request_cancel_contract`, for what `m_contracts` has under the id. -/
def requestCancelContract (prims : SendPrimitives) (contractId : Hash)
    (contract : Option EscrowContractDetails) (c : CancelCalls) : SendProcedure Unit :=
  match contract with
  | none => throwSendError .wallet
  | some contract => do
      require contract.isA
      require (contract.state == .contractAccepted || contract.state == .contractCancelProposalSent)
      let tdb ← Procedure.gets fun s : SendingWallet => s.multisigTransfers contractId
      require tdb.isSome
      require ((tdb.bind fun tdb => tdb.tx.vout[tdb.internalOutputIndex]?).any fun out =>
        out.amount > escrowMoney contract.privateDetailes)
      let _ ← buildTransaction prims .multisig c.cancelTemplate
      let selectedTransfers ← prepareTransaction .regular c.prepare
      spendAndFinalize prims c.finalize selectedTransfers true

/-! ## Runs -/

inductive SendOperation
  | transfer (c : TransferCalls)
  | sweepBelow (c : SweepCalls)
  | submitTransfer (c : SubmitCalls)
  | sendEscrowProposal (c : ProposalCalls)
  | acceptProposal (contractId : Hash) (contract : Option EscrowContractDetails) (c : AcceptCalls)
  | requestCancelContract (contractId : Hash) (contract : Option EscrowContractDetails) (c : CancelCalls)

def perform (prims : SendPrimitives) : SendOperation → SendProcedure Unit
  | .transfer c => transfer prims c
  | .sweepBelow c => sweepBelow prims c
  | .submitTransfer c => submitTransfer prims c
  | .sendEscrowProposal c => sendEscrowProposal prims c
  | .acceptProposal contractId contract c => acceptProposal prims contractId contract c
  | .requestCancelContract contractId contract c => requestCancelContract prims contractId contract c

/-- The operations, whether they throw or not, and what the wallet does between them. -/
inductive SendEvent
  | operation (op : SendOperation)
  | wallet (event : PoolWallet.Event)

def sendStep (prims : SendPrimitives) (s : SendingWallet) : SendEvent → SendingWallet
  | .operation op => (perform prims op s).2
  | .wallet event =>
      { s with toPoolWallet := PoolWallet.step prims.toPoolPrimitives s.toPoolWallet event }

def sendRun (prims : SendPrimitives) (s : SendingWallet) (events : List SendEvent) : SendingWallet :=
  events.foldl (sendStep prims) s

end SendingWallet

end Chinet
