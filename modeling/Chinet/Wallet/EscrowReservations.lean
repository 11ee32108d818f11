import Chinet.Wallet.UnconfirmedTxs

/-!
# Reservations for escrow proposals

`send_escrow_proposal` marks the transfers of a template as reserved before it sends the
proposal.  The wallet lists them with the time at which they come free when it meets its own
proposal, which is when it records the transaction: as sent, from the pool or from a block.

What `validate_escrow_proposal` accepts as a proposal of this wallet is a parameter.
-/

namespace Chinet

def IndexedTransfer.isReservedForEscrow (td : IndexedTransfer) : Bool :=
  td.flags &&& walletTransferDetailFlagEscrowProposalReservation != 0

/-- `ownProposal` gives the template of the proposal that a transaction brings, if it is valid and
this wallet is its party A. -/
structure ProposalPrimitives extends PoolPrimitives where
  ownProposal : Transaction → Option Transaction

/-- The point at which `send_escrow_proposal` ends. -/
inductive ProposalOutcome
  /-- The template is not built; a wallet exception clears the cache. -/
  | templateNotBuilt (exceptionHandler : Bool)
  /-- The transaction of the proposal is not built. -/
  | notBuilt (exceptionHandler : Bool)
  /-- The network does not take the transaction. -/
  | notSent (exceptionHandler : Bool)
  | sent
deriving DecidableEq

namespace PoolWallet

def onException (w : IndexedWallet) (exceptionHandler : Bool) : IndexedWallet :=
  if exceptionHandler then { w with foundFreeAmounts := [] } else w

/-- `handle_proposal`, for a proposal of this wallet. -/
def handleProposal (prims : ProposalPrimitives) (w : PoolWallet) (tx : Transaction) : PoolWallet :=
  match prims.ownProposal tx with
  | none => w
  | some template => { w with
      toIndexedWallet := w.toIndexedWallet.addTransfersToExpirationList
        (w.toIndexedWallet.scanTxToKeyInputs template)
        (getTxExpirationTime template.toTransactionPrefix).toUInt64 }

/-- A transaction that the network has taken is recorded, and with it the proposal it brings. -/
def sendRecorded (prims : ProposalPrimitives) (w : PoolWallet) (tx : Transaction)
    (selectedTransfers : List Nat) : PoolWallet :=
  handleProposal prims (send prims.toPoolPrimitives w tx selectedTransfers) tx

/-- The two selections of `send_escrow_proposal`, with the transfers of the template marked in
between. -/
def selectForProposal (w : IndexedWallet) (templateMoney proposalMoney : UInt64)
    (fakeOutputsCount dust : Nat) : List Nat × List Nat × IndexedWallet :=
  match w.selectTransfers templateMoney fakeOutputsCount dust with
  | (template, w) =>
      match (w.markTransfersWithFlag template.selectedIndexes
          IndexedWallet.escrowTemplateMask).selectTransfers proposalMoney fakeOutputsCount dust with
      | (proposal, w) => (template.selectedIndexes, proposal.selectedIndexes, w)

/-- `send_escrow_proposal`.  Nothing undoes the marks of the template when the sending fails. -/
def sendEscrowProposal (prims : ProposalPrimitives) (w : PoolWallet)
    (templateMoney proposalMoney : UInt64) (fakeOutputsCount dust : Nat) (proposal : Transaction) :
    ProposalOutcome → PoolWallet
  | .templateNotBuilt exceptionHandler => { w with
      toIndexedWallet := onException
        (w.toIndexedWallet.selectTransfers templateMoney fakeOutputsCount dust).2 exceptionHandler }
  | .notBuilt exceptionHandler => { w with
      toIndexedWallet := w.toIndexedWallet.failedEscrowProposal templateMoney proposalMoney
        fakeOutputsCount dust exceptionHandler }
  | .notSent exceptionHandler =>
      match selectForProposal w.toIndexedWallet templateMoney proposalMoney fakeOutputsCount dust with
      | (_, _, v) => { w with toIndexedWallet := onException v exceptionHandler }
  | .sent =>
      match selectForProposal w.toIndexedWallet templateMoney proposalMoney fakeOutputsCount dust with
      | (_, selectedTransfers, v) =>
          sendRecorded prims { w with toIndexedWallet := v } proposal selectedTransfers

/-! ## Runs -/

inductive EscrowEvent where
  | wallet (event : Event)
  | sendEscrowProposal (templateMoney proposalMoney : UInt64) (fakeOutputsCount dust : Nat)
      (proposal : Transaction) (outcome : ProposalOutcome)
  | handleExpirationList (txExpirationTsMedian : UInt64)

/-- The transactions that an event records, for which `prepare_wti` looks at the contracts. -/
def recordedBy (prims : PoolPrimitives) (w : PoolWallet) : Event → List Transaction
  | .processNewTransaction height _ t =>
      if (historyKind prims w height t).isSome then [t.tx] else []
  | .send tx _ | .submitTransfer tx _ => [tx]
  | .scanTxPool txs txExpirationTsMedian =>
      txs.filter fun tx =>
        !w.hasUnconfirmed (prims.getTransactionHash tx) &&
          (scanTxPool prims w txs txExpirationTsMedian).1.hasUnconfirmed (prims.getTransactionHash tx)
  | _ => []

def escrowStep (prims : ProposalPrimitives) (w : PoolWallet) : EscrowEvent → PoolWallet
  | .wallet event =>
      (recordedBy prims.toPoolPrimitives w event).foldl (handleProposal prims)
        (step prims.toPoolPrimitives w event)
  | .sendEscrowProposal templateMoney proposalMoney fakeOutputsCount dust proposal outcome =>
      sendEscrowProposal prims w templateMoney proposalMoney fakeOutputsCount dust proposal outcome
  | .handleExpirationList txExpirationTsMedian =>
      { w with toIndexedWallet := w.toIndexedWallet.handleExpirationList txExpirationTsMedian }

def escrowRun (prims : ProposalPrimitives) (w : PoolWallet) (events : List EscrowEvent) : PoolWallet :=
  events.foldl (escrowStep prims) w

end PoolWallet

end Chinet
