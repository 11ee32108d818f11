import Chinet.Wallet.TransfersCache
import Mathlib.Logic.Function.Basic

/-!
# Indexes of transfers

The containers of the wallet that hold indexes into `m_transfers`, and what fills and cuts
them: the processing of transactions and blocks, `detach_blockchain`, `reset_all`, and the
sending of transactions.

Flags other than those a function writes itself are changed by an event of their own.  The
entries that `detach_blockchain` moves from the history to `m_unconfirmed_txs` have no
selected indexes and are left out.
-/

namespace Chinet

/-- Goes through a list as far as nothing is thrown, and leaves the rest of it. -/
def goThrough {σ ε : Type} (f : σ → ε → σ × Bool) : List ε → σ → σ × List ε
  | [], s => (s, [])
  | e :: rest, s =>
      match f s e with
      | (s, true) => goThrough f rest s
      | (s, false) => (s, e :: rest)

section

variable {σ ε : Type} {f : σ → ε → σ × Bool}

/-- What every step keeps is kept. -/
theorem goThrough_induct {P : σ → Prop} (hstep : ∀ s e, P s → P (f s e).1) {l : List ε} {s : σ}
    (h : P s) : P (goThrough f l s).1 := by
  induction l generalizing s with
  | nil => exact h
  | cons e rest ih =>
      have hnext := hstep s e h
      rw [goThrough]
      split
      · rename_i heq
        rw [heq] at hnext
        exact ih hnext
      · rename_i heq
        rwa [heq] at hnext

theorem goThrough_cons_of_done {e : ε} {rest : List ε} {s : σ} (h : (f s e).2 = true) :
    goThrough f (e :: rest) s = goThrough f rest (f s e).1 := by
  rw [goThrough]
  split
  · rename_i heq
    rw [heq]
  · rename_i heq
    rw [heq] at h
    cases h

/-- All of a list is gone through when nothing is thrown at its head and in its tail. -/
theorem goThrough_cons {e : ε} {rest : List ε} {s : σ} (h : (goThrough f (e :: rest) s).2 = []) :
    (f s e).2 = true ∧ goThrough f (e :: rest) s = goThrough f rest (f s e).1 := by
  rw [goThrough] at h
  split at h
  · rename_i heq
    have hdone : (f s e).2 = true := by rw [heq]
    exact ⟨hdone, goThrough_cons_of_done hdone⟩
  · cases h

end

/-- The output that an input refers to, if it is the only one. -/
def TxinToKey.directReference? (input : TxinToKey) : Option (Nat × Nat) :=
  match input.keyOffsets with
  | [.globalIndex gindex] => some (input.amount.toNat, gindex.toNat)
  | _ => none

/-! ## The containers -/

def nullKi : KeyImage := 0

def walletTransferDetailFlagMinedTransfer : BitVec 32 := 8
def walletTransferDetailFlagHtlcRedeem : BitVec 32 := 32

/-- `transfer_details`. -/
structure IndexedTransfer extends TransferDetails where
  globalOutputIndex : Nat
  keyImage : KeyImage
  spentHeight : Nat

/-- The height at which the HTLC of a transfer expires. -/
def IndexedTransfer.htlcExpiration? (td : IndexedTransfer) : Option Nat :=
  match td.output?.map TxOut.target with
  | some (.htlc out) => some (td.blockHeight + out.expiration)
  | _ => none

structure HtlcExpirationTrigger where
  isWalletOwnsRedeem : Bool
  transferIndex : Nat
deriving DecidableEq

structure ExpirationEntryInfo where
  expirationTime : UInt64
  selectedTransfers : List Nat

structure IndexedWallet where
  watchOnly : Bool
  auditable : Bool
  transfers : List IndexedTransfer
  keyImages : KeyImage → Option Nat
  amountGindexToTransferId : Nat × Nat → Option Nat
  /-- `m_htlcs`, by the height of expiration. -/
  htlcs : List (Nat × HtlcExpirationTrigger)
  activeHtlcs : Nat × Nat → Option Nat
  activeHtlcsTxid : Hash → Option Nat
  foundFreeAmounts : List FreeAmountEntry
  fakeOutputsCount : Nat
  moneyExpirations : List ExpirationEntryInfo
  /-- The `selected_indicies` of `m_unconfirmed_txs`. -/
  unconfirmedTxs : Hash → Option (List Nat)
  blockchainCurrentSize : Nat
  coreTime : Nat

/-- The containers that hold indexes into `m_transfers`. -/
inductive IndexContainer
  | keyImages
  | amountGindexToTransferId
  | htlcs
  | activeHtlcs
  | activeHtlcsTxid
  | foundFreeAmounts
  | moneyExpirations
  | unconfirmedTxs
deriving DecidableEq

namespace IndexedWallet

/-- What the selection reads. -/
def cacheView (w : IndexedWallet) : TransfersWallet where
  transfers := w.transfers.map IndexedTransfer.toTransferDetails
  foundFreeAmounts := w.foundFreeAmounts
  fakeOutputsCount := w.fakeOutputsCount
  blockchainCurrentSize := w.blockchainCurrentSize
  coreTime := w.coreTime

/-- The entries of a container hold the index. -/
def Holds (w : IndexedWallet) : IndexContainer → Nat → Prop
  | .keyImages, i => ∃ k, w.keyImages k = some i
  | .amountGindexToTransferId, i => ∃ k, w.amountGindexToTransferId k = some i
  | .htlcs, i => ∃ e ∈ w.htlcs, e.2.transferIndex = i
  | .activeHtlcs, i => ∃ k, w.activeHtlcs k = some i
  | .activeHtlcsTxid, i => ∃ k, w.activeHtlcsTxid k = some i
  | .foundFreeAmounts, i => ∃ p ∈ pairs w.foundFreeAmounts, p.2 = i
  | .moneyExpirations, i => ∃ e ∈ w.moneyExpirations, i ∈ e.selectedTransfers
  | .unconfirmedTxs, i => ∃ k l, w.unconfirmedTxs k = some l ∧ i ∈ l

/-! ## Transfers that change in place -/

/-- Changes the flags and the spent height of one transfer. -/
def modifyTransfer (w : IndexedWallet) (i : Nat) (change : BitVec 32 → BitVec 32)
    (spentHeight : Nat → Nat) : IndexedWallet :=
  { w with transfers := w.transfers.modify i fun td =>
      { td with flags := change td.flags, spentHeight := spentHeight td.spentHeight } }

def clearBlockedFlags (flags : BitVec 32) : BitVec 32 :=
  flags &&& ~~~walletTransferDetailFlagBlocked &&& ~~~walletTransferDetailFlagEscrowProposalReservation

/-- `remove_transfer_from_expiration_list`. -/
def removeTransferFromExpirationList (w : IndexedWallet) (transferIndex : Nat) : IndexedWallet :=
  ({ w with
    moneyExpirations := w.moneyExpirations.filterMap fun e =>
      if transferIndex ∈ e.selectedTransfers then
        if e.selectedTransfers.erase transferIndex = [] then none
        else some { e with selectedTransfers := e.selectedTransfers.erase transferIndex }
      else some e } : IndexedWallet).modifyTransfer transferIndex clearBlockedFlags id

/-! ## Transactions -/

/-- `get_directly_spent_transfer_id_by_input_in_tracking_wallet`, for the absolute offsets of an
input.  `none` stands for an exception. -/
def directlySpentTransferId (w : IndexedWallet) (input : TxinToKey) :
    List TxoutRef → Option (Option Nat)
  | [] => some none
  | .refById _ _ :: rest => directlySpentTransferId w input rest
  | .globalIndex gindex :: rest =>
      match w.amountGindexToTransferId (input.amount.toNat, gindex.toNat) with
      | none => directlySpentTransferId w input rest
      | some tid =>
          match w.transfers[tid]? with
          | none => none
          | some td =>
              if input.keyOffsets.length ≠ 1 then
                match td.output?.map TxOut.target with
                | some (.toKey out) =>
                    if out.mixAttr = currencyToKeyOutForcedNoMix then none
                    else directlySpentTransferId w input rest
                | _ => directlySpentTransferId w input rest
              else if td.spentHeight ≠ 0 then none
              else some (some tid)

/-- A transfer is found by the only reference of an input. -/
theorem directlySpentTransferId_some {w : IndexedWallet} {input : TxinToKey}
    {offsets : List TxoutRef} {i : Nat}
    (hi : w.directlySpentTransferId input offsets = some (some i)) :
    input.keyOffsets.length = 1 ∧ ∃ gindex, .globalIndex gindex ∈ offsets ∧
      w.amountGindexToTransferId (input.amount.toNat, gindex.toNat) = some i := by
  have hlater (ref : TxoutRef) {rest : List TxoutRef} (h : input.keyOffsets.length = 1 ∧
      ∃ gindex, .globalIndex gindex ∈ rest ∧
        w.amountGindexToTransferId (input.amount.toNat, gindex.toNat) = some i) :
      input.keyOffsets.length = 1 ∧ ∃ gindex, .globalIndex gindex ∈ ref :: rest ∧
        w.amountGindexToTransferId (input.amount.toNat, gindex.toNat) = some i := by
    obtain ⟨hone, gindex, hmem, hgindex⟩ := h
    exact ⟨hone, gindex, List.mem_cons_of_mem _ hmem, hgindex⟩
  induction offsets with
  | nil => cases hi
  | cons ref rest ih =>
      cases ref with
      | refById txId n => exact hlater _ (ih hi)
      | globalIndex gindex =>
          rw [directlySpentTransferId] at hi
          split at hi
          · exact hlater _ (ih hi)
          · rename_i tid hgindex
            split at hi
            · cases hi
            · split at hi
              · split at hi
                · split at hi
                  · cases hi
                  · exact hlater _ (ih hi)
                · exact hlater _ (ih hi)
              · rename_i hone
                split at hi
                · cases hi
                · cases hi
                  exact ⟨not_not.mp hone, gindex, List.mem_cons_self, hgindex⟩

/-- The transfer that an input spends: a tracking wallet goes by the references, any other
wallet by the key image. -/
def spentTransferId (w : IndexedWallet) (input : TxinToKey) : Option (Option Nat) :=
  if w.auditable && w.watchOnly then
    match relativeOutputOffsetsToAbsolute input.keyOffsets with
    | .error _ => none
    | .ok offsets => w.directlySpentTransferId input offsets
  else some (w.keyImages input.kImage)

/-- An input of `process_new_transaction`; the flag says that nothing was thrown. -/
def processInput (height : Nat) (w : IndexedWallet) : Txin → IndexedWallet × Bool
  | .toKey input =>
      match w.spentTransferId input with
      | none => (w, false)
      | some none => (w, true)
      | some (some tid) =>
          ((w.modifyTransfer tid (· ||| walletTransferDetailFlagSpent)
            fun _ => height).removeTransferFromExpirationList tid, true)
  | .htlc input =>
      match input.directReference?.bind w.activeHtlcs with
      | none => (w, true)
      | some tid => (w.modifyTransfer tid id fun _ => height, true)
  | _ => (w, true)

/-- The start of `process_new_transaction`, and its loop over the inputs with those that are left
when one throws. -/
def processInputs (w : IndexedWallet) (tx : Transaction) (txHash : Hash) (height : Nat) :
    IndexedWallet × List Txin :=
  goThrough (processInput height) tx.vin
    { w with unconfirmedTxs := Function.update w.unconfirmedTxs txHash none }

/-- An output that `lookup_acc_outs` has found, with its key image and its index in the
chain, and whether it is mined.  Whether this wallet may redeem matters for an HTLC. -/
structure OwnOutput where
  o : Nat
  keyImage : KeyImage
  globalOutputIndex : Nat
  isMined : Bool
  isWalletOwnsRedeem : Bool

/-- The flags of a new transfer; an HTLC counts as spent. -/
def OwnOutput.flags (out : OwnOutput) (tx : Transaction) : BitVec 32 :=
  (if out.isMined then walletTransferDetailFlagMinedTransfer else 0) |||
    match (tx.vout[out.o]?).map TxOut.target with
    | some (.htlc _) =>
        walletTransferDetailFlagSpent |||
          if out.isWalletOwnsRedeem then walletTransferDetailFlagHtlcRedeem else 0
    | _ => 0

/-- The transfer of an output. -/
def OwnOutput.transfer (out : OwnOutput) (tx : Transaction) (height : Nat) : IndexedTransfer where
  tx
  blockHeight := height
  internalOutputIndex := out.o
  flags := out.flags tx
  globalOutputIndex := out.globalOutputIndex
  keyImage := out.keyImage
  spentHeight := 0

/-- The records of an HTLC. -/
def recordHtlc (w : IndexedWallet) (txHash : Hash) (td : IndexedTransfer) (out : OwnOutput)
    (transferIndex : Nat) : IndexedWallet :=
  match td.htlcExpiration? with
  | none => w
  | some expiredIfMoreThen => { w with
      htlcs := w.htlcs ++ [(expiredIfMoreThen, ⟨out.isWalletOwnsRedeem, transferIndex⟩)]
      activeHtlcs := Function.update w.activeHtlcs (td.amount, td.globalOutputIndex)
        (some transferIndex)
      activeHtlcsTxid := Function.update w.activeHtlcsTxid txHash (some transferIndex) }

def recordKeyImage (w : IndexedWallet) (keyImage : KeyImage) (transferIndex : Nat) : IndexedWallet :=
  if keyImage = nullKi then w
  else { w with keyImages := Function.update w.keyImages keyImage (some transferIndex) }

def recordAmountGindex (w : IndexedWallet) (td : IndexedTransfer) (transferIndex : Nat) :
    IndexedWallet :=
  if w.watchOnly && w.auditable then { w with
    amountGindexToTransferId := Function.update w.amountGindexToTransferId
      (td.amount, td.globalOutputIndex) (some transferIndex) }
  else w

/-- An output of `process_new_transaction`; one whose key image was seen before is skipped. -/
def processOutput (w : IndexedWallet) (tx : Transaction) (txHash : Hash) (height : Nat)
    (out : OwnOutput) : IndexedWallet :=
  if out.keyImage ≠ nullKi ∧ (w.keyImages out.keyImage).isSome then w
  else
    let td := out.transfer tx height
    let transferIndex := w.transfers.length
    let w := { w with transfers := w.transfers ++ [td] }
    let w := w.recordHtlc txHash td out transferIndex
    let w := w.recordKeyImage out.keyImage transferIndex
    let w := { w with foundFreeAmounts := insertFreeAmount w.foundFreeAmounts td.amountWord transferIndex }
    w.recordAmountGindex td transferIndex

/-- `process_new_transaction`; the flag says that nothing was thrown. -/
def processNewTransaction (w : IndexedWallet) (tx : Transaction) (txHash : Hash) (height : Nat)
    (outs : List OwnOutput) : IndexedWallet × Bool :=
  match w.processInputs tx txHash height with
  | (w, []) => (outs.foldl (fun w out => w.processOutput tx txHash height out) w, true)
  | (w, _) => (w, false)

/-! ## Blocks -/

/-- The HTLCs that expire at a height. -/
def expiringHtlcs (w : IndexedWallet) (height : Nat) : List HtlcExpirationTrigger :=
  (w.htlcs.filter fun e => e.1 = height).map Prod.snd

/-- The key of a transfer in `m_active_htlcs`, and its transaction. -/
def activeKey (w : IndexedWallet) (i : Nat) : Option ((Nat × Nat) × Transaction) :=
  (w.transfers[i]?).map fun td => ((td.amount, td.globalOutputIndex), td.tx)

/-- The transfer of an HTLC that expires: the money stays with the other side or returns. -/
def expireHtlcTransfer (height : Nat) (w : IndexedWallet) (trigger : HtlcExpirationTrigger) :
    IndexedWallet :=
  let w :=
    if trigger.isWalletOwnsRedeem then
      w.modifyTransfer trigger.transferIndex (· ||| walletTransferDetailFlagSpent) fun _ => height
    else
      w.modifyTransfer trigger.transferIndex (· &&& ~~~walletTransferDetailFlagSpent) fun _ => 0
  { w with foundFreeAmounts := [] }

/-- An entry of `process_htlc_triggers_on_block_added`. -/
def deactivateHtlc (hash : Transaction → Hash) (height : Nat) (w : IndexedWallet)
    (trigger : HtlcExpirationTrigger) : IndexedWallet :=
  let w := w.expireHtlcTransfer height trigger
  match w.activeKey trigger.transferIndex with
  | none => w
  | some (key, tx) =>
      if (w.activeHtlcs key).isSome then { w with
        activeHtlcs := Function.update w.activeHtlcs key none
        activeHtlcsTxid := Function.update w.activeHtlcsTxid (hash tx) none }
      else w

def processHtlcTriggersOnBlockAdded (hash : Transaction → Hash) (w : IndexedWallet) (height : Nat) :
    IndexedWallet :=
  (w.expiringHtlcs height).foldl (deactivateHtlc hash height) w

/-- The transfer of an HTLC whose expiration is undone. -/
def unexpireHtlcTransfer (w : IndexedWallet) (trigger : HtlcExpirationTrigger) : IndexedWallet :=
  let w := w.modifyTransfer trigger.transferIndex (· ||| walletTransferDetailFlagSpent) fun _ => 0
  if trigger.isWalletOwnsRedeem then w else { w with foundFreeAmounts := [] }

/-- An entry of `unprocess_htlc_triggers_on_block_removed`. -/
def reactivateHtlc (hash : Transaction → Hash) (w : IndexedWallet)
    (trigger : HtlcExpirationTrigger) : IndexedWallet :=
  let w := w.unexpireHtlcTransfer trigger
  match w.activeKey trigger.transferIndex with
  | none => w
  | some (key, tx) => { w with
      activeHtlcs := Function.update w.activeHtlcs key (some trigger.transferIndex)
      activeHtlcsTxid := Function.update w.activeHtlcsTxid (hash tx) (some trigger.transferIndex) }

def unprocessHtlcTriggersOnBlockRemoved (hash : Transaction → Hash) (w : IndexedWallet)
    (height : Nat) : IndexedWallet :=
  (w.expiringHtlcs height).foldl (reactivateHtlc hash) w

/-! ## Detaching -/

/-- The key image and the global index of a transfer are forgotten; the flag says that
nothing was thrown. -/
def forgetKeyImage (w : IndexedWallet) (includingHeight i : Nat) (td : IndexedTransfer) :
    IndexedWallet × Bool :=
  let forgetGindex (w : IndexedWallet) : IndexedWallet := { w with
    amountGindexToTransferId := fun k =>
      if w.amountGindexToTransferId k = some i then none else w.amountGindexToTransferId k }
  if td.keyImage = nullKi ∧ w.watchOnly then (forgetGindex w, true)
  else if (w.keyImages td.keyImage).isNone ∨ td.blockHeight < includingHeight then (w, false)
  else
    (forgetGindex { w with keyImages := Function.update w.keyImages td.keyImage none }, true)

/-- One turn of the first loop of `detach_blockchain`. -/
def forgetTransfer (includingHeight : Nat) (w : IndexedWallet) (i : Nat) : IndexedWallet × Bool :=
  match w.transfers[i]? with
  | none => (w, true)
  | some td =>
      match td.htlcExpiration? with
      | none => w.forgetKeyImage includingHeight i td
      | some expirationHeight =>
          let isEntry (e : Nat × HtlcExpirationTrigger) : Bool :=
            e.1 = expirationHeight && e.2.transferIndex = i
          if w.htlcs.any isEntry then
            ({ w with htlcs := w.htlcs.eraseP isEntry } : IndexedWallet).forgetKeyImage
              includingHeight i td
          else (w, false)

def forgetTransfers (includingHeight : Nat) : List Nat → IndexedWallet → IndexedWallet × Bool
  | [], w => (w, true)
  | i :: rest, w =>
      match w.forgetTransfer includingHeight i with
      | (w, true) => forgetTransfers includingHeight rest w
      | (w, false) => (w, false)

/-- The first transfer that a detach erases. -/
def cutIndex (w : IndexedWallet) (includingHeight : Nat) : Nat :=
  w.transfers.findIdx fun td => includingHeight ≤ td.blockHeight

/-- `detach_blockchain`.  If it throws, no transfer is erased. -/
def detachBlockchain (hash : Transaction → Hash) (w : IndexedWallet) (includingHeight : Nat) :
    IndexedWallet :=
  let n := w.cutIndex includingHeight
  match forgetTransfers includingHeight (List.range' n (w.transfers.length - n)) w with
  | (w, false) => w
  | (w, true) =>
      let w := { w with transfers := w.transfers.take n }
      -- above the top the loop does not meet its end and runs down to the first block
      let last := if includingHeight ≤ w.blockchainCurrentSize then includingHeight else 0
      let heights := (List.range' last (w.blockchainCurrentSize - last)).reverse.filter (· ≠ 0)
      let w := heights.foldl (unprocessHtlcTriggersOnBlockRemoved hash) w
      { w with
        blockchainCurrentSize := includingHeight
        transfers := w.transfers.map fun td =>
          if td.spentHeight ≥ includingHeight then { td with spentHeight := 0 } else td }

/-- `reset_all`. -/
def resetAll (w : IndexedWallet) : IndexedWallet :=
  { w with
    transfers := []
    amountGindexToTransferId := fun _ => none
    keyImages := fun _ => none
    unconfirmedTxs := fun _ => none
    blockchainCurrentSize := 1 }

/-! ## Sending -/

/-- `add_transfers_to_expiration_list`, for indexes in range. -/
def addTransfersToExpirationList (w : IndexedWallet) (selectedTransfers : List Nat)
    (expiration : UInt64) : IndexedWallet :=
  let selectedTransfersLocal := selectedTransfers.filter fun i =>
    w.moneyExpirations.all fun e => i ∉ e.selectedTransfers
  if selectedTransfersLocal = [] then w
  else
    selectedTransfersLocal.foldl (fun w i => w.modifyTransfer i
      (· ||| walletTransferDetailFlagBlocked ||| walletTransferDetailFlagEscrowProposalReservation) id)
      { w with moneyExpirations := w.moneyExpirations ++ [⟨expiration, selectedTransfersLocal⟩] }

/-- The transfers whose key images a transaction spends. -/
def scanTxToKeyInputs (w : IndexedWallet) (tx : Transaction) : List Nat :=
  tx.vin.filterMap fun
    | .toKey input => w.keyImages input.kImage
    | _ => none

/-- The transfers that the inputs of a transaction of the pool spend, unless one throws. -/
def scanPoolInputs (w : IndexedWallet) : List Txin → Option (List Nat)
  | [] => some []
  | .toKey input :: rest => do
      let tid ← w.spentTransferId input
      let tids ← w.scanPoolInputs rest
      pure (tid.toList ++ tids)
  | _ :: rest => w.scanPoolInputs rest

/-- `mark_transfers_with_flag`, for indexes in range. -/
def markTransfersWithFlag (w : IndexedWallet) (selectedTransfers : List Nat) (flag : BitVec 32) :
    IndexedWallet :=
  selectedTransfers.foldl (fun w i => w.modifyTransfer i (· ||| flag) id) w

def clearTransfersFromFlag (w : IndexedWallet) (selectedTransfers : List Nat) (flag : BitVec 32) :
    IndexedWallet :=
  selectedTransfers.foldl (fun w i => w.modifyTransfer i (· &&& ~~~flag) id) w

/-- The cache that an operation on it leaves. -/
def withCache (w : IndexedWallet) (v : TransfersWallet) : IndexedWallet :=
  { w with foundFreeAmounts := v.foundFreeAmounts, fakeOutputsCount := v.fakeOutputsCount }

def selectTransfers (w : IndexedWallet) (neededMoney : UInt64) (fakeOutputsCount dust : Nat) :
    IndexSelection × IndexedWallet :=
  let (selection, v) := w.cacheView.selectTransfers neededMoney fakeOutputsCount dust
  (selection, w.withCache v)

def addTransfersToTransfersCache (w : IndexedWallet) (indexs : List Nat) : IndexedWallet :=
  w.withCache (w.cacheView.addTransfersToTransfersCache indexs)

/-- `add_sent_unconfirmed_tx`. -/
def addSentUnconfirmedTx (w : IndexedWallet) (txHash : Hash) (selectedIndicies : List Nat) :
    IndexedWallet :=
  { w with unconfirmedTxs := Function.update w.unconfirmedTxs txHash (some selectedIndicies) }

/-- The selections of `check_available_sources`; the first that finds too little ends them. -/
def holdSources (dust : Nat) : List UInt64 → IndexedWallet → List (List Nat) × IndexedWallet
  | [], w => ([], w)
  | am :: amounts, w =>
      match w.selectTransfers am 0 dust with
      | (selection, w) =>
          if selection.foundMoney < am then ([selection.selectedIndexes], w)
          else
            match holdSources dust amounts
              (w.markTransfersWithFlag selection.selectedIndexes walletTransferDetailFlagBlocked) with
            | (holds, w) => (selection.selectedIndexes :: holds, w)

def releaseHold (flag : BitVec 32) (w : IndexedWallet) (hold : List Nat) : IndexedWallet :=
  (w.clearTransfersFromFlag hold flag).addTransfersToTransfersCache hold

/-- `check_available_sources`, for sorted amounts. -/
def checkAvailableSources (w : IndexedWallet) (amounts : List UInt64) (dust : Nat) : IndexedWallet :=
  match holdSources dust amounts w with
  | (holds, w) => holds.foldl (releaseHold walletTransferDetailFlagBlocked) w

/-- The mark of the transfers of an escrow template. -/
def escrowTemplateMask : BitVec 32 :=
  walletTransferDetailFlagBlocked ||| walletTransferDetailFlagEscrowProposalReservation

/-- `send_escrow_proposal`, when its own transaction is not built: the exception clears the
cache if it comes from the wallet, and the transfers of the template are given back. -/
def failedEscrowProposal (w : IndexedWallet) (templateMoney proposalMoney : UInt64)
    (fakeOutputsCount dust : Nat) (exceptionHandler : Bool) : IndexedWallet :=
  match w.selectTransfers templateMoney fakeOutputsCount dust with
  | (template, w) =>
      let w := w.markTransfersWithFlag template.selectedIndexes escrowTemplateMask
      let w := (w.selectTransfers proposalMoney fakeOutputsCount dust).2
      let w := if exceptionHandler then { w with foundFreeAmounts := [] } else w
      releaseHold escrowTemplateMask w template.selectedIndexes

/-- A selection, and the transaction that is sent with it. -/
def select (hash : Transaction → Hash) (w : IndexedWallet)
    (neededMoney : UInt64) (fakeOutputsCount dust : Nat) (sent : Option Transaction) :
    IndexedWallet :=
  match w.selectTransfers neededMoney fakeOutputsCount dust, sent with
  | (_, w), none => w
  | (selection, w), some tx => w.addSentUnconfirmedTx (hash tx) selection.selectedIndexes

/-- A selection for a packing transaction, and the transaction that is sent with it. -/
def pack (hash : Transaction → Hash) (w : IndexedWallet)
    (fakeOutputsCount posMintPackingSize : Nat) (sent : Option Transaction) : IndexedWallet :=
  match w.cacheView.prepareTxSourcesForPacking fakeOutputsCount posMintPackingSize, sent with
  | (some selectedIndicies, v), some tx =>
      (w.withCache v).addSentUnconfirmedTx (hash tx) selectedIndicies
  | (_, v), _ => w.withCache v

/-- A transaction in the pool that spends transfers, in `scan_tx_pool`.  An index that is the
number of transfers passes its check. -/
def scanPoolTransaction (hash : Transaction → Hash) (w : IndexedWallet) (tx : Transaction) :
    IndexedWallet :=
  if (w.unconfirmedTxs (hash tx)).isSome then w
  else
    match w.scanPoolInputs tx.vin with
    | none => w
    | some tids =>
        let spendTransfers := tids.filter (· ≤ w.transfers.length)
        (w.markTransfersWithFlag spendTransfers walletTransferDetailFlagSpent).addSentUnconfirmedTx
          (hash tx) spendTransfers

/-- `handle_expiration_list`. -/
def handleExpirationList (w : IndexedWallet) (txExpirationTsMedian : UInt64) : IndexedWallet :=
  let expired (e : ExpirationEntryInfo) : Bool :=
    txExpirationTsMedian > e.expirationTime - txExpirationMedianShift.toUInt64
  { w with
    moneyExpirations := w.moneyExpirations.filter fun e => !expired e
    transfers := w.transfers.mapIdx fun i td =>
      if td.spentHeight = 0 ∧ (w.moneyExpirations.any fun e => expired e && i ∈ e.selectedTransfers)
      then { td with flags := clearBlockedFlags td.flags } else td }

/-- One turn of the last loop of `submit_transfer`. -/
def associateKeyImage (w : IndexedWallet) (transferIndex : Nat) (keyImage : KeyImage) :
    IndexedWallet :=
  if transferIndex < w.transfers.length then { w with
    transfers := w.transfers.modify transferIndex fun td => { td with keyImage }
    keyImages := Function.update w.keyImages keyImage (some transferIndex) }
  else w

/-- The global index of an output that was stored without one. -/
def prefetchGlobalIndex (w : IndexedWallet) (i globalOutputIndex : Nat) : IndexedWallet :=
  { w with transfers := w.transfers.modify i fun td => { td with globalOutputIndex } }

end IndexedWallet

/-! ## Runs -/

inductive IndexesEvent
  | processNewTransaction (tx : Transaction) (height : Nat) (outs : List IndexedWallet.OwnOutput)
  | blockAdded (height : Nat)
  | advance (blockchainCurrentSize coreTime : Nat)
  | detachBlockchain (includingHeight : Nat)
  | resetAll
  /-- Flags that change by a failed broadcast, an outdated transaction or the user. -/
  | changeFlags (change : Nat → BitVec 32 → BitVec 32)
  | prefetchGlobalIndex (i globalOutputIndex : Nat)
  | prepareFreeTransfersCache (fakeOutputsCount : Nat)
  | select (neededMoney : UInt64) (fakeOutputsCount dust : Nat) (sent : Option Transaction)
  | pack (fakeOutputsCount posMintPackingSize : Nat) (sent : Option Transaction)
  | checkAvailableSources (amounts : List UInt64) (dust : Nat)
  | failedEscrowProposal (templateMoney proposalMoney : UInt64) (fakeOutputsCount dust : Nat)
      (exceptionHandler : Bool)
  | clearCache
  /-- A proposal or a template of an escrow locks the transfers that it spends. -/
  | lockTransfers (tx : Transaction) (expiration : UInt64)
  | scanPoolTransaction (tx : Transaction)
  | forgetUnconfirmed (outdated : Hash → Bool)
  | handleExpirationList (txExpirationTsMedian : UInt64)
  /-- `submit_transfer` up to the key images; the selected transfers come from its file. -/
  | submitTransfer (tx : Transaction) (selectedTransfers : List Nat)
  | associateKeyImage (transferIndex : Nat) (keyImage : KeyImage)

namespace IndexedWallet

def step (hash : Transaction → Hash) (w : IndexedWallet) : IndexesEvent → IndexedWallet
  | .processNewTransaction tx height outs => (w.processNewTransaction tx (hash tx) height outs).1
  | .blockAdded height => processHtlcTriggersOnBlockAdded hash w height
  | .advance blockchainCurrentSize coreTime => { w with blockchainCurrentSize, coreTime }
  | .detachBlockchain includingHeight => detachBlockchain hash w includingHeight
  | .resetAll => w.resetAll
  | .changeFlags change =>
      { w with transfers := w.transfers.mapIdx fun i td => { td with flags := change i td.flags } }
  | .prefetchGlobalIndex i globalOutputIndex => w.prefetchGlobalIndex i globalOutputIndex
  | .prepareFreeTransfersCache fakeOutputsCount =>
      w.withCache (w.cacheView.prepareFreeTransfersCache fakeOutputsCount)
  | .select neededMoney fakeOutputsCount dust sent =>
      select hash w neededMoney fakeOutputsCount dust sent
  | .pack fakeOutputsCount posMintPackingSize sent =>
      pack hash w fakeOutputsCount posMintPackingSize sent
  | .checkAvailableSources amounts dust => w.checkAvailableSources amounts dust
  | .failedEscrowProposal templateMoney proposalMoney fakeOutputsCount dust exceptionHandler =>
      w.failedEscrowProposal templateMoney proposalMoney fakeOutputsCount dust exceptionHandler
  | .clearCache => { w with foundFreeAmounts := [] }
  | .lockTransfers tx expiration =>
      w.addTransfersToExpirationList (w.scanTxToKeyInputs tx) expiration
  | .scanPoolTransaction tx => scanPoolTransaction hash w tx
  | .forgetUnconfirmed outdated =>
      { w with unconfirmedTxs := fun k => if outdated k then none else w.unconfirmedTxs k }
  | .handleExpirationList txExpirationTsMedian => w.handleExpirationList txExpirationTsMedian
  | .submitTransfer tx selectedTransfers => w.addSentUnconfirmedTx (hash tx) selectedTransfers
  | .associateKeyImage transferIndex keyImage => w.associateKeyImage transferIndex keyImage

def run (hash : Transaction → Hash) (w : IndexedWallet) (events : List IndexesEvent) :
    IndexedWallet :=
  events.foldl (step hash) w

/-- A wallet that has processed nothing. -/
def empty (watchOnly auditable : Bool) : IndexedWallet where
  watchOnly
  auditable
  transfers := []
  keyImages := fun _ => none
  amountGindexToTransferId := fun _ => none
  htlcs := []
  activeHtlcs := fun _ => none
  activeHtlcsTxid := fun _ => none
  foundFreeAmounts := []
  fakeOutputsCount := 0
  moneyExpirations := []
  unconfirmedTxs := fun _ => none
  blockchainCurrentSize := 1
  coreTime := 0

end IndexedWallet

/-- The containers that `detach_blockchain` looks through. -/
def IndexContainer.cutByDetach : IndexContainer → Bool
  | keyImages | amountGindexToTransferId | htlcs => true
  | _ => false

/-- The containers that `reset_all` clears. -/
def IndexContainer.clearedByReset : IndexContainer → Bool
  | keyImages | amountGindexToTransferId | unconfirmedTxs => true
  | _ => false

namespace IndexedWallet

/-- Up to the index every transfer is below the height. -/
def BelowHeight (w : IndexedWallet) (height i : Nat) : Prop :=
  ∀ td ∈ w.transfers.take (i + 1), td.blockHeight < height

/-- The condition under which a step leaves no index behind. -/
def StepSafe (w : IndexedWallet) : IndexesEvent → Prop
  | .detachBlockchain includingHeight =>
      ∀ c i, c.cutByDetach = false → w.Holds c i → w.BelowHeight includingHeight i
  | .resetAll => ∀ c i, c.clearedByReset = false → ¬ w.Holds c i
  | .submitTransfer _ selectedTransfers => ∀ i ∈ selectedTransfers, i < w.transfers.length
  | .associateKeyImage transferIndex keyImage =>
      keyImage ≠ nullKi ∧ ∀ td, w.transfers[transferIndex]? = some td →
        td.keyImage = nullKi ∨ td.keyImage = keyImage
  | _ => True

def RunSafe (hash : Transaction → Hash) : IndexedWallet → List IndexesEvent → Prop
  | _, [] => True
  | w, event :: events => w.StepSafe event ∧ RunSafe hash (w.step hash event) events

end IndexedWallet

end Chinet
