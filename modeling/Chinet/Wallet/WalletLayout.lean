import Chinet.Offers.Market
import Chinet.Serialization.BoostArchive
import Chinet.Wallet.ChainShortener
import Chinet.Wallet.Escrow
import Chinet.Wallet.TransferIndexes

/-!
# What a wallet file holds

The containers of `wallet2` that its `serialize` lists, with the serializers of their elements.
What is listed and what is not decides what a wallet has after it was stored and loaded:

* of an HTLC option of a transfer only the origin is listed, and the id of the transaction that
  redeemed it is whatever the memory held;
* of an offer in the history the preview is not listed;
* of an entry of the history the fields of `DerivedInfo` are not listed:
  `load_wallet_transfer_info_flags` computes them from the transaction again.

Each class is saved and loaded at its present version.
-/

namespace Chinet.WalletFile

open Archive Archive.Layout BoostArchive

/-! ## The elements -/

structure TransactionWalletInfo where
  blockHeight : Nat
  blockTimestamp : Nat
  tx : Transaction
deriving DecidableEq

structure TransferDetailsBase where
  ptxWalletInfo : TransactionWalletInfo
  internalOutputIndex : Nat
  flags : BitVec 32
  spentHeight : Nat
deriving DecidableEq

/-- `transfer_details_extra_option_htlc_info` -/
structure HtlcInfo where
  origin : ByteString
  redeemTxId : Hash
deriving DecidableEq

/-- `transfer_details_extra_options_v` -/
inductive ExtraOption
  | htlcInfo (info : HtlcInfo)
  | payer (accAddr : AccountPublicAddress)
deriving DecidableEq

structure TransferDetails extends TransferDetailsBase where
  globalOutputIndex : Nat
  keyImage : KeyImage
  varianOptions : List ExtraOption
deriving DecidableEq

structure PaymentDetails where
  txHash : Hash
  amount : UInt64
  blockHeight : Nat
  unlockTime : Nat
deriving DecidableEq

/-- `expiration_entry_info` -/
structure ExpirationEntry where
  expirationTime : UInt64
  changeAmount : UInt64
  selectedTransfers : List Nat
  relatedTxId : Hash
deriving DecidableEq

/-- `offers_attachment_t` -/
inductive OffersAttachment
  | offer (details : OfferDetails)
  | update (offer : UpdateOffer)
  | cancel (offer : CancelOffer)

/-- The fields of `wallet_transfer_info` that its serializer lists. -/
structure StreamedInfo where
  amount : UInt64
  timestamp : Nat
  txHash : Hash
  height : Nat
  txBlobSize : Nat
  paymentId : ByteString
  remoteAddresses : List ByteString
  isIncome : Bool
  rcv : List Nat
  spn : List Nat
  tx : Transaction
  recipientsAliases : List ByteString
  comment : ByteString
  contract : List (EscrowContractDetails × Hash)
  selectedIndicies : List Nat
  marketplaceEntries : List OffersAttachment
  unlockTime : Nat
  serviceEntries : List TxServiceAttachment

/-- The fields that it does not list. -/
structure DerivedInfo where
  isService : Bool
  isMixing : Bool
  isMining : Bool
  txType : Nat
  fee : UInt64
  showSender : Bool
  extraFlags : Nat
  transferInternalIndex : Nat

/-- `wallet_transfer_info` -/
structure TransferInfo extends StreamedInfo, DerivedInfo

/-- The containers of `wallet2` that are stored. -/
structure WalletData where
  chain : WalletChainShortener Hash
  minimumHeight : Nat
  amountGindexToTransferId : Table (Nat × Nat) Nat
  transfers : List TransferDetails
  multisigTransfers : Table Hash TransferDetailsBase
  keyImages : Table KeyImage Nat
  unconfirmedTxs : Table Hash TransferInfo
  unconfirmedMultisigTransfers : Table Hash Unit
  payments : List (ByteString × PaymentDetails)
  transferHistory : List TransferInfo
  unconfirmedInTransfers : Table Hash Transaction
  contracts : Table Hash EscrowContractDetails
  moneyExpirations : List ExpirationEntry
  pendingKeyImages : Table PublicKey KeyImage
  txKeys : Table Hash SecretKey
  lastPowBlockH : Nat
  htlcs : List (Nat × HtlcExpirationTrigger)
  activeHtlcs : Table (Nat × Nat) Nat
  activeHtlcsTxid : Table Hash Nat

/-- What the memory holds where an element is made that the serializer does not fill. -/
structure Memory where
  redeemTxId : Hash
  derived : DerivedInfo

/-! ## Their serializers -/

variable (a : Format)

def transactionWalletInfo : Layout TransactionWalletInfo :=
  nothing
    |>.field (·.blockHeight) (fun v x => { x with blockHeight := v }) (number a)
    |>.field (·.blockTimestamp) (fun v x => { x with blockTimestamp := v }) (number a)
    |>.field (·.tx) (fun v x => { x with tx := v }) (transaction a)

@[simp] theorem transactionWalletInfo_loaded (memory x : TransactionWalletInfo) :
    (transactionWalletInfo a).loaded memory x = x := by
  simp [transactionWalletInfo]

def transferDetailsBase : Layout TransferDetailsBase :=
  nothing
    |>.field (·.ptxWalletInfo) (fun v x => { x with ptxWalletInfo := v }) (transactionWalletInfo a)
    |>.field (·.internalOutputIndex) (fun v x => { x with internalOutputIndex := v }) (number a)
    |>.field (·.flags) (fun v x => { x with flags := v }) (pod a)
    |>.field (·.spentHeight) (fun v x => { x with spentHeight := v }) (number a)

@[simp] theorem transferDetailsBase_loaded (memory x : TransferDetailsBase) :
    (transferDetailsBase a).loaded memory x = x := by
  simp [transferDetailsBase]

/-- Only the origin. -/
def htlcInfo : Layout HtlcInfo :=
  nothing |>.field (·.origin) (fun v x => { x with origin := v }) (text a)

def extraOption (mem : Memory) : Layout ExtraOption :=
  (sum a ⟨[], mem.redeemTxId⟩ newAddress (htlcInfo a) (accountPublicAddress a)).via
    (fun
      | .htlcInfo info => .inl info
      | .payer accAddr => .inr accAddr)
    (fun
      | .inl info => .htlcInfo info
      | .inr accAddr => .payer accAddr)

/-- An option as it comes back. -/
def ExtraOption.restored (mem : Memory) : ExtraOption → ExtraOption
  | .htlcInfo info => .htlcInfo { info with redeemTxId := mem.redeemTxId }
  | .payer accAddr => .payer accAddr

@[simp] theorem extraOption_loaded (mem : Memory) (memory x : ExtraOption) :
    (extraOption a mem).loaded memory x = x.restored mem := by
  cases x <;> simp [extraOption, htlcInfo, ExtraOption.restored]

def newTransferDetailsBase : TransferDetailsBase where
  ptxWalletInfo := { blockHeight := 0, blockTimestamp := 0, tx := newTransaction }
  internalOutputIndex := 0
  flags := 0
  spentHeight := 0

def newTransferDetails : TransferDetails :=
  { newTransferDetailsBase with globalOutputIndex := 0, keyImage := 0, varianOptions := [] }

def transferDetails (mem : Memory) : Layout TransferDetails :=
  nothing
    |>.field (·.globalOutputIndex) (fun v x => { x with globalOutputIndex := v }) (number a)
    |>.field (·.keyImage) (fun v x => { x with keyImage := v }) (pod a)
    |>.field (·.toTransferDetailsBase) (fun v x => { x with toTransferDetailsBase := v })
      (transferDetailsBase a)
    |>.field (·.varianOptions) (fun v x => { x with varianOptions := v })
      (list a (.payer newAddress) (extraOption a mem))

def TransferDetails.restored (mem : Memory) (td : TransferDetails) : TransferDetails :=
  { td with varianOptions := td.varianOptions.map (ExtraOption.restored mem) }

@[simp] theorem transferDetails_loaded (mem : Memory) (memory x : TransferDetails) :
    (transferDetails a mem).loaded memory x = x.restored mem := by
  have hoptions : (extraOption a mem).loaded (.payer newAddress) = ExtraOption.restored mem :=
    funext fun o => extraOption_loaded a mem _ o
  simp [transferDetails, TransferDetails.restored, list_loaded, hoptions]

def htlcExpirationTrigger : Layout HtlcExpirationTrigger :=
  nothing
    |>.field (·.isWalletOwnsRedeem) (fun v x => { x with isWalletOwnsRedeem := v }) (bool a)
    |>.field (·.transferIndex) (fun v x => { x with transferIndex := v }) (number a)

@[simp] theorem htlcExpirationTrigger_loaded (memory x : HtlcExpirationTrigger) :
    (htlcExpirationTrigger a).loaded memory x = x := by
  simp [htlcExpirationTrigger]

def paymentDetails : Layout PaymentDetails :=
  nothing
    |>.field (·.txHash) (fun v x => { x with txHash := v }) (pod a)
    |>.field (·.amount) (fun v x => { x with amount := v }) (uint64 a)
    |>.field (·.blockHeight) (fun v x => { x with blockHeight := v }) (number a)
    |>.field (·.unlockTime) (fun v x => { x with unlockTime := v }) (number a)

@[simp] theorem paymentDetails_loaded (memory x : PaymentDetails) :
    (paymentDetails a).loaded memory x = x := by
  simp [paymentDetails]

def expirationEntry : Layout ExpirationEntry :=
  nothing
    |>.field (·.expirationTime) (fun v x => { x with expirationTime := v }) (uint64 a)
    |>.field (·.changeAmount) (fun v x => { x with changeAmount := v }) (uint64 a)
    |>.field (·.selectedTransfers) (fun v x => { x with selectedTransfers := v })
      (list a 0 (number a))
    |>.field (·.relatedTxId) (fun v x => { x with relatedTxId := v }) (pod a)

@[simp] theorem expirationEntry_loaded (memory x : ExpirationEntry) :
    (expirationEntry a).loaded memory x = x := by
  simp [expirationEntry]

/-! ### Offers -/

def newOfferDetails : OfferDetails where
  offerType := 0
  amountPrimary := 0
  amountTarget := 0
  bonus := []
  target := []
  primary := []
  locationCountry := []
  locationCity := []
  contacts := []
  comment := []
  paymentTypes := []
  dealOption := []
  category := []
  previewUrl := []
  expirationTime := 0

/-- All but the preview. -/
def offerDetails : Layout OfferDetails :=
  nothing
    |>.field (·.offerType) (fun v x => { x with offerType := v }) (uint8 a)
    |>.field (·.amountPrimary) (fun v x => { x with amountPrimary := v }) (uint64 a)
    |>.field (·.amountTarget) (fun v x => { x with amountTarget := v }) (uint64 a)
    |>.field (·.bonus) (fun v x => { x with bonus := v }) (text a)
    |>.field (·.target) (fun v x => { x with target := v }) (text a)
    |>.field (·.primary) (fun v x => { x with primary := v }) (text a)
    |>.field (·.locationCountry) (fun v x => { x with locationCountry := v }) (text a)
    |>.field (·.locationCity) (fun v x => { x with locationCity := v }) (text a)
    |>.field (·.contacts) (fun v x => { x with contacts := v }) (text a)
    |>.field (·.comment) (fun v x => { x with comment := v }) (text a)
    |>.field (·.paymentTypes) (fun v x => { x with paymentTypes := v }) (text a)
    |>.field (·.expirationTime) (fun v x => { x with expirationTime := v }) (uint8 a)
    |>.field (·.category) (fun v x => { x with category := v }) (text a)
    |>.field (·.dealOption) (fun v x => { x with dealOption := v }) (text a)

/-- The preview is the one that the object had. -/
theorem offerDetails_loaded (memory x : OfferDetails) :
    (offerDetails a).loaded memory x = { x with previewUrl := memory.previewUrl } := by
  simp [offerDetails]

def updateOffer : Layout UpdateOffer :=
  nothing
    |>.field (·.of) (fun v x => { x with of := v }) (offerDetails a)
    |>.field (·.offerIndex) (fun v x => { x with offerIndex := v }) (uint64 a)
    |>.field (·.sig) (fun v x => { x with sig := v }) (pod a)
    |>.field (·.txId) (fun v x => { x with txId := v }) (pod a)

def cancelOffer : Layout CancelOffer :=
  nothing
    |>.field (·.offerIndex) (fun v x => { x with offerIndex := v }) (uint64 a)
    |>.field (·.sig) (fun v x => { x with sig := v }) (pod a)
    |>.field (·.txId) (fun v x => { x with txId := v }) (pod a)

def newUpdateOffer : UpdateOffer := { txId := 0, offerIndex := 0, sig := 0, of := newOfferDetails }

def newCancelOffer : CancelOffer := { txId := 0, offerIndex := 0, sig := 0 }

def offersAttachment : Layout OffersAttachment :=
  (sum a newOfferDetails (.inl newUpdateOffer) (offerDetails a)
    (sum a newUpdateOffer newCancelOffer (updateOffer a) (cancelOffer a))).via
    (fun
      | .offer details => .inl details
      | .update od => .inr (.inl od)
      | .cancel od => .inr (.inr od))
    (fun
      | .inl details => .offer details
      | .inr (.inl od) => .update od
      | .inr (.inr od) => .cancel od)

/-- The offer of an entry. -/
def OffersAttachment.details? : OffersAttachment → Option OfferDetails
  | .offer details => some details
  | .update od => some od.of
  | .cancel _ => none

def OffersAttachment.restored : OffersAttachment → OffersAttachment
  | .offer details => .offer { details with previewUrl := [] }
  | .update od => .update { od with of := { od.of with previewUrl := [] } }
  | .cancel od => .cancel od

@[simp] theorem offersAttachment_loaded (memory x : OffersAttachment) :
    (offersAttachment a).loaded memory x = x.restored := by
  cases x <;> simp [offersAttachment, updateOffer, cancelOffer, offerDetails_loaded,
    OffersAttachment.restored, newUpdateOffer, newOfferDetails]

/-! ### Contracts -/

def contractPrivateDetails : Layout ContractPrivateDetails :=
  nothing
    |>.field (·.title) (fun v x => { x with title := v }) (text a)
    |>.field (·.comment) (fun v x => { x with comment := v }) (text a)
    |>.field (·.aAddr) (fun v x => { x with aAddr := v }) (accountPublicAddress a)
    |>.field (·.bAddr) (fun v x => { x with bAddr := v }) (accountPublicAddress a)
    |>.field (·.amountToPay) (fun v x => { x with amountToPay := v }) (uint64 a)
    |>.field (·.amountAPledge) (fun v x => { x with amountAPledge := v }) (uint64 a)
    |>.field (·.amountBPledge) (fun v x => { x with amountBPledge := v }) (uint64 a)

@[simp] theorem contractPrivateDetails_loaded (memory x : ContractPrivateDetails) :
    (contractPrivateDetails a).loaded memory x = x := by
  simp [contractPrivateDetails]

/-- The numbers of `contract_state`. -/
def stateNumber : ContractState → Nat
  | .undefined => 0
  | .proposalSent => 1
  | .contractAccepted => 2
  | .contractReleasedNormal => 3
  | .contractReleasedBurned => 4
  | .contractCancelProposalSent => 5
  | .contractReleasedCancelled => 6

def stateOf : Nat → ContractState
  | 1 => .proposalSent
  | 2 => .contractAccepted
  | 3 => .contractReleasedNormal
  | 4 => .contractReleasedBurned
  | 5 => .contractCancelProposalSent
  | 6 => .contractReleasedCancelled
  | _ => .undefined

theorem stateOf_stateNumber (state : ContractState) : stateOf (stateNumber state) = state := by
  cases state <;> rfl

def proposalBody : Layout ProposalBody :=
  nothing
    |>.field (·.txOnetimeSecretKey) (fun v x => { x with txOnetimeSecretKey := v }) (pod a)
    |>.field (·.txTemplate) (fun v x => { x with txTemplate := v }) (transaction a)

def escrowReleseTemplatesBody : Layout EscrowReleseTemplatesBody :=
  nothing
    |>.field (·.txNormalTemplate) (fun v x => { x with txNormalTemplate := v }) (transaction a)
    |>.field (·.txBurnTemplate) (fun v x => { x with txBurnTemplate := v }) (transaction a)

def escrowCancelTemplatesBody : Layout EscrowCancelTemplatesBody :=
  nothing
    |>.field (·.txCancelTemplate) (fun v x => { x with txCancelTemplate := v }) (transaction a)

def escrowContractDetailsBasic : Layout EscrowContractDetails :=
  nothing
    |>.field (·.state) (fun v x => { x with state := v }) ((number a).via stateNumber stateOf)
    |>.field (·.isA) (fun v x => { x with isA := v }) (bool a)
    |>.field (·.privateDetailes) (fun v x => { x with privateDetailes := v })
      (contractPrivateDetails a)
    |>.field (·.expirationTime) (fun v x => { x with expirationTime := v }) (number a)
    |>.field (·.cancelExpirationTime) (fun v x => { x with cancelExpirationTime := v }) (number a)
    |>.field (·.timestamp) (fun v x => { x with timestamp := v }) (number a)
    |>.field (·.height) (fun v x => { x with height := v }) (number a)
    |>.field (·.paymentId) (fun v x => { x with paymentId := v }) (text a)
    |>.field (·.proposal) (fun v x => { x with proposal := v }) (proposalBody a)
    |>.field (·.releaseBody) (fun v x => { x with releaseBody := v }) (escrowReleseTemplatesBody a)
    |>.field (·.cancelBody) (fun v x => { x with cancelBody := v }) (escrowCancelTemplatesBody a)

/-- A contract comes back whole. -/
@[simp] theorem escrowContractDetailsBasic_loaded (memory x : EscrowContractDetails) :
    (escrowContractDetailsBasic a).loaded memory x = x := by
  simp [escrowContractDetailsBasic, proposalBody, escrowReleseTemplatesBody,
    escrowCancelTemplatesBody, stateOf_stateNumber]

/-! ### The history -/

def txServiceAttachment : Layout TxServiceAttachment :=
  nothing
    |>.field (·.serviceId) (fun v x => { x with serviceId := v }) (text a)
    |>.field (·.security) (fun v x => { x with security := v }) (list a 0 (pod a))
    |>.field (·.instruction) (fun v x => { x with instruction := v }) (text a)
    |>.field (·.body) (fun v x => { x with body := v }) (text a)
    |>.field (·.flags) (fun v x => { x with flags := v }) (uint8 a)

@[simp] theorem txServiceAttachment_loaded (memory x : TxServiceAttachment) :
    (txServiceAttachment a).loaded memory x = x := by
  simp [txServiceAttachment]

def newServiceAttachment : TxServiceAttachment where
  serviceId := []
  instruction := []
  body := []
  security := []
  flags := 0

def newStreamedInfo : StreamedInfo where
  amount := 0
  timestamp := 0
  txHash := 0
  height := 0
  txBlobSize := 0
  paymentId := []
  remoteAddresses := []
  isIncome := false
  rcv := []
  spn := []
  tx := newTransaction
  recipientsAliases := []
  comment := []
  contract := []
  selectedIndicies := []
  marketplaceEntries := []
  unlockTime := 0
  serviceEntries := []

def streamedInfo : Layout StreamedInfo :=
  nothing
    |>.field (·.amount) (fun v x => { x with amount := v }) (uint64 a)
    |>.field (·.timestamp) (fun v x => { x with timestamp := v }) (number a)
    |>.field (·.txHash) (fun v x => { x with txHash := v }) (pod a)
    |>.field (·.height) (fun v x => { x with height := v }) (number a)
    |>.field (·.txBlobSize) (fun v x => { x with txBlobSize := v }) (number a)
    |>.field (·.paymentId) (fun v x => { x with paymentId := v }) (text a)
    |>.field (·.remoteAddresses) (fun v x => { x with remoteAddresses := v }) (list a [] (text a))
    |>.field (·.isIncome) (fun v x => { x with isIncome := v }) (bool a)
    |>.field (·.rcv) (fun v x => { x with rcv := v }) (list a 0 (number a))
    |>.field (·.spn) (fun v x => { x with spn := v }) (list a 0 (number a))
    |>.field (·.tx) (fun v x => { x with tx := v }) (transaction a)
    |>.field (·.recipientsAliases) (fun v x => { x with recipientsAliases := v })
      (list a [] (text a))
    |>.field (·.comment) (fun v x => { x with comment := v }) (text a)
    |>.field (·.contract) (fun v x => { x with contract := v })
      (list a (emptyContract, 0) (pair (escrowContractDetailsBasic a) (pod a)))
    |>.field (·.selectedIndicies) (fun v x => { x with selectedIndicies := v })
      (list a 0 (number a))
    |>.field (·.marketplaceEntries) (fun v x => { x with marketplaceEntries := v })
      (list a (.offer newOfferDetails) (offersAttachment a))
    |>.field (·.unlockTime) (fun v x => { x with unlockTime := v }) (number a)
    |>.field (·.serviceEntries) (fun v x => { x with serviceEntries := v })
      (list a newServiceAttachment (txServiceAttachment a))

def StreamedInfo.restored (x : StreamedInfo) : StreamedInfo :=
  { x with marketplaceEntries := x.marketplaceEntries.map OffersAttachment.restored }

@[simp] theorem streamedInfo_loaded (memory x : StreamedInfo) :
    (streamedInfo a).loaded memory x = x.restored := by
  have hoffers : (offersAttachment a).loaded (.offer newOfferDetails) = OffersAttachment.restored :=
    funext fun o => offersAttachment_loaded a _ o
  have hentries : ∀ entries memory, (list a (.offer newOfferDetails) (offersAttachment a)).loaded
      memory entries = entries.map OffersAttachment.restored := fun entries memory => by
    rw [list_loaded, hoffers]
  simp [streamedInfo, StreamedInfo.restored, hentries]

/-- `wallet_transfer_info` is loaded into an object whose other fields nothing has set. -/
def transferInfo : Layout TransferInfo :=
  nothing
    |>.field (·.toStreamedInfo) (fun v x => { x with toStreamedInfo := v }) (streamedInfo a)

def TransferInfo.restored (mem : Memory) (wti : TransferInfo) : TransferInfo :=
  ⟨wti.toStreamedInfo.restored, mem.derived⟩

theorem transferInfo_loaded (mem : Memory) :
    (transferInfo a).loaded ⟨newStreamedInfo, mem.derived⟩ = TransferInfo.restored mem := by
  funext wti
  simp [transferInfo, TransferInfo.restored]

/-! ## The wallet -/

def currencyFormationVersion : Nat := 84

/-- `WALLET_FILE_SERIALIZATION_VERSION` -/
def walletFileSerializationVersion : Nat := currencyFormationVersion + 69

def walletChainShortener : Layout (WalletChainShortener Hash) :=
  nothing
    |>.field (·.localBcSize) (fun v x => { x with localBcSize := v }) (number a)
    |>.field (·.genesis) (fun v x => { x with genesis := v }) (pod a)
    |>.field (·.last20Blocks) (fun v x => { x with last20Blocks := v })
      (list a (0, 0) (pair (number a) (pod a)))
    |>.field (·.last144BlocksEvery10) (fun v x => { x with last144BlocksEvery10 := v })
      (list a (0, 0) (pair (number a) (pod a)))
    |>.field (·.last144BlocksEvery100) (fun v x => { x with last144BlocksEvery100 := v })
      (list a (0, 0) (pair (number a) (pod a)))
    |>.field (·.last144BlocksEvery1000) (fun v x => { x with last144BlocksEvery1000 := v })
      (list a (0, 0) (pair (number a) (pod a)))

@[simp] theorem walletChainShortener_loaded (memory x : WalletChainShortener Hash) :
    (walletChainShortener a).loaded memory x = x := by
  simp [walletChainShortener]

/-- The chain and the minimum height. -/
def chainPart : Layout WalletData :=
  nothing
    |>.field (·.chain) (fun v x => { x with chain := v }) (walletChainShortener a)
    |>.field (·.minimumHeight) (fun v x => { x with minimumHeight := v }) (number a)

/-- What version 151 has added. -/
def gindexPart : Layout WalletData :=
  nothing
    |>.field (·.amountGindexToTransferId) (fun v x => { x with amountGindexToTransferId := v })
      (table a (0, 0) 0 (pair (number a) (number a)) (number a))

/-- What every version lists. -/
def commonPart (mem : Memory) : Layout WalletData :=
  nothing
    |>.field (·.transfers) (fun v x => { x with transfers := v })
      (list a newTransferDetails (transferDetails a mem))
    |>.field (·.multisigTransfers) (fun v x => { x with multisigTransfers := v })
      (table a 0 newTransferDetailsBase (pod a) (transferDetailsBase a))
    |>.field (·.keyImages) (fun v x => { x with keyImages := v }) (table a 0 0 (pod a) (number a))
    |>.field (·.unconfirmedTxs) (fun v x => { x with unconfirmedTxs := v })
      (table a 0 ⟨newStreamedInfo, mem.derived⟩ (pod a) (transferInfo a))
    |>.field (·.unconfirmedMultisigTransfers)
      (fun v x => { x with unconfirmedMultisigTransfers := v }) (table a 0 () (pod a) nothing)
    |>.field (·.payments) (fun v x => { x with payments := v })
      (list a ([], ⟨0, 0, 0, 0⟩) (pair (text a) (paymentDetails a)))
    |>.field (·.transferHistory) (fun v x => { x with transferHistory := v })
      (list a ⟨newStreamedInfo, mem.derived⟩ (transferInfo a))
    |>.field (·.unconfirmedInTransfers) (fun v x => { x with unconfirmedInTransfers := v })
      (table a 0 newTransaction (pod a) (transaction a))
    |>.field (·.contracts) (fun v x => { x with contracts := v })
      (table a 0 emptyContract (pod a) (escrowContractDetailsBasic a))
    |>.field (·.moneyExpirations) (fun v x => { x with moneyExpirations := v })
      (list a ⟨0, 0, [], 0⟩ (expirationEntry a))
    |>.field (·.pendingKeyImages) (fun v x => { x with pendingKeyImages := v })
      (table a 0 0 (pod a) (pod a))
    |>.field (·.txKeys) (fun v x => { x with txKeys := v }) (table a 0 0 (pod a) (pod a))
    |>.field (·.lastPowBlockH) (fun v x => { x with lastPowBlockH := v }) (number a)

/-- What version 153 has added. -/
def htlcPart : Layout WalletData :=
  nothing
    |>.field (·.htlcs) (fun v x => { x with htlcs := v })
      (list a (0, ⟨false, 0⟩) (pair (number a) (htlcExpirationTrigger a)))
    |>.field (·.activeHtlcs) (fun v x => { x with activeHtlcs := v })
      (table a (0, 0) 0 (pair (number a) (number a)) (number a))
    |>.field (·.activeHtlcsTxid) (fun v x => { x with activeHtlcsTxid := v })
      (table a 0 0 (pod a) (number a))

/-- The conversion of a chain that was stored as the list of its ids. -/
def convertOldBlockchain (memory : WalletData) (s : List UInt8) :
    Option (WalletData × List UInt8) :=
  ((list a 0 (pod a)).load [] s).bind fun found =>
    match found.1.zipIdx.foldlM (fun chain (h, count) => chain.pushNewBlockId h count)
        memory.chain with
    | .ok chain => some ({ memory with chain }, found.2)
    | .error _ => none

/-- `wipeout_extra_if_needed` -/
def wipeoutExtraIfNeeded (watchOnly : Bool) (history : List TransferInfo) : List TransferInfo :=
  history.map fun wti =>
    if wti.height > 638000 then
      { wti with
        remoteAddresses := []
        comment := if watchOnly && !wti.isIncome then [] else wti.comment }
    else wti

/-- The fields after `CURRENCY_FORMATION_VERSION`, as a version has listed them. -/
def loadFields (mem : Memory) (watchOnly : Bool) (ver : Nat) (memory : WalletData)
    (s : List UInt8) : Option (WalletData × List UInt8) :=
  (if ver < 150 then convertOldBlockchain a memory s else (chainPart a).load memory s).bind
    fun found =>
  (if 151 ≤ ver then (gindexPart a).load found.1 found.2 else some found).bind fun found =>
  ((commonPart a mem).load found.1 found.2).bind fun found =>
    let w := if ver < 152 then
        { found.1 with transferHistory := wipeoutExtraIfNeeded watchOnly found.1.transferHistory }
      else found.1
    if ver < 153 then some (w, found.2) else (htlcPart a).load w found.2

/-- The loading side of `serialize`; where it gives up nothing has gone wrong. -/
def loadData (mem : Memory) (watchOnly : Bool) (memory : WalletData) (s : List UInt8) :
    Option (WalletData × List UInt8) :=
  (a.readNumber s).bind fun ver =>
    if ver.1 > walletFileSerializationVersion then some (memory, ver.2)
    else if ver.1 < 149 then some (memory, ver.2)
    else (a.readNumber ver.2).bind fun formation =>
      if formation.1 ≠ currencyFormationVersion then some (memory, formation.2)
      else loadFields a mem watchOnly ver.1 memory formation.2

/-- `wallet2::serialize` -/
def serialize (mem : Memory) (watchOnly : Bool) : Layout WalletData where
  save x := a.writeNumber walletFileSerializationVersion ++
    (a.writeNumber currencyFormationVersion ++
      ((chainPart a).save x ++ ((gindexPart a).save x ++
        ((commonPart a mem).save x ++ (htlcPart a).save x))))
  load := loadData a mem watchOnly
  loaded memory x := (htlcPart a).loaded ((commonPart a mem).loaded
    ((gindexPart a).loaded ((chainPart a).loaded memory x) x) x) x
  load_save memory x rest := by
    simp only [loadData, List.append_assoc, a.number_read, Option.bind_some]
    rw [if_neg (by decide), if_neg (by decide), if_neg (by simp)]
    rw [loadFields, if_neg (by decide), (chainPart a).load_save, Option.bind_some,
      if_pos (by decide), (gindexPart a).load_save, Option.bind_some, (commonPart a mem).load_save,
      Option.bind_some]
    exact (htlcPart a).load_save _ x rest

/-- The containers as they come back. -/
def WalletData.restored (mem : Memory) (w : WalletData) : WalletData :=
  { w with
    transfers := w.transfers.map (TransferDetails.restored mem)
    unconfirmedTxs := w.unconfirmedTxs.mapValues (TransferInfo.restored mem)
    transferHistory := w.transferHistory.map (TransferInfo.restored mem) }

theorem table_loaded_self {κ ν : Type} [DecidableEq κ] {newKey : κ} {newValue : ν} {k : Layout κ}
    {v : Layout ν} (hk : ∀ memory x, k.loaded memory x = x)
    (hv : ∀ memory x, v.loaded memory x = x) (memory t : Table κ ν) :
    (table a newKey newValue k v).loaded memory t = t := by
  rw [table_loaded a newKey newValue v hk]
  exact Table.mapValues_id fun e _ => hv _ e.2

/-- Every container is listed, and comes back as its elements do. -/
theorem serialize_loaded (mem : Memory) (watchOnly : Bool) (memory x : WalletData) :
    (serialize a mem watchOnly).loaded memory x = x.restored mem := by
  have htransfers : ∀ memory xs, (list a newTransferDetails (transferDetails a mem)).loaded memory
      xs = xs.map (TransferDetails.restored mem) := fun memory xs => by
    rw [list_loaded]
    exact List.map_congr_left fun td _ => transferDetails_loaded a mem _ td
  have hhistory : ∀ memory xs, (list a ⟨newStreamedInfo, mem.derived⟩ (transferInfo a)).loaded
      memory xs = xs.map (TransferInfo.restored mem) := fun memory xs => by
    rw [list_loaded, transferInfo_loaded]
  have hunconfirmed : ∀ memory t, (table a (0 : Hash) ⟨newStreamedInfo, mem.derived⟩ (pod a)
      (transferInfo a)).loaded memory t = t.mapValues (TransferInfo.restored mem) :=
    fun memory t => by
      rw [table_loaded a _ _ _ (pod_loaded a), transferInfo_loaded]
  simp [serialize, chainPart, gindexPart, commonPart, htlcPart, WalletData.restored, htransfers,
    hhistory, table_loaded_self a]
  exact hunconfirmed _ _

end Chinet.WalletFile
