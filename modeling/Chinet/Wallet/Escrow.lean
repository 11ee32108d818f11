import Chinet.Account.SeedPhrase
import Chinet.FormatUtils
import Mathlib.Logic.Function.Basic
import Mathlib.Logic.Relation

/-!
# Escrow contracts of a wallet

`wallet2::process_contract_info` with its four handlers, the validation of
`wallet2_escrow.cpp` and `handle_contract_expirations`.

A contract is stored under the id of its multisig output.  The attachments of a
transaction are read in their order; a handler that refuses changes nothing, and the
next attachment is read.  An attachment that cannot be unpacked, or an exception, ends
the reading.

The transfers that a proposal of the wallet itself locks are left out.
-/

namespace Chinet

/-! ## Data -/

def txDefaultFee : UInt64 := 10000000000

def txServiceAttachmentEncryptBody : UInt8 := 1

/-- `"E"`. -/
def bcEscrowServiceId : ByteString := [69]
/-- `"PROP"`. -/
def instructionProposal : ByteString := [80, 82, 79, 80]
/-- `"REL_TEMPL"`. -/
def instructionReleaseTemplates : ByteString := [82, 69, 76, 95, 84, 69, 77, 80, 76]
/-- `"CAN_PROP"`. -/
def instructionCancelProposal : ByteString := [67, 65, 78, 95, 80, 82, 79, 80]
/-- `"REL_N"`. -/
def instructionReleaseNormal : ByteString := [82, 69, 76, 95, 78]
/-- `"REL_C"`. -/
def instructionReleaseCancel : ByteString := [82, 69, 76, 95, 67]
/-- `"REL_B"`. -/
def instructionReleaseBurn : ByteString := [82, 69, 76, 95, 66]
/-- `"DETAILS"`. -/
def instructionPrivateDetails : ByteString := [68, 69, 84, 65, 73, 76, 83]
/-- `"P"`. -/
def bcPaymentIdServiceId : ByteString := [80]

structure TxServiceAttachment where
  serviceId : ByteString
  instruction : ByteString
  body : ByteString
  security : List PublicKey
  flags : UInt8
deriving DecidableEq

structure ContractPrivateDetails where
  title : ByteString
  comment : ByteString
  aAddr : AccountPublicAddress
  bAddr : AccountPublicAddress
  amountToPay : UInt64
  amountAPledge : UInt64
  amountBPledge : UInt64
deriving DecidableEq

structure ProposalBody where
  txTemplate : Transaction
  txOnetimeSecretKey : SecretKey
deriving DecidableEq

structure EscrowReleseTemplatesBody where
  txNormalTemplate : Transaction
  txBurnTemplate : Transaction
deriving DecidableEq

structure EscrowCancelTemplatesBody where
  txCancelTemplate : Transaction
deriving DecidableEq

/-- `contract_state`; a contract is `undefined` only between its creation and its
first change. -/
inductive ContractState
  | undefined
  | proposalSent
  | contractAccepted
  | contractReleasedNormal
  | contractReleasedBurned
  | contractCancelProposalSent
  | contractReleasedCancelled
deriving DecidableEq

/-- `escrow_contract_details_basic`. -/
structure EscrowContractDetails where
  state : ContractState
  isA : Bool
  privateDetailes : ContractPrivateDetails
  expirationTime : Nat
  cancelExpirationTime : Nat
  timestamp : Nat
  height : Nat
  paymentId : ByteString
  proposal : ProposalBody
  releaseBody : EscrowReleseTemplatesBody
  cancelBody : EscrowCancelTemplatesBody
deriving DecidableEq

def emptyTransaction : Transaction where
  version := 0
  extra := []
  vin := []
  vout := []
  signatures := []
  attachment := []

def emptyAddress : AccountPublicAddress := { spendPublicKey := 0, viewPublicKey := 0, flags := 0 }

/-- A value-initialized entry of `m_contracts`. -/
def emptyContract : EscrowContractDetails where
  state := .undefined
  isA := false
  privateDetailes := {
    title := []
    comment := []
    aAddr := emptyAddress
    bAddr := emptyAddress
    amountToPay := 0
    amountAPledge := 0
    amountBPledge := 0 }
  expirationTime := 0
  cancelExpirationTime := 0
  timestamp := 0
  height := 0
  paymentId := []
  proposal := { txTemplate := emptyTransaction, txOnetimeSecretKey := 0 }
  releaseBody := { txNormalTemplate := emptyTransaction, txBurnTemplate := emptyTransaction }
  cancelBody := { txCancelTemplate := emptyTransaction }

/-- `m_contracts`, by the id of the multisig output. -/
abbrev EscrowContracts := Hash → Option EscrowContractDetails

/-- The part of `wallet_transfer_info` that the handlers read or write. -/
structure WalletTransferInfo where
  tx : Transaction
  height : Nat
  timestamp : Nat
  isIncome : Bool
  paymentId : ByteString
  amount : UInt64
  fee : UInt64
  contract : Option (Hash × EscrowContractDetails)
deriving DecidableEq

/-- What the wallet takes from `crypto/` and from the serializers. -/
structure EscrowPrimitives where
  crypto : CryptoPrimitives
  /-- The service attachment that an item holds. -/
  asServiceAttachment? : PayloadItem → Option TxServiceAttachment
  decryptPayloadItems : Bool → Transaction → AccountKeys → Option (List PayloadItem)
  unserializeProposal : ByteString → Option ProposalBody
  unserializeReleaseTemplates : ByteString → Option EscrowReleseTemplatesBody
  unserializeCancelTemplates : ByteString → Option EscrowCancelTemplatesBody
  loadPrivateDetails : ByteString → Option ContractPrivateDetails
  generateKeyDerivation : PublicKey → SecretKey → Option (BitVec 256)
  derivePublicKey : BitVec 256 → Nat → PublicKey → Option PublicKey
  /-- `lookup_acc_outs`; the wallet throws where it fails. -/
  lookupAccOuts : AccountKeys → Transaction → Bool

/-- The wallet around the contracts: its keys and `m_multisig_transfers`, each with
its transaction. -/
structure EscrowWallet where
  primitives : EscrowPrimitives
  keys : AccountKeys
  multisigTransfers : Hash → Option Transaction

/-! ## Helpers -/

/-- A result that is there, or a refusal. -/
def orReject {α : Type} : Option α → Except Failure α
  | some a => .ok a
  | none => .error .rejected

def getTxMaxUnlockTime (tx : Transaction) : Except Failure Nat := do
  let (maxUnlockTime, _) ← getTxMaxMinUnlockTime tx.toTransactionPrefix
  return maxUnlockTime

def TxoutTarget.isMultisig : TxoutTarget → Bool
  | multisig _ => true
  | _ => false

/-- `get_multisig_out_index`: the number of outputs when there is none. -/
def getMultisigOutIndex (outs : List TxOut) : Nat :=
  outs.findIdx (·.target.isMultisig)

/-- The id in the first multisig input. -/
def firstMultisigInput? (inputs : List Txin) : Option Hash :=
  inputs.findSome? Txin.multisigOutId?

section

variable (wallet : EscrowWallet)

/-- `get_first_service_attachment_by_id`. -/
def getFirstServiceAttachmentById (items : List PayloadItem) (id instruction : ByteString) :
    Option TxServiceAttachment :=
  (items.filterMap wallet.primitives.asServiceAttachment?).find? fun tsa =>
    tsa.serviceId = id && tsa.instruction = instruction

/-- `get_payment_id_from_tx`; with `none` the caller's `payment_id` stays as it is. -/
def getPaymentIdFromTx (items : List PayloadItem) : Option ByteString :=
  (getFirstServiceAttachmentById wallet items bcPaymentIdServiceId []).map
    TxServiceAttachment.body

/-- `generate_key_derivation` and `derive_public_key`. -/
def deriveFor (viewPublicKey : PublicKey) (secretKey : SecretKey) (n : Nat)
    (spendPublicKey : PublicKey) : Except Failure PublicKey := do
  let der ← orReject (wallet.primitives.generateKeyDerivation viewPublicKey secretKey)
  orReject (wallet.primitives.derivePublicKey der n spendPublicKey)

/-- `get_minimum_allowed_fee_for_contract`. -/
def getMinimumAllowedFeeForContract (msId : Hash) : UInt64 :=
  match wallet.multisigTransfers msId with
  | none => txMinimumFee
  | some tx => min (getTxFee tx.toTransactionPrefix) txMinimumFee

/-! ## Validation of a proposal -/

/-- The sum of the inputs of a template, which must sign all of it. -/
def templateInputsAmount (template : Transaction) : UInt64 → List Txin → Except Failure UInt64
  | amount, [] => .ok amount
  | amount, .toKey input :: rest =>
      match input.etcDetails.findSome? TxinEtcDetails.asSignedParts? with
      | none => .error .rejected
      | some (nOuts, nExtras) => do
          require (nExtras = template.extra.length)
          require (nOuts = template.vout.length)
          templateInputsAmount template (amount + input.amount) rest
  | _, _ :: _ => .error .rejected

/-- The sum of the key outputs and the number of the only multisig output. -/
def templateOutputs : UInt64 → Option Nat → Nat → List TxOut → Except Failure (UInt64 × Option Nat)
  | toKeyAmount, msOutIndex, _, [] => .ok (toKeyAmount, msOutIndex)
  | toKeyAmount, msOutIndex, i, out :: rest =>
      match out.target with
      | .multisig _ => do
          require msOutIndex.isNone
          templateOutputs toKeyAmount (some i) (i + 1) rest
      | .toKey _ => templateOutputs (toKeyAmount + out.amount) msOutIndex (i + 1) rest
      | .htlc _ => .error .rejected

/-- The multisig output of a proposal: two keys, one of each party, in any order. -/
def validateProposalMultisig (prop : ProposalBody) (cpd : ContractPrivateDetails) (msOutIndex : Nat)
    (msAmount : UInt64) (ms : TxoutMultisig) : Check := do
  require (ms.minimumSigs = 2)
  require (ms.keys.length = 2)
  let aKey ← deriveFor wallet cpd.aAddr.viewPublicKey prop.txOnetimeSecretKey msOutIndex
    cpd.aAddr.spendPublicKey
  let bKey ← deriveFor wallet cpd.bAddr.viewPublicKey prop.txOnetimeSecretKey msOutIndex
    cpd.bAddr.spendPublicKey
  require (ms.keys = [aKey, bKey] || ms.keys = [bKey, aKey])
  require (cpd.amountBPledge + cpd.amountToPay > 0)
  require (msAmount ≥ cpd.amountAPledge + cpd.amountBPledge + cpd.amountToPay + txDefaultFee)

/-- `validate_escrow_proposal`; returns the decrypted items, the id of the contract and
its details. -/
def validateEscrowProposal (wti : WalletTransferInfo) (prop : ProposalBody) :
    Except Failure (List PayloadItem × Hash × ContractPrivateDetails) := do
  let unlockTime ← getTxMaxUnlockTime wti.tx
  require (unlockTime = 0)
  require (getTxExpirationTime wti.tx.toTransactionPrefix = 0)
  let template := prop.txTemplate
  require (template.vin != [])
  let inputsAmount ← templateInputsAmount template 0 template.vin
  let decryptedItems ← orReject
    (wallet.primitives.decryptPayloadItems wti.isIncome template wallet.keys)
  let details ← orReject
    (getFirstServiceAttachmentById wallet decryptedItems bcEscrowServiceId instructionPrivateDetails)
  let cpd ← orReject (wallet.primitives.loadPrivateDetails details.body)
  require (getTxFlags template.toTransactionPrefix = txFlagSignatureModeSeparate)
  require (getTxExpirationTime template.toTransactionPrefix != 0)
  let templateUnlockTime ← getTxMaxUnlockTime template
  require (templateUnlockTime = 0)
  let (toKeyOutputsAmount, msOutIndex?) ← templateOutputs 0 none 0 template.vout
  let msOutIndex ← orReject msOutIndex?
  let msId := getMultisigOutId wallet.primitives.crypto template.toTransactionPrefix msOutIndex
  match template.vout[msOutIndex]? with
  | some { amount, target := .multisig ms } => do
      validateProposalMultisig wallet prop cpd msOutIndex amount ms
      require (inputsAmount > toKeyOutputsAmount)
      require (inputsAmount - toKeyOutputsAmount ≥ cpd.amountAPledge + cpd.amountToPay)
      return (decryptedItems, msId, cpd)
  | _ => .error .thrown

/-! ## Validation of release templates -/

/-- The input of a template that spends the multisig output of a contract. -/
def validateTemplateInput (tx : Transaction) (sourceMsOut : TxoutMultisig) (msId : Hash)
    (sourceAmount minMsAmount : UInt64) : Except Failure TxinMultisig := do
  match tx.vin with
  | [.multisig ms] => do
      require (ms.multisigOutId = msId)
      require (sourceMsOut.minimumSigs = 2)
      require (ms.sigsCount = sourceMsOut.minimumSigs)
      require (ms.amount = sourceAmount)
      require (ms.amount ≥ minMsAmount)
      require (ms.etcDetails.findSome? TxinEtcDetails.asSignedParts?).isNone
      require (ms.etcDetails.findSome? TxinEtcDetails.asAttachmentInfo?).isNone
      return ms
  | _ => .error .rejected

/-- The extra of a template: no flags, no unlock time and one service attachment. -/
def validateTemplateExtra (tx : Transaction) (expires : Bool) : Except Failure TxServiceAttachment := do
  require (getTxFlags tx.toTransactionPrefix = 0)
  require (expires == (getTxExpirationTime tx.toTransactionPrefix != 0))
  let unlockTime ← getTxMaxUnlockTime tx
  require (unlockTime = 0)
  match tx.extra.filterMap wallet.primitives.asServiceAttachment? with
  | [tsa] => do
      require (tsa.flags = 0)
      require (tsa.serviceId = bcEscrowServiceId)
      return tsa
  | _ => .error .rejected

/-- The sums of all outputs, of those to the key derived for the party, and of those to
the null key. -/
structure TemplateOutputs where
  total : UInt64
  toParty : UInt64
  toNull : UInt64

def templateOutputSums (der : BitVec 256) (spendPublicKey : PublicKey) :
    TemplateOutputs → Nat → List TxOut → Except Failure TemplateOutputs
  | sums, _, [] => .ok sums
  | sums, i, out :: rest =>
      match out.target with
      | .toKey target => do
          let ephemeralPubKey ← orReject (wallet.primitives.derivePublicKey der i spendPublicKey)
          let sums := { sums with total := sums.total + out.amount }
          if target.key = ephemeralPubKey then
            templateOutputSums der spendPublicKey
              { sums with toParty := sums.toParty + out.amount } (i + 1) rest
          else if target.key = nullPkey then
            templateOutputSums der spendPublicKey
              { sums with toNull := sums.toNull + out.amount } (i + 1) rest
          else templateOutputSums der spendPublicKey sums (i + 1) rest
      | _ => .error .rejected

/-- The difference of two amounts, as a signed number. -/
def signedDifference (a b : UInt64) : Int := (a - b).toBitVec.toInt

/-- `validate_escrow_release`. -/
def validateEscrowRelease (tx : Transaction) (releaseTypeNormal : Bool)
    (cpd : ContractPrivateDetails) (sourceMsOut : TxoutMultisig) (msId : Hash)
    (sourceMsOutIndex : Nat) (sourceTx : Transaction) : Check := do
  let aKeys := wallet.keys
  let sourceAmount := ((sourceTx.vout[sourceMsOutIndex]?).map TxOut.amount).getD 0
  let ms ← validateTemplateInput tx sourceMsOut msId sourceAmount
    (cpd.amountAPledge + cpd.amountBPledge + cpd.amountToPay + txDefaultFee)
  let tsa ← validateTemplateExtra wallet tx false
  require (if releaseTypeNormal then tsa.instruction = instructionReleaseNormal
    else tsa.instruction = instructionReleaseBurn)
  require (tsa.security = [])
  require (validateAttachmentInfo wallet.primitives.crypto
    (tx.extra.findSome? PayloadItem.asAttachmentInfo?) tx.attachment false)
  let der ← orReject (wallet.primitives.generateKeyDerivation
    (getTxPubKeyFromExtra tx.toTransactionPrefix) aKeys.viewSecretKey)
  let sums ← templateOutputSums wallet der cpd.aAddr.spendPublicKey ⟨0, 0, 0⟩ 0 tx.vout
  if releaseTypeNormal then require (sums.toParty ≥ cpd.amountAPledge)
  else do
    require (sums.toNull = sums.total)
    require (sums.toNull = cpd.amountAPledge + cpd.amountBPledge + cpd.amountToPay)
  require (signedDifference ms.amount sums.total ≥ txDefaultFee.toBitVec.toInt)
  require (tx.signatures.length = 1)
  let ephemeralPubKey ← deriveFor wallet (getTxPubKeyFromExtra sourceTx.toTransactionPrefix)
    aKeys.viewSecretKey sourceMsOutIndex aKeys.accountAddress.spendPublicKey
  require (sourceMsOut.keys.length = 2)
  let signatures := tx.signatures.getD 0 []
  require (signatures.length = 2)
  let msOutKeyAIndex := sourceMsOut.keys.findIdx (· = ephemeralPubKey)
  require (msOutKeyAIndex < sourceMsOut.keys.length)
  let msOutKeyBIndex := 1 - msOutKeyAIndex
  let txHashForSignature := preparePrefixHashForSign wallet.primitives.crypto tx 0
    (getTransactionHash wallet.primitives.crypto tx)
  require (wallet.primitives.crypto.checkSignature txHashForSignature
    (sourceMsOut.keys.getD msOutKeyBIndex 0) (signatures.getD msOutKeyBIndex 0))

/-- `validate_escrow_contract`; returns the id of the contract and the release templates. -/
def validateEscrowContract (wti : WalletTransferInfo) (cpd : ContractPrivateDetails) (isA : Bool)
    (decryptedItems : List PayloadItem) : Except Failure (Hash × EscrowReleseTemplatesBody) := do
  let n := getMultisigOutIndex wti.tx.vout
  match wti.tx.vout[n]? with
  | some { amount := _, target := .multisig ms } => do
      let msId := getMultisigOutId wallet.primitives.crypto wti.tx.toTransactionPrefix n
      require (msId != nullHash)
      let tsa ← orReject (getFirstServiceAttachmentById wallet decryptedItems bcEscrowServiceId
        instructionReleaseTemplates)
      require (tsa.flags &&& txServiceAttachmentEncryptBody != 0)
      require (tsa.security = [])
      let rtb ← orReject (wallet.primitives.unserializeReleaseTemplates tsa.body)
      -- B has made the templates itself
      if isA then do
        validateEscrowRelease wallet rtb.txNormalTemplate true cpd ms msId n wti.tx
        validateEscrowRelease wallet rtb.txBurnTemplate false cpd ms msId n wti.tx
      require (getTxFlags wti.tx.toTransactionPrefix = txFlagSignatureModeSeparate)
      require (getTxExpirationTime wti.tx.toTransactionPrefix != 0)
      let unlockTime ← getTxMaxUnlockTime wti.tx
      require (unlockTime = 0)
      return (msId, rtb)
  | _ => .error .rejected

/-! ## Validation of a cancel request -/

/-- `validate_escrow_cancel_release`. -/
def validateEscrowCancelRelease (tx : Transaction) (msId : Hash) (cpd : ContractPrivateDetails)
    (sourceTx : Transaction) (sourceMsOutIndex : Nat) (minimumReleaseFee : UInt64) : Check := do
  match sourceTx.vout[sourceMsOutIndex]? with
  | none => .error .rejected
  | some { amount := sourceAmount, target := .multisig sourceMsOut } => do
      let ms ← validateTemplateInput tx sourceMsOut msId sourceAmount
        (cpd.amountAPledge + cpd.amountBPledge + cpd.amountToPay + minimumReleaseFee)
      let tsa ← validateTemplateExtra wallet tx true
      require (tsa.instruction = instructionReleaseCancel)
      require (validateAttachmentInfo wallet.primitives.crypto
        (tx.extra.findSome? PayloadItem.asAttachmentInfo?) tx.attachment false)
      let der ← orReject (wallet.primitives.generateKeyDerivation
        (getTxPubKeyFromExtra tx.toTransactionPrefix) wallet.keys.viewSecretKey)
      let sums ← templateOutputSums wallet der cpd.bAddr.spendPublicKey ⟨0, 0, 0⟩ 0 tx.vout
      require (sums.toParty ≥ cpd.amountBPledge)
      require (signedDifference ms.amount sums.total ≥ minimumReleaseFee.toBitVec.toInt)
      require (tx.signatures.length = 1)
      let signatures := tx.signatures.getD 0 []
      require (signatures.length = 2)
      require (sourceMsOut.keys.length = 2)
      let aSignIndex := if signatures.getD 0 0 != 0 then 0 else 1
      let txHashForSignature := preparePrefixHashForSign wallet.primitives.crypto tx 0
        (getTransactionHash wallet.primitives.crypto tx)
      require (wallet.primitives.crypto.checkSignature txHashForSignature
        (sourceMsOut.keys.getD aSignIndex 0) (signatures.getD aSignIndex 0))
  | some _ => .error .thrown

/-- `validate_escrow_cancel_proposal`. -/
def validateEscrowCancelProposal (wti : WalletTransferInfo) (ectb : EscrowCancelTemplatesBody)
    (decryptedItems : List PayloadItem) (msId : Hash) (cpd : ContractPrivateDetails)
    (proposalTemplateTx : Transaction) : Check := do
  let tsa ← orReject (getFirstServiceAttachmentById wallet decryptedItems bcEscrowServiceId
    instructionCancelProposal)
  require (tsa.flags &&& txServiceAttachmentEncryptBody != 0)
  let isA : Bool := cpd.aAddr = wallet.keys.accountAddress
  let isB : Bool := cpd.bAddr = wallet.keys.accountAddress
  require (isA != isB)
  if isB then
    validateEscrowCancelRelease wallet ectb.txCancelTemplate msId cpd proposalTemplateTx
      (getMultisigOutIndex proposalTemplateTx.vout) (getMinimumAllowedFeeForContract wallet msId)
  require (getTxFlags wti.tx.toTransactionPrefix = 0)
  let unlockTime ← getTxMaxUnlockTime wti.tx
  require (unlockTime = 0)
  require (getTxExpirationTime wti.tx.toTransactionPrefix = 0)

end

/-! ## The handlers -/

/-- `change_contract_state` for a transaction. -/
def EscrowContractDetails.change (ed : EscrowContractDetails) (newState : ContractState)
    (wti : WalletTransferInfo) : EscrowContractDetails :=
  { ed with state := newState, height := wti.height }

/-- `change_contract_state` for a reason of the wallet itself. -/
def EscrowContractDetails.changeState (ed : EscrowContractDetails) (newState : ContractState) :
    EscrowContractDetails :=
  { ed with state := newState }

abbrev Handled := WalletTransferInfo × EscrowContracts

section

variable (wallet : EscrowWallet) (wti : WalletTransferInfo) (contracts : EscrowContracts)

/-- `get_or_insert_value_initialized`. -/
def contractOrEmpty (msId : Hash) : EscrowContractDetails :=
  (contracts msId).getD emptyContract

/-- The entry that `handle_proposal` writes. -/
def proposedContract (prop : ProposalBody) (decryptedItems : List PayloadItem) (msId : Hash)
    (cpd : ContractPrivateDetails) : EscrowContractDetails :=
  let ed := contractOrEmpty contracts msId
  let ed := { ed with
    expirationTime := getTxExpirationTime prop.txTemplate.toTransactionPrefix
    timestamp := wti.timestamp
    isA := cpd.aAddr.spendPublicKey = wallet.keys.accountAddress.spendPublicKey }
  { ed.change .proposalSent wti with
    privateDetailes := cpd
    paymentId := (getPaymentIdFromTx wallet decryptedItems).getD ed.paymentId
    proposal := prop
    height := wti.height }

/-- `handle_proposal`.  The flag says that the function returned: after the entry is
written, it may still throw over the outputs of a proposal of its own. -/
def handleProposal (prop : ProposalBody) : Except Failure (Handled × Bool) := do
  let (decryptedItems, msId, cpd) ← validateEscrowProposal wallet wti prop
  let ed := proposedContract wallet wti contracts prop decryptedItems msId cpd
  let wti := { wti with
    contract := some (msId, ed)
    fee := if ed.isA then wti.fee else 0 }
  return ((wti, Function.update contracts msId (some ed)),
    !ed.isA || wallet.primitives.lookupAccOuts wallet.keys prop.txTemplate)

/-- The state a release instruction leads to. -/
def releasedState (instruction : ByteString) : Option ContractState :=
  if instruction = instructionReleaseNormal then some .contractReleasedNormal
  else if instruction = instructionReleaseCancel then some .contractReleasedCancelled
  else if instruction = instructionReleaseBurn then some .contractReleasedBurned
  else none

/-- `handle_release_contract`. -/
def handleReleaseContract (releaseInstruction : ByteString) : Except Failure Handled := do
  let msId ← orReject (firstMultisigInput? wti.tx.vin)
  require (msId != nullHash)
  let contract ← orReject (contracts msId)
  let newState ← orReject (releasedState releaseInstruction)
  let ed := contract.change newState wti
  let details := ed.privateDetailes
  let wti :=
    if newState = .contractReleasedBurned then { wti with
      amount := details.amountToPay + details.amountAPledge + details.amountBPledge
      fee := if ed.isA then 0 else getTxFee wti.tx.toTransactionPrefix }
    else wti
  return ({ wti with
    contract := some (msId, ed)
    fee := if ed.isA then 0 else wti.fee }, Function.update contracts msId (some ed))

/-- The entry that `handle_contract` writes. -/
def acceptedContract (cntr : ContractPrivateDetails) (isA : Bool) (msId : Hash)
    (rel : EscrowReleseTemplatesBody) : EscrowContractDetails :=
  let ed := contractOrEmpty contracts msId
  let ed := { ed with
    isA
    expirationTime := getTxExpirationTime wti.tx.toTransactionPrefix
    timestamp := if wti.timestamp ≠ 0 then wti.timestamp else ed.timestamp
    height := wti.height
    paymentId := wti.paymentId }
  { ed.change .contractAccepted wti with
    privateDetailes := cntr
    releaseBody := rel }

/-- `handle_contract`. -/
def handleContract (cntr : ContractPrivateDetails) (decryptedAttach : List PayloadItem) :
    Except Failure Handled := do
  let isA : Bool := cntr.aAddr = wallet.keys.accountAddress
  let (msId, rel) ← validateEscrowContract wallet wti cntr isA decryptedAttach
  let ed := acceptedContract wti contracts cntr isA msId rel
  return ({ wti with
    contract := some (msId, ed)
    amount := if isA then wti.amount + wti.fee else wti.amount
    fee := if isA then 0 else wti.fee }, Function.update contracts msId (some ed))

/-- `handle_cancel_proposal`. -/
def handleCancelProposal (ectb : EscrowCancelTemplatesBody) (decryptedAttach : List PayloadItem) :
    Except Failure Handled := do
  match ectb.txCancelTemplate.vin with
  | .multisig ms :: _ => do
      let contractId := ms.multisigOutId
      let contract ← orReject (contracts contractId)
      validateEscrowCancelProposal wallet wti ectb decryptedAttach contractId
        contract.privateDetailes contract.proposal.txTemplate
      require (contract.state = .contractAccepted || contract.state = .contractCancelProposalSent)
      let contract :=
        if contract.state = .contractAccepted then contract.change .contractCancelProposalSent wti
        else contract
      let ed := { contract with
        cancelBody := { txCancelTemplate := ectb.txCancelTemplate }
        cancelExpirationTime := getTxExpirationTime ectb.txCancelTemplate.toTransactionPrefix }
      return ({ wti with contract := some (contractId, ed) }, Function.update contracts contractId (some ed))
  | _ => .error .rejected

end

/-! ## The attachments of a transaction -/

/-- A handler that refuses is ignored; one that throws ends the reading. -/
def afterHandler (wti : WalletTransferInfo) (contracts : EscrowContracts) :
    Except Failure (Handled × Bool) → Handled × Bool
  | .ok result => result
  | .error .rejected => ((wti, contracts), true)
  | .error .thrown => ((wti, contracts), false)

section

variable (wallet : EscrowWallet)

/-- What an attachment is for `process_contract_info`. -/
inductive ContractMessage
  | other
  /-- Its body cannot be unpacked. -/
  | unreadable
  | proposal (prop : ProposalBody)
  | contract (cntr : ContractPrivateDetails)
  | release (releaseInstruction : ByteString)
  | cancelProposal (cpb : EscrowCancelTemplatesBody)

def readContractItem (item : PayloadItem) : ContractMessage :=
  match wallet.primitives.asServiceAttachment? item with
  | none => .other
  | some sa =>
      if sa.serviceId ≠ bcEscrowServiceId then .other
      else if sa.instruction = instructionProposal then
        match wallet.primitives.unserializeProposal sa.body with
        | none => .unreadable
        | some prop => .proposal prop
      else if sa.instruction = instructionPrivateDetails then
        match wallet.primitives.loadPrivateDetails sa.body with
        | none => .unreadable
        | some cntr => .contract cntr
      else if (releasedState sa.instruction).isSome then .release sa.instruction
      else if sa.instruction = instructionCancelProposal then
        match wallet.primitives.unserializeCancelTemplates sa.body with
        | none => .unreadable
        | some cpb => .cancelProposal cpb
      else .other

/-- One turn of `process_contract_info`; the flag says that the loop goes on. -/
def processContractMessage (decryptedAttach : List PayloadItem) (message : ContractMessage)
    (state : Handled) : Handled × Bool :=
  let (wti, contracts) := state
  match message with
  | .other => (state, true)
  | .unreadable => (state, false)
  | .proposal prop => afterHandler wti contracts (handleProposal wallet wti contracts prop)
  | .contract cntr =>
      afterHandler wti contracts
        ((handleContract wallet wti contracts cntr decryptedAttach).map (·, true))
  | .release releaseInstruction =>
      afterHandler wti contracts
        ((handleReleaseContract wti contracts releaseInstruction).map (·, true))
  | .cancelProposal cpb =>
      afterHandler wti contracts
        ((handleCancelProposal wallet wti contracts cpb decryptedAttach).map (·, true))

def processContractItems (decryptedAttach : List PayloadItem) : List PayloadItem → Handled → Handled
  | [], state => state
  | item :: rest, state =>
      match processContractMessage wallet decryptedAttach (readContractItem wallet item) state with
      | (state', true) => processContractItems decryptedAttach rest state'
      | (state', false) => state'

/-- `process_contract_info`. -/
def processContractInfo (wti : WalletTransferInfo) (decryptedAttach : List PayloadItem)
    (contracts : EscrowContracts) : Handled :=
  processContractItems wallet decryptedAttach decryptedAttach (wti, contracts)

end

/-! ## Expiration -/

/-- One contract in `handle_contract_expirations`. -/
def EscrowContractDetails.expire (contract : EscrowContractDetails) (txExpirationTsMedian : Nat) :
    EscrowContractDetails :=
  let expired := isTxExpired contract.cancelBody.txCancelTemplate.toTransactionPrefix
    txExpirationTsMedian
  match contract.state with
  | .contractCancelProposalSent =>
      if expired then contract.changeState .contractAccepted else contract
  | .contractReleasedCancelled =>
      if contract.height = 0 && expired then contract.changeState .contractAccepted else contract
  | _ => contract

/-- `handle_contract_expirations`: each contract on its own. -/
def handleContractExpirations (txExpirationTsMedian : Nat) (contracts : EscrowContracts) :
    EscrowContracts :=
  fun contractId => (contracts contractId).map (·.expire txExpirationTsMedian)

end Chinet
