import Chinet.CurrencyBasic
import Mathlib.Data.List.Sort

/-!
# Currency format utilities

The pure functions of `currency_format_utils*.cpp`, `tx_semantic_validation.cpp`
and `difficulty.cpp`'s callers that look at one transaction or one block.

Hashing, serialization and elliptic-curve checks are the fields of
`CryptoPrimitives`; everything else is computed here.  A check of the source
can pass, return false, or throw: it is an `Except Failure Unit`, written with
`require` (`CHECK_AND_ASSERT_MES(.., false, ..)`) and `requireThrow`
(`CHECK_AND_ASSERT_THROW_MES`).
-/

namespace Chinet

/-! ## Checks -/

/-- The two ways a check can fail. -/
inductive Failure
  | rejected
  | thrown
deriving DecidableEq, Repr

abbrev Check := Except Failure Unit

def require (cond : Bool) : Check :=
  if cond then .ok () else .error .rejected

def requireThrow (cond : Bool) : Check :=
  if cond then .ok () else .error .thrown

instance : DecidableEq Check
  | .ok (), .ok () => isTrue rfl
  | .ok (), .error _ => isFalse (by simp)
  | .error _, .ok () => isFalse (by simp)
  | .error a, .error b => if h : a = b then isTrue (by rw [h]) else isFalse (by simpa using h)

@[simp] theorem require_eq_ok {cond : Bool} {u : Unit} : require cond = .ok u ↔ cond = true := by
  cases cond <;> simp [require]

/-- A sequence of checks passes when each part does. -/
theorem bind_eq_ok {ε α β : Type} {x : Except ε α} {f : α → Except ε β} {b : β} :
    (x >>= f) = .ok b ↔ ∃ a, x = .ok a ∧ f a = .ok b := by
  cases x with
  | error e => simp [bind, Except.bind]
  | ok a => simp [bind, Except.bind]

@[simp] theorem require_bind_eq_ok {β : Type} {cond : Bool} {f : Unit → Except Failure β}
    {b : β} : (require cond >>= f) = .ok b ↔ cond = true ∧ f () = .ok b := by
  cases cond <;> simp [require, bind, Except.bind]

@[simp] theorem requireThrow_bind_eq_ok {β : Type} {cond : Bool} {f : Unit → Except Failure β}
    {b : β} : (requireThrow cond >>= f) = .ok b ↔ cond = true ∧ f () = .ok b := by
  cases cond <;> simp [requireThrow, bind, Except.bind]

/-! ## Hashing and signatures -/

/-- What the storage takes from `crypto/` and from the binary serializer. -/
structure CryptoPrimitives where
  prefixHash : TransactionPrefix → Hash
  getBlockHash : Block → Hash
  getBlockLonghash : Block → Hash
  getObjectBlobsize : Transaction → Nat
  /-- `get_object_hash` of a `multisig_id_generator`. -/
  multisigIdHash : PublicKey → TxOut → Hash
  /-- `cn_fast_hash` of a `stake_kernel`. -/
  kernelHash : StakeKernel → Hash
  getSignBuffHashForAliasUpdate : ExtraAliasEntry → Hash
  /-- Size and hash of serialized attachments. -/
  attachmentBlob : List PayloadItem → Nat × Hash
  checkKey : PublicKey → Bool
  validateKeyImage : KeyImage → Bool
  checkSignature : Hash → PublicKey → Signature → Bool
  checkRingSignature : Hash → KeyImage → List PublicKey → List Signature → Bool
  sha256Hash : ByteString → Hash
  ripemd160Hash : ByteString → BitVec 160

variable (crypto : CryptoPrimitives)

def getTransactionHash (tx : Transaction) : Hash :=
  crypto.prefixHash tx.toTransactionPrefix

/-! ## Median -/

/-- `misc_utils::median`; the sum of the two middle elements is a `uint64_t`. -/
def median (v : List Nat) : Nat :=
  let sorted := v.insertionSort (· ≤ ·)
  let n := v.length / 2
  if v.length % 2 = 1 then sorted.getD n 0
  else (sorted.getD (n - 1) 0 + sorted.getD n 0) % 2 ^ 64 / 2

/-! ## Variant containers -/

namespace PayloadItem

def asPublicKey? : PayloadItem → Option PublicKey
  | publicKey key => some key
  | _ => none

def asAttachmentInfo? : PayloadItem → Option ExtraAttachmentInfo
  | attachmentInfo info => some info
  | _ => none

def asTxTime? : PayloadItem → Option Nat
  | txTime v => some v
  | _ => none

def asUnlockTime? : PayloadItem → Option Nat
  | unlockTime v => some v
  | _ => none

def asUnlockTime2? : PayloadItem → Option (List Nat)
  | unlockTime2 unlockTimeArray => some unlockTimeArray
  | _ => none

def asExpirationTime? : PayloadItem → Option Nat
  | expirationTime v => some v
  | _ => none

def asDetailsFlags? : PayloadItem → Option Nat
  | detailsFlags v => some v
  | _ => none

end PayloadItem

namespace TxinEtcDetails

def asSignedParts? : TxinEtcDetails → Option (Nat × Nat)
  | signedParts nOuts nExtras => some (nOuts, nExtras)
  | attachmentInfo _ => none

def asAttachmentInfo? : TxinEtcDetails → Option ExtraAttachmentInfo
  | signedParts _ _ => none
  | attachmentInfo info => some info

end TxinEtcDetails

/-! ## Extra fields -/

def getTxFlags (tx : TransactionPrefix) : Nat :=
  (tx.extra.findSome? PayloadItem.asDetailsFlags?).getD 0

/-- `get_tx_flags(tx) & TX_FLAG_SIGNATURE_MODE_SEPARATE`. -/
def isSignatureModeSeparate (tx : TransactionPrefix) : Bool :=
  getTxFlags tx % 2 == txFlagSignatureModeSeparate

def getTxExpirationTime (tx : TransactionPrefix) : Nat :=
  (tx.extra.findSome? PayloadItem.asExpirationTime?).getD 0

def getTxPubKeyFromExtra (tx : TransactionPrefix) : PublicKey :=
  (tx.extra.findSome? PayloadItem.asPublicKey?).getD nullPkey

/-- `get_tx_x_detail<etc_tx_details_unlock_time>`. -/
def majorUnlockTime (tx : TransactionPrefix) : Nat :=
  (tx.extra.findSome? PayloadItem.asUnlockTime?).getD 0

/-- `unlock_time_array` of the first `etc_tx_details_unlock_time2`. -/
def unlockTimeArray (tx : TransactionPrefix) : List Nat :=
  (tx.extra.findSome? PayloadItem.asUnlockTime2?).getD []

def shouldUnlockValueBeTreatedAsBlockHeight (v : Nat) : Bool :=
  v < currencyMaxBlockNumber

def getTxUnlockTime (tx : TransactionPrefix) (outI : Nat) : Except Failure Nat :=
  if majorUnlockTime tx ≠ 0 then .ok (majorUnlockTime tx)
  else do
    requireThrow (outI < tx.vout.length)
    if unlockTimeArray tx = [] then return 0
    requireThrow (outI < (unlockTimeArray tx).length)
    return (unlockTimeArray tx).getD outI 0

/-- Maximum and minimum unlock time, in this order. -/
def getTxMaxMinUnlockTime (tx : TransactionPrefix) : Except Failure (Nat × Nat) :=
  if majorUnlockTime tx ≠ 0 then .ok (majorUnlockTime tx, majorUnlockTime tx)
  else match unlockTimeArray tx with
    | [] => .ok (0, 0)
    | first :: rest =>
        if rest.length + 1 = tx.vout.length then
          .ok (rest.foldl max first, rest.foldl min first)
        else .error .thrown

/-- The height bound `current_blockchain_size - 1 + DELTA_BLOCKS` wraps back to
`DELTA_BLOCKS - 1` on an empty chain, so the subtraction comes last here. -/
def isTxSpendtimeUnlocked (unlockTime currentBlockchainSize currentTime : Nat) : Bool :=
  if unlockTime < currencyMaxBlockNumber then
    unlockTime ≤ currentBlockchainSize + currencyLockedTxAllowedDeltaBlocks - 1
  else unlockTime ≤ currentTime + currencyLockedTxAllowedDeltaSeconds

def isTxExpired (tx : TransactionPrefix) (expirationTsMedian : Nat) : Bool :=
  let expirationTime := getTxExpirationTime tx
  expirationTime != 0 && expirationTime ≤ expirationTsMedian + txExpirationMedianShift

/-! ## Transaction extra -/

/-- What `tx_extra_handler` collects that the storage reads. -/
structure TxExtraInfo where
  mAlias : Option ExtraAliasEntry

/-- The slots of `tx_extra_handler` that may be filled once. -/
def onetimeSlot : PayloadItem → Option Nat
  | .publicKey _ => some 0
  | .attachmentInfo _ => some 1
  | .aliasEntry _ => some 2
  | .aliasEntryOld _ => some 2
  | .userData _ => some 3
  | .padding _ => some 4
  | _ => none

/-- The alias entry of an item, of either version. -/
def aliasEntryOf? : PayloadItem → Option ExtraAliasEntry
  | .aliasEntry entry => some entry
  | .aliasEntryOld entry => some entry
  | _ => none

/-- `parse_and_validate_tx_extra`: false on a double entry.  An alias entry
with an empty name counts as no alias, as every caller treats it. -/
def parseAndValidateTxExtra (tx : TransactionPrefix) : Option TxExtraInfo :=
  if (tx.extra.filterMap onetimeSlot).Nodup then
    some { mAlias := (tx.extra.findSome? aliasEntryOf?).filter (·.mAlias ≠ []) }
  else none

def checkTxExtra (tx : TransactionPrefix) : Bool :=
  (parseAndValidateTxExtra tx).isSome

/-- `get_multisig_out_id`: hashes the one-time key and the output, and nothing
that tells two equal outputs of a transaction apart. -/
def getMultisigOutId (tx : TransactionPrefix) (n : Nat) : Hash :=
  match tx.vout[n]? with
  | some { amount, target := .multisig out } =>
      crypto.multisigIdHash (getTxPubKeyFromExtra tx) { amount, target := .multisig out }
  | _ => nullHash

/-! ## Inputs and outputs -/

/-- `get_amount_from_variant`. -/
def Txin.amount : Txin → UInt64
  | gen _ => 0
  | toKey input => input.amount
  | multisig input => input.amount
  | htlc input => input.amount

/-- The part that `txin_to_key` and `txin_htlc` share; the accessor
`get_to_key_input_from_txin_v` throws on the other two. -/
def Txin.toKeyPart? : Txin → Option TxinToKey
  | toKey input => some input
  | htlc input => some input.toTxinToKey
  | gen _ => none
  | multisig _ => none

def Txin.keyImage? (input : Txin) : Option KeyImage :=
  input.toKeyPart?.map TxinToKey.kImage

def Txin.multisigOutId? : Txin → Option Hash
  | multisig input => some input.multisigOutId
  | _ => none

def Txin.isGen : Txin → Bool
  | gen _ => true
  | _ => false

def Txin.isHtlc : Txin → Bool
  | htlc _ => true
  | _ => false

def Txin.isToKey : Txin → Bool
  | toKey _ => true
  | _ => false

/-- `get_txin_etc_options`. -/
def Txin.etcDetails : Txin → List TxinEtcDetails
  | gen _ => []
  | toKey input => input.etcDetails
  | multisig input => input.etcDetails
  | htlc input => input.etcDetails

def TxoutTarget.isHtlc : TxoutTarget → Bool
  | htlc _ => true
  | _ => false

/-- `txout_to_key` or `txout_htlc`: the outputs kept in the per-amount index. -/
def TxoutTarget.isIndexed : TxoutTarget → Bool
  | toKey _ => true
  | htlc _ => true
  | multisig _ => false

def TransactionPrefix.keyImages (tx : TransactionPrefix) : List KeyImage :=
  tx.vin.filterMap Txin.keyImage?

def TransactionPrefix.multisigIds (tx : TransactionPrefix) : List Hash :=
  tx.vin.filterMap Txin.multisigOutId?

/-- `relative_output_offsets_to_absolute` after the first element; `boost::get`
throws on a global index that follows a reference by id. -/
def absoluteOffsetsFrom : TxoutRef → List TxoutRef → Except Failure (List TxoutRef)
  | _, [] => .ok []
  | _, .refById txId n :: rest => .ok (.refById txId n :: rest)
  | .globalIndex prev, .globalIndex off :: rest => do
      let tail ← absoluteOffsetsFrom (.globalIndex (off + prev)) rest
      return .globalIndex (off + prev) :: tail
  | .refById _ _, .globalIndex _ :: _ => .error .thrown

def relativeOutputOffsetsToAbsolute : List TxoutRef → Except Failure (List TxoutRef)
  | [] => .ok []
  | first :: rest => do
      let tail ← absoluteOffsetsFrom first rest
      return first :: tail

def isMixattrApplicableForFakeOutsCounter (mixAttr : UInt8) (fakeOutputsCount : Nat) : Bool :=
  if mixAttr ≥ currencyToKeyOutForcedMixLowerBound then fakeOutputsCount + 1 ≥ mixAttr.toNat
  else if mixAttr = currencyToKeyOutForcedNoMix then fakeOutputsCount == 0
  else true

/-! ## Amounts -/

def getOutsMoneyAmount (tx : TransactionPrefix) : UInt64 :=
  (tx.vout.map TxOut.amount).sum

/-- `get_inputs_money_amount`: stops at the first zero amount, with the sum of
the amounts before it. -/
def inputsMoneyFrom : UInt64 → List Txin → Bool × UInt64
  | money, [] => (true, money)
  | money, input :: rest =>
      if input.amount = 0 then (false, money) else inputsMoneyFrom (money + input.amount) rest

def getInputsMoneyAmount (tx : TransactionPrefix) : Bool × UInt64 :=
  inputsMoneyFrom 0 tx.vin

/-- Adding `amounts` to `money` never wraps. -/
def noOverflowFrom : UInt64 → List UInt64 → Bool
  | _, [] => true
  | money, amount :: rest =>
      if money > amount + money then false else noOverflowFrom (money + amount) rest

def checkInputsOverflow (tx : TransactionPrefix) : Bool :=
  tx.vin.all (!·.isGen) && noOverflowFrom 0 (tx.vin.map Txin.amount)

def checkOutsOverflow (tx : TransactionPrefix) : Bool :=
  noOverflowFrom 0 (tx.vout.map TxOut.amount)

def checkMoneyOverflow (tx : TransactionPrefix) : Bool :=
  checkInputsOverflow tx && checkOutsOverflow tx

def isCoinbase (tx : TransactionPrefix) : Bool :=
  match tx.vin with
  | [.gen _] => true
  | [.gen _, _] => true
  | _ => false

/-- `get_tx_fee`: zero for a coinbase and for a transaction that spends more
than it has. -/
def getTxFee (tx : TransactionPrefix) : UInt64 :=
  if isCoinbase tx then 0
  else
    let amountIn := (tx.vin.map Txin.amount).sum
    if amountIn ≥ getOutsMoneyAmount tx then amountIn - getOutsMoneyAmount tx else 0

/-- An output to the null key. -/
def TxOut.isBurned (out : TxOut) : Bool :=
  match out.target with
  | .toKey target => target.key == nullPkey
  | _ => false

def getBurnedAmount (tx : TransactionPrefix) : UInt64 :=
  ((tx.vout.filter TxOut.isBurned).map TxOut.amount).sum

/-- `get_amount_for_zero_pubkeys` computes the same sum as `get_burned_amount`. -/
def getAmountForZeroPubkeys (tx : TransactionPrefix) : UInt64 :=
  getBurnedAmount tx

/-! ## Blocks -/

/-- `is_pos_block` on a coinbase. -/
def isPosTransaction (tx : TransactionPrefix) : Bool :=
  match tx.vin with
  | [.gen _, .toKey _] => true
  | _ => false

def isPosBlock (b : Block) : Bool :=
  b.flags &&& currencyBlockFlagPosBlock != 0 && isPosTransaction b.minerTx.toTransactionPrefix

/-- `get_block_height`: zero when the coinbase has no generation input. -/
def getBlockHeight (b : Block) : Nat :=
  match b.minerTx.vin with
  | [.gen height] => height
  | [.gen height, _] => height
  | _ => 0

def getActualTimestamp (b : Block) : Nat :=
  if isPosBlock b then
    (b.minerTx.extra.findSome? PayloadItem.asTxTime?).getD b.timestamp
  else b.timestamp

def getBaseBlockReward (height : Nat) : UInt64 :=
  if height = 0 then 0 else currencyBlockReward

/-- `get_block_reward`.  The 128-bit product of the source divided twice by the
32-bit median is exact here; the median is cut to 32 bits as there. -/
def getBlockReward (medianSize currentBlockSize height : Nat) : Option UInt64 :=
  let baseReward := getBaseBlockReward height
  let medianSize := max medianSize currencyBlockGrantedFullRewardZone
  if currentBlockSize ≤ medianSize ∨ height = 0 then some baseReward
  else if currentBlockSize > 2 * medianSize then none
  else
    let multiplicand := (2 * medianSize - currentBlockSize) * currentBlockSize % 2 ^ 64
    let divisor := medianSize % 2 ^ 32
    let reward := baseReward.toNat * multiplicand / divisor / divisor
    if reward < baseReward.toNat then some (UInt64.ofNat reward) else none

/-- `correct_difficulty_with_sequence_factor`. -/
def correctDifficultyWithSequenceFactor : Nat → WideDifficulty → WideDifficulty
  | 0, diff => diff
  | n + 1, diff => correctDifficultyWithSequenceFactor n (diff - diff / 4)

/-! ## Semantic validation -/

def checkInputsTypesSupported (tx : TransactionPrefix) : Bool :=
  tx.vin.all (!·.isGen)

def outIsValid (out : TxOut) : Bool :=
  out.amount > 0 &&
    match out.target with
    | .toKey target => crypto.checkKey target.key
    | .htlc target => crypto.checkKey target.pkeyRedeem && crypto.checkKey target.pkeyRefund
    | .multisig target =>
        target.keys.length > 0 && target.minimumSigs > 0 &&
          target.minimumSigs ≤ target.keys.length

def checkOutsValid (tx : TransactionPrefix) : Bool :=
  tx.vout.all (outIsValid crypto)

/-- Only key images are compared: two multisig inputs of a transaction may name
the same output. -/
def checkTxInputsKeyimagesDiff (tx : TransactionPrefix) : Bool :=
  tx.keyImages.Nodup

def validateTxSemantic (tx : TransactionPrefix) (txBlockSize : Nat) : Bool :=
  tx.vin != [] && checkInputsTypesSupported tx && checkOutsValid crypto tx &&
    checkMoneyOverflow tx && (getInputsMoneyAmount tx).2 ≥ getOutsMoneyAmount tx &&
    txBlockSize < currencyMaxTransactionBlobSize && checkTxInputsKeyimagesDiff tx &&
    checkTxExtra tx

/-! ## Signatures of an input -/

/-- `get_attachment_extra_info_details`. -/
def getAttachmentExtraInfoDetails (attachment : List PayloadItem) : ExtraAttachmentInfo :=
  if attachment = [] then { sz := 0, hsh := nullHash, cnt := 0 }
  else
    { sz := (crypto.attachmentBlob attachment).1
      hsh := (crypto.attachmentBlob attachment).2
      cnt := attachment.length }

/-- `validate_attachment_info`, given the container's `extra_attachment_info`. -/
def validateAttachmentInfo (eai : Option ExtraAttachmentInfo) (attachments : List PayloadItem)
    (allowNoInfo : Bool) : Bool :=
  match eai with
  | none => allowNoInfo ||
      (attachments.isEmpty &&
        getAttachmentExtraInfoDetails crypto [] == { sz := 0, hsh := nullHash, cnt := 0 })
  | some info =>
      !attachments.isEmpty && info.cnt ≤ attachments.length &&
        info == getAttachmentExtraInfoDetails crypto (attachments.take info.cnt)

/-- The counts that `prepare_prefix_hash_for_sign` walks through: signed
outputs, extra entries and attachments. -/
structure SignedCounts where
  outs : Nat
  extras : Nat
  attachments : Nat

def signedCountsOf : SignedCounts → List Txin → Option SignedCounts
  | counts, [] => some counts
  | counts, input :: rest =>
      match input.etcDetails.findSome? TxinEtcDetails.asSignedParts? with
      | none => none
      | some (nOuts, nExtras) =>
          if counts.outs ≤ nOuts ∧ counts.extras ≤ nExtras then
            match input.etcDetails.findSome? TxinEtcDetails.asAttachmentInfo? with
            | none => signedCountsOf { counts with outs := nOuts, extras := nExtras } rest
            | some info =>
                if counts.attachments ≤ info.cnt then
                  signedCountsOf ⟨nOuts, nExtras, info.cnt⟩ rest
                else none
          else none

/-- `prepare_prefix_hash_for_sign`. -/
def preparePrefixHashForSign (tx : Transaction) (inIndex : Nat) (txId : Hash) : Hash :=
  if inIndex ≥ tx.vin.length then nullHash
  else if !isSignatureModeSeparate tx.toTransactionPrefix then txId
  else
    let defaultAttachments :=
      ((tx.extra.findSome? PayloadItem.asAttachmentInfo?).map ExtraAttachmentInfo.cnt).getD 0
    match signedCountsOf ⟨0, 0, defaultAttachments⟩ (tx.vin.take (inIndex + 1)) with
    | none => nullHash
    | some counts =>
        if inIndex + 1 = tx.vin.length then
          if counts.outs = tx.vout.length ∧ counts.extras = tx.extra.length ∧
              counts.attachments = tx.attachment.length then txId
          else nullHash
        else if counts.outs ≤ tx.vout.length ∧ counts.extras ≤ tx.extra.length ∧
            counts.attachments ≤ tx.attachment.length then
          crypto.prefixHash
            { version := tx.version
              extra := tx.extra.take counts.extras
              vin := tx.vin.take (inIndex + 1)
              vout := tx.vout.take counts.outs }
        else nullHash

end Chinet
