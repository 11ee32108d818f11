import Mathlib.Data.BitVec
import Mathlib.Data.List.Basic
import Mathlib.Data.UInt

/-!
# Currency constants and data types

The wire-level data of `currency_basic.h` and the constants of
`currency_config.h` that the chain storage reads.  Field names follow the
source; the case convention is the only change.

* A hash, a public key and a key image are 32-byte pods, a signature is a
  64-byte pod; each is read as the big-endian number of its bytes, so that
  `memcmp` is the order of the numbers.
* `std::string` is a list of bytes.
* Amounts are `uint64_t` and wrap, so they are `UInt64`.  Heights and
  timestamps are counters the code only compares and counts up; they are `Nat`.
* `wide_difficulty_type` is an unchecked `uint128_t`: arithmetic modulo `2 ^ 128`.
-/

namespace Chinet

abbrev Hash := BitVec 256
abbrev PublicKey := BitVec 256
abbrev KeyImage := BitVec 256
abbrev Signature := BitVec 512
abbrev ByteString := List UInt8
abbrev WideDifficulty := BitVec 128

/-- Whether a list of hashes has a hash is decided with this. -/
instance hashLawfulBEq : LawfulBEq Hash := inferInstance

def nullHash : Hash := 0
def nullPkey : PublicKey := 0

/-- `std::isspace` and `boost::is_space`, in the classic locale. -/
def isSpace (c : UInt8) : Bool := c == 32 || (9 ≤ c && c ≤ 13)

/-- `std::isdigit` -/
def isDigit (c : UInt8) : Bool := 48 ≤ c && c ≤ 57

/-! ## `currency_config.h` -/

def currencyMaxBlockNumber : Nat := 500000000
def currencyTxMaxAllowedOuts : Nat := 2000
def currencyMinedMoneyUnlockWindow : Nat := 10
def currentTransactionVersion : Nat := 1
def currencyBlockFutureTimeLimit : Nat := 60 * 60 * 2
def currencyPosBlockFutureTimeLimit : Nat := 60 * 20
def blockchainTimestampCheckWindow : Nat := 60
def currencyRewardBlocksWindow : Nat := 400
def currencyBlockGrantedFullRewardZone : Nat := 125000
def currencyCoinbaseBlobReservedSize : Nat := 1100
def currencyMaxTransactionBlobSize : Nat :=
  currencyBlockGrantedFullRewardZone - currencyCoinbaseBlobReservedSize * 2
def currencyBlockReward : UInt64 := 10000000000000
def difficultyStarter : WideDifficulty := 1
def difficultyPosTarget : Nat := 120
def difficultyPowTarget : Nat := 120
def difficultyTotalTarget : Nat := (difficultyPosTarget + difficultyPowTarget) / 4
def difficultyWindow : Nat := 720
def difficultyCut : Nat := 60
def currencyBlocksPerDay : Nat := 60 * 60 * 24 / difficultyTotalTarget
def txExpirationTimestampCheckWindow : Nat := 20
def txExpirationMedianShift : Nat := txExpirationTimestampCheckWindow / 2 * difficultyTotalTarget
def currencyLockedTxAllowedDeltaBlocks : Nat := 1
def currencyLockedTxAllowedDeltaSeconds : Nat :=
  difficultyTotalTarget * currencyLockedTxAllowedDeltaBlocks
def maxAliasPerBlock : Nat := 1000
def aliasCoastPeriod : Nat := currencyBlocksPerDay * 7
def aliasVeryInitalCoast : UInt64 := 10000
def aliasMedianRecalcInterwal : Nat := currencyBlocksPerDay
def aliasMinimumPublicShortNameAllowed : Nat := 6
def aliasNameMaxLen : Nat := 255
def currencyAltBlockLivetimeCount : Nat := currencyBlocksPerDay * 7
def currencyAltBlockMaxCount : Nat := 43200
def posScanStep : Nat := 15
def posScanWindow : Nat := 60 * 10
def posMaxActualTimestampToMined : Nat := posScanWindow + 100
def posMinimumCoinstakeAge : Nat := 10
def posStartHeight : Nat := 0
def posStarterKernelHash : Hash :=
  0x00000000000000000006382a8d8f94588ce93a1351924f6ccb9e07dd287c6e4b
def txMinimumFee : UInt64 := 10000000000
def chnHardfork01AfterHeight : Nat := 0
def chnHardfork02AfterHeight : Nat := 0
def chnHardfork03AfterHeight : Nat := 0
def aliasShortNamesValidationPubKey : PublicKey :=
  0x37947f7b6a5268c5d0a48bde73d7a426f0b5f24648f74024279540207dc70031
/-- Main net value; the test net uses 18000. -/
def blockchainHeightForPosStrictSequenceLimitation : Nat := 57000
def blockPosStrictSequenceLimit : Nat := 20
def blockMajorVersionInitial : UInt8 := 0
def hf1BlockMajorVersion : UInt8 := 1
def currentBlockMajorVersion : UInt8 := 2
def currentBlockMinorVersion : UInt8 := 0
def currencyBlockFlagPosBlock : UInt8 := 0x01
def txFlagSignatureModeSeparate : Nat := 0x01
def currencyTxoutHtlcFlagsHashTypeMask : UInt8 := 0x01
def currencyToKeyOutForcedNoMix : UInt8 := 1
def currencyToKeyOutForcedMixLowerBound : UInt8 := 2

/-! ## Transaction parts -/

structure AccountPublicAddress where
  spendPublicKey : PublicKey
  viewPublicKey : PublicKey
  flags : UInt8
deriving DecidableEq

structure ExtraAttachmentInfo where
  sz : Nat
  hsh : Hash
  cnt : Nat
deriving DecidableEq

/-- `txout_ref_v`: a global output index, relative to the previous one inside
an input, or a reference by transaction id. -/
inductive TxoutRef
  | globalIndex (index : UInt64)
  | refById (txId : Hash) (n : Nat)
deriving DecidableEq

/-- `txin_etc_details_v`. -/
inductive TxinEtcDetails
  | signedParts (nOuts nExtras : Nat)
  | attachmentInfo (info : ExtraAttachmentInfo)
deriving DecidableEq

structure TxinToKey where
  amount : UInt64
  keyOffsets : List TxoutRef
  kImage : KeyImage
  etcDetails : List TxinEtcDetails
deriving DecidableEq

structure TxinHtlc extends TxinToKey where
  hltcOrigin : ByteString
deriving DecidableEq

structure TxinMultisig where
  amount : UInt64
  multisigOutId : Hash
  sigsCount : Nat
  etcDetails : List TxinEtcDetails
deriving DecidableEq

/-- `txin_v`. -/
inductive Txin
  | gen (height : Nat)
  | toKey (input : TxinToKey)
  | multisig (input : TxinMultisig)
  | htlc (input : TxinHtlc)
deriving DecidableEq

structure TxoutToKey where
  key : PublicKey
  mixAttr : UInt8
deriving DecidableEq

structure TxoutMultisig where
  minimumSigs : Nat
  keys : List PublicKey
deriving DecidableEq

structure TxoutHtlc where
  htlcHash : Hash
  flags : UInt8
  expiration : Nat
  pkeyRedeem : PublicKey
  pkeyRefund : PublicKey
deriving DecidableEq

/-- `txout_target_v`. -/
inductive TxoutTarget
  | toKey (out : TxoutToKey)
  | multisig (out : TxoutMultisig)
  | htlc (out : TxoutHtlc)
deriving DecidableEq

structure TxOut where
  amount : UInt64
  target : TxoutTarget
deriving DecidableEq

structure ExtraAliasEntryBase where
  mAddress : AccountPublicAddress
  mTextComment : ByteString
  mViewKey : List (BitVec 256)
  mSign : List Signature
deriving DecidableEq

structure ExtraAliasEntry extends ExtraAliasEntryBase where
  mAlias : ByteString
deriving DecidableEq

/-- `payload_items_v`, the items of `extra` and of `attachment`.  The variants
that no modelled function tells apart (comments, checksums, derivation hints
and the like) are `other`, with their wire tag and bytes. -/
inductive PayloadItem
  | publicKey (key : PublicKey)
  | attachmentInfo (info : ExtraAttachmentInfo)
  | aliasEntryOld (entry : ExtraAliasEntry)
  | aliasEntry (entry : ExtraAliasEntry)
  | userData (buff : ByteString)
  | padding (buff : ByteString)
  | txTime (v : Nat)
  | unlockTime (v : Nat)
  | unlockTime2 (unlockTimeArray : List Nat)
  | expirationTime (v : Nat)
  | detailsFlags (v : Nat)
  | payer (accAddr : AccountPublicAddress)
  | receiver (accAddr : AccountPublicAddress)
  | other (tag : Nat) (body : ByteString)
deriving DecidableEq

structure TransactionPrefix where
  version : Nat
  extra : List PayloadItem
  vin : List Txin
  vout : List TxOut
deriving DecidableEq

structure Transaction extends TransactionPrefix where
  signatures : List (List Signature)
  attachment : List PayloadItem
deriving DecidableEq

structure Block where
  majorVersion : UInt8
  minorVersion : UInt8
  timestamp : Nat
  prevId : Hash
  nonce : UInt64
  flags : UInt8
  minerTx : Transaction
  txHashes : List Hash
deriving DecidableEq

structure StakeModifier where
  lastPowId : Hash
  lastPosKernelId : Hash
deriving DecidableEq

structure StakeKernel where
  stakeModifier : StakeModifier
  blockTimestamp : Nat
  kimage : KeyImage
deriving DecidableEq

/-- `core_runtime_config` without the clock, which every call takes as `now`. -/
structure CoreRuntimeConfig where
  minCoinstakeAge : Nat
  posMinimumHeigh : Nat
  txPoolMinFee : UInt64
  maxAltBlocks : Nat
  aliasValidationPubkey : PublicKey
  hardFork01StartsAfterHeight : Nat
  hardFork02StartsAfterHeight : Nat
  hardFork03StartsAfterHeight : Nat

def getDefaultCoreRuntimeConfig : CoreRuntimeConfig where
  minCoinstakeAge := posMinimumCoinstakeAge
  posMinimumHeigh := posStartHeight
  txPoolMinFee := txMinimumFee
  maxAltBlocks := currencyAltBlockMaxCount
  aliasValidationPubkey := aliasShortNamesValidationPubKey
  hardFork01StartsAfterHeight := chnHardfork01AfterHeight
  hardFork02StartsAfterHeight := chnHardfork02AfterHeight
  hardFork03StartsAfterHeight := chnHardfork03AfterHeight

end Chinet
