import Chinet.Difficulty
import Chinet.Lib.Procedure
import Chinet.Lib.FiniteStore

/-!
# The state of a node

`blockchain_storage` keeps three kinds of data.

* `Db`: the containers of the database, which `begin_transaction`,
  `commit_transaction` and `abort_transaction` guard.
* The containers of the alternative chains and the list of invalid blocks,
  which live in memory only.
* Caches of derived values: the cached next difficulties and the cached fee
  median.  They outlive an aborted transaction.

The timestamp median cache and the target data cache are left out: both are
recomputed or cleared whenever the chain changes.
-/

namespace Chinet

/-! ## Database entries -/

/-- The part of `block_extended_info` that the header rules and the fork choice
read. -/
structure BlockHeaderInfo where
  bl : Block
  height : Nat
  cumulativeDiffAdjusted : WideDifficulty
  cumulativeDiffPrecise : WideDifficulty
  cumulativeDiffPreciseAdjusted : WideDifficulty
  difficulty : WideDifficulty
  stakeHash : Hash
deriving DecidableEq

structure BlockExtendedInfo extends BlockHeaderInfo where
  blockCumulativeSize : Nat
  alreadyGeneratedCoins : BitVec 128
  thisBlockTxFeeMedian : UInt64
  effectiveTxFeeMedian : UInt64
deriving DecidableEq

structure TransactionChainEntry where
  tx : Transaction
  keeperBlockHeight : Nat
  globalOutputIndexes : List Nat
  spentFlags : List Bool
deriving DecidableEq

structure GlobalOutputEntry where
  txId : Hash
  outNo : Nat
deriving DecidableEq

/-- `spent_height` is a `uint32_t`, zero for an output that is not spent. -/
structure MsOutputEntry where
  txId : Hash
  outNo : Nat
  spentHeight : Nat
deriving DecidableEq

/-- The persisted containers. -/
structure Db where
  blocks : List BlockExtendedInfo
  blocksIndex : FiniteStore Hash Nat
  transactions : FiniteStore Hash TransactionChainEntry
  spentKeys : FiniteStore KeyImage Nat
  outputs : UInt64 → List GlobalOutputEntry
  multisigOuts : FiniteStore Hash MsOutputEntry
  aliases : FiniteStore ByteString (List ExtraAliasEntryBase)
  addrToAlias : FiniteStore AccountPublicAddress (Finset ByteString)
  perBlockGindexIncs : FiniteStore Nat (FiniteStore UInt64 Nat)

def Db.empty : Db where
  blocks := []
  blocksIndex := ∅
  transactions := ∅
  spentKeys := ∅
  outputs := fun _ => []
  multisigOuts := ∅
  aliases := ∅
  addrToAlias := ∅
  perBlockGindexIncs := ∅

abbrev TransactionsMap := FiniteStore Hash Transaction

/-- `output_key_or_htlc_v`. -/
inductive OutputKeyOrHtlc
  | publicKey (key : PublicKey)
  | htlc (out : TxoutHtlc)
deriving DecidableEq

/-- The outputs an alternative block adds: for each amount the global index of
its first output there, and the keys of its outputs. -/
structure AltOutIndexes where
  gindexLookupTable : UInt64 → Option Nat
  outputsPubKeys : UInt64 → List OutputKeyOrHtlc

structure AltBlockExtendedInfo extends BlockExtendedInfo, AltOutIndexes where
  timestamp : Nat
  onboardTransactions : TransactionsMap

/-- `alt_chain_type`: the front is connected to the main chain, the back is the
alternative head. -/
abbrev AltChain := List AltBlockExtendedInfo

def AltChain.headers (altChain : AltChain) : List BlockHeaderInfo :=
  altChain.map fun abei => abei.toBlockHeaderInfo

/-- `tx_details` of the transaction pool. -/
structure TxDetails where
  tx : Transaction
  blobSize : Nat
  fee : UInt64
  keptByBlock : Bool
deriving DecidableEq

/-! ## Checkpoints -/

abbrev Checkpoints := List (Nat × Hash)

namespace Checkpoints

def isInCheckpointZone (points : Checkpoints) (height : Nat) : Bool :=
  points.any (height ≤ ·.1)

/-- `lower_bound` finds a point that is at most the top height exactly when
there is one between the two heights. -/
def isHeightPassedZone (points : Checkpoints) (height blockchainLastBlockHeight : Nat) : Bool :=
  height ≤ blockchainLastBlockHeight &&
    points.any (fun point => height ≤ point.1 && point.1 ≤ blockchainLastBlockHeight)

def checkBlock (points : Checkpoints) (height : Nat) (id : Hash) : Bool :=
  match points.find? (·.1 = height) with
  | none => true
  | some point => point.2 = id

end Checkpoints

/-! ## The node -/

/-- What is fixed while a node runs.  `altBlocksOrder` is the order in which
the hash table of the alternative blocks is enumerated. -/
structure Env where
  crypto : CryptoPrimitives
  config : CoreRuntimeConfig
  checkpoints : Checkpoints
  altBlocksOrder : FiniteStore Hash AltBlockExtendedInfo → List Hash

structure Node where
  db : Db
  pool : FiniteStore Hash TxDetails
  invalidBlocks : Finset Hash
  alternativeChains : FiniteStore Hash AltBlockExtendedInfo
  alternativeChainsTxs : FiniteStore Hash Nat
  altblocksKeyimages : FiniteStore KeyImage (List Hash)
  isInCheckpointZone : Bool
  isReorganizeInProcess : Bool
  cachedNextPosDifficulty : WideDifficulty
  cachedNextPowDifficulty : WideDifficulty
  currentFeeMedian : UInt64
  currentFeeMedianEffectiveIndex : Nat

namespace Env

variable (env : Env)

def isAfterHardfork1Zone (height : Nat) : Bool :=
  height > env.config.hardFork01StartsAfterHeight

def isAfterHardfork2Zone (height : Nat) : Bool :=
  height > env.config.hardFork02StartsAfterHeight

def isAfterHardfork3Zone (height : Nat) : Bool :=
  height > env.config.hardFork03StartsAfterHeight

end Env

namespace Db

def headers (db : Db) : List BlockHeaderInfo :=
  db.blocks.map BlockExtendedInfo.toBlockHeaderInfo

/-- `get_current_blockchain_size`. -/
def size (db : Db) : Nat := db.blocks.length

@[simp] theorem headers_length (db : Db) : db.headers.length = db.size := by
  simp [headers, size]

/-- `get_top_block_id`. -/
def topBlockId (crypto : CryptoPrimitives) (db : Db) : Hash :=
  match db.blocks.getLast? with
  | none => nullHash
  | some bei => crypto.getBlockHash bei.bl

end Db

/-- A procedure on the database. -/
abbrev DbProcedure (α : Type) := Procedure Failure Db α

/-- A procedure on the node. -/
abbrev NodeProcedure (α : Type) := Procedure Failure Node α

def NodeProcedure.onDb {α : Type} (x : DbProcedure α) : NodeProcedure α :=
  Procedure.onPart Node.db (fun db node => { node with db }) x

/-- The result of a call whose `false` the caller looks at itself; an exception
passes through. -/
def succeeds {σ : Type} (x : Procedure Failure σ Unit) : Procedure Failure σ Bool := fun s =>
  match x s with
  | (.ok _, s') => (.ok true, s')
  | (.error .rejected, s') => (.ok false, s')
  | (.error .thrown, s') => (.error .thrown, s')

/-- Unwinding by hand: when `x` is refused, `cleanup` runs before the refusal is
passed on.  An exception leaves everything as it is. -/
def onReject {σ α β : Type} (x : Procedure Failure σ α) (cleanup : Procedure Failure σ β) :
    Procedure Failure σ α := fun s =>
  match x s with
  | (.error .rejected, s') =>
      match cleanup s' with
      | (.error .thrown, s'') => (.error .thrown, s'')
      | (_, s'') => (.error .rejected, s'')
  | result => result

theorem onReject_ok_iff {σ α β : Type} {x : Procedure Failure σ α} {cleanup : Procedure Failure σ β}
    {s s' : σ} {a : α} : onReject x cleanup s = (.ok a, s') ↔ x s = (.ok a, s') := by
  unfold onReject
  rcases x s with ⟨(_ | _) | a', s₁⟩
  · rcases hclean : cleanup s₁ with ⟨(_ | _) | _, s₂⟩ <;> simp [hclean]
  · simp
  · simp

theorem succeeds_eq_true_iff {σ : Type} {x : Procedure Failure σ Unit} {s s' : σ} :
    succeeds x s = (.ok true, s') ↔ x s = (.ok (), s') := by
  unfold succeeds
  rcases x s with ⟨(_ | _) | _, s₁⟩ <;> simp

end Chinet
