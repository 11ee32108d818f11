import Chinet.Fork.Branch
import Chinet.Storage.Frame

/-!
# The main chain as a whole

What one successful step does to the chain: `handle_block_to_main_chain` puts
one block at its end, with the header of `mainHeaderInfo`, and
`pop_block_from_blockchain` takes the last one away.  From these, by induction
over the steps, what holds of every reachable chain.

A step that fails is not a step of a run: `add_new_block` aborts the database
transaction it happens in.
-/

namespace Chinet

open Procedure

variable {env : Env}

/-! ## Successful steps, taken apart -/

/-- The stages of a block that `handle_block_to_main_chain` adds. -/
structure AddedBlock (env : Env) (now : Nat) (bl : Block) (id : Hash) (onboard : TransactionsMap)
    (node node' : Node) where
  currentDiffic : WideDifficulty
  stakeHash : Hash
  totals : BlockTotals
  bei : BlockExtendedInfo
  afterHeader : Node
  afterCoinbase : Node
  afterTransactions : Node
  afterInfo : Node
  prevId_eq : bl.prevId = node.db.topBlockId env.crypto
  header : checkBlockHeader env now bl id node = (.ok (currentDiffic, stakeHash), afterHeader)
  coinbase : addTransactionFromBlock env bl.minerTx (getTransactionHash env.crypto bl.minerTx)
    node.db.size afterHeader = (.ok (), afterCoinbase)
  transactions : addBlockTransactions env now bl id onboard 0 (coinbaseTotals env bl) bl.txHashes
    afterCoinbase = (.ok totals, afterTransactions)
  info : makeBlockExtendedInfo env bl id totals currentDiffic stakeHash
    (FiniteStore.size node.db.aliases) afterTransactions = (.ok bei, afterInfo)
  result : node' = { afterInfo with db := pushBlock id bei totals.gindices afterInfo.db }

theorem addBlockToMainChain_ok {now : Nat} {bl : Block} {id : Hash} {onboard : TransactionsMap}
    {node node' : Node} (hprev : bl.prevId = node.db.topBlockId env.crypto)
    (h : addBlockToMainChain env now bl id onboard node = (.ok (), node')) :
    Nonempty (AddedBlock env now bl id onboard node node') := by
  unfold addBlockToMainChain at h
  rw [bind_ok_iff] at h
  obtain ⟨⟨currentDiffic, stakeHash⟩, n₁, hheader, h⟩ := h
  have hstore := (keeps_checkBlockHeader env now bl id).eq_of_run hheader
  have hdb : n₁.db = node.db := congrArg Prod.fst hstore
  simp only [gets_bind, hdb] at h
  rw [bind_ok_iff] at h
  obtain ⟨_, n₂, hcoinbase, h⟩ := h
  rw [bind_ok_iff] at h
  obtain ⟨totals, n₃, htxs, h⟩ := h
  rw [bind_ok_iff] at h
  obtain ⟨bei, n₄, hinfo, h⟩ := h
  rw [onReject_ok_iff] at hinfo
  simp only [modify_apply, Prod.mk.injEq, true_and] at h
  exact ⟨⟨currentDiffic, stakeHash, totals, bei, n₁, n₂, n₃, n₄, hprev, hheader, hcoinbase, htxs,
    hinfo, h.symm⟩⟩

theorem handleBlockToMainChain_added {now : Nat} {bl : Block} {id : Hash}
    {onboard : TransactionsMap} {node node' : Node}
    (h : handleBlockToMainChain env now bl id onboard node = (.ok .addedToMainChain, node')) :
    Nonempty (AddedBlock env now bl id onboard node node') := by
  unfold handleBlockToMainChain at h
  rw [gets_bind] at h
  split at h
  · simp at h
  · rename_i hprev
    rw [bind_ok_iff] at h
    obtain ⟨added, n, hadd, h⟩ := h
    cases added with
    | false => simp at h
    | true =>
        simp only [if_true, pure_apply, Prod.mk.injEq, true_and] at h
        subst h
        exact addBlockToMainChain_ok (not_not.mp hprev) (succeeds_eq_true_iff.mp hadd)

/-! ## Headers -/

/-- The checks a header passes, and the difficulty and stake hash it gets. -/
structure CheckedHeader (env : Env) (now : Nat) (bl : Block) (id : Hash) (db : Db)
    (currentDiffic : WideDifficulty) (stakeHash : Hash) : Prop where
  timestamp : checkBlockTimestampMain db.headers now bl = true
  difficulty_eq : currentDiffic = getNextDiffConditional env db.headers (isPosBlock bl)
  difficulty_ne_zero : currentDiffic ≠ 0
  pos_allowed : isPosBlock bl = true → env.config.posMinimumHeigh ≤ db.size
  proof : checkProof env db (env.checkpoints.isInCheckpointZone db.size) now bl id currentDiffic =
    .ok stakeHash
  minerTx : prevalidateMinerTransaction env bl db.size (isPosBlock bl) = .ok ()

theorem nextDiffConditional_apply (env : Env) (pos : Bool) (node : Node) :
    ∃ node', nextDiffConditional env pos node =
        (.ok (getNextDiffConditional env node.db.headers pos), node') ∧
      node'.store = node.store ∧ node'.isInCheckpointZone = node.isInCheckpointZone := by
  unfold nextDiffConditional
  dsimp only
  split
  · exact ⟨node, rfl, rfl, rfl⟩
  · split
    · exact ⟨_, rfl, rfl, rfl⟩
    · exact ⟨_, rfl, rfl, rfl⟩

theorem checkBlockHeader_ok {now : Nat} {bl : Block} {id : Hash} {node node' : Node}
    {currentDiffic : WideDifficulty} {stakeHash : Hash}
    (h : checkBlockHeader env now bl id node = (.ok (currentDiffic, stakeHash), node')) :
    CheckedHeader env now bl id node.db currentDiffic stakeHash := by
  unfold checkBlockHeader at h
  rw [check_bind_ok_iff] at h
  obtain ⟨_, htimestamp, h⟩ := h
  rw [bind_ok_iff] at h
  obtain ⟨_, n₁, hzone, h⟩ := h
  unfold enterCheckpointZone at hzone
  rw [modify_bind] at hzone
  simp only [check_apply, Prod.mk.injEq] at hzone
  obtain ⟨_, rfl⟩ := hzone
  rw [check_bind_ok_iff] at h
  obtain ⟨_, hpos, h⟩ := h
  rw [bind_ok_iff] at h
  obtain ⟨diff, n₂, hdiff, h⟩ := h
  obtain ⟨n₂', hrun, hstore, hflag⟩ := nextDiffConditional_apply env (isPosBlock bl)
    { node with isInCheckpointZone := env.checkpoints.isInCheckpointZone node.db.size }
  rw [hrun] at hdiff
  simp only [Prod.mk.injEq, Except.ok.injEq] at hdiff
  obtain ⟨rfl, rfl⟩ := hdiff
  have hdb : n₂'.db = node.db := congrArg Prod.fst hstore
  simp only [check_bind_ok_iff, pure_apply, Prod.mk.injEq, Except.ok.injEq] at h
  obtain ⟨_, hne, stake, hproof, _, hminer, ⟨rfl, rfl⟩, _⟩ := h
  rw [hdb, hflag] at hproof
  rw [hdb] at hminer
  exact {
    timestamp := by simpa using htimestamp
    difficulty_eq := rfl
    difficulty_ne_zero := by simpa using hne
    pos_allowed := fun hp => by simpa [hp] using hpos
    proof := hproof
    minerTx := hminer }

/-! ## The information stored with a block -/

/-- The checks after the transactions of a block, and what is stored. -/
structure CheckedInfo (env : Env) (bl : Block) (id : Hash) (totals : BlockTotals) (db : Db)
    (aliasesCountBeforBlock : Nat) (bei : BlockExtendedInfo) (baseReward : UInt64) : Prop where
  aliases : FiniteStore.size db.aliases - aliasesCountBeforBlock ≤ maxAliasPerBlock
  minerTx : validateMinerTransaction db bl totals.cumulativeBlockSize totals.feeSummary =
    .ok baseReward
  sequence : sequenceFactorAllowed db.headers bl = true
  burned : totals.burnedCoins.toNat ≤ db.alreadyGeneratedCoins.toNat
  fresh : db.blocksIndex.lookup id = none
  generated : bei.alreadyGeneratedCoins =
    db.alreadyGeneratedCoins - BitVec.ofNat 128 totals.burnedCoins.toNat +
      BitVec.ofNat 128 baseReward.toNat
  size : bei.blockCumulativeSize = totals.cumulativeBlockSize

theorem makeBlockExtendedInfo_ok {bl : Block} {id : Hash} {totals : BlockTotals}
    {currentDiffic : WideDifficulty} {stakeHash : Hash} {count : Nat} {node node' : Node}
    {bei : BlockExtendedInfo}
    (h : makeBlockExtendedInfo env bl id totals currentDiffic stakeHash count node =
      (.ok bei, node')) :
    bei.toBlockHeaderInfo = mainHeaderInfo env node.db.headers bl currentDiffic stakeHash ∧
      ∃ baseReward, CheckedInfo env bl id totals node.db count bei baseReward := by
  have hmedian : Keeps Node.store (effectiveTxFeeMedian node.db.size) := by
    unfold effectiveTxFeeMedian
    split
    · exact keeps_getTxFeeMedian
    · exact Keeps.gets _
  unfold makeBlockExtendedInfo at h
  simp only [check_bind_ok_iff, gets_bind] at h
  obtain ⟨_, haliases, baseReward, hreward, _, hchecks, h⟩ := h
  rw [bind_ok_iff] at h
  obtain ⟨median, n₁, hrun, h⟩ := h
  have hdb : n₁.db = node.db := congrArg Prod.fst (hmedian.eq_of_run hrun)
  simp only [gets_apply, hdb, Prod.mk.injEq, Except.ok.injEq] at h
  obtain ⟨rfl, _⟩ := h
  simp only [require_bind_eq_ok, require_eq_ok, decide_eq_true_eq, Option.isNone_iff_eq_none]
    at haliases hchecks
  obtain ⟨hsequence, hburned, hfresh⟩ := hchecks
  exact ⟨rfl, baseReward, haliases, hreward, hsequence, hburned, hfresh, rfl, rfl⟩

/-! ## The chain after a step -/

namespace AddedBlock

variable {now : Nat} {bl : Block} {id : Hash} {onboard : TransactionsMap} {node node' : Node}
  (s : AddedBlock env now bl id onboard node node')

include s

theorem store_afterHeader : s.afterHeader.store = node.store :=
  (keeps_checkBlockHeader env now bl id).eq_of_run s.header

theorem frame_afterTransactions : s.afterTransactions.frame = node.frame := by
  have hcoinbase := (keeps_addTransactionFromBlock env bl.minerTx _ node.db.size).eq_of_run s.coinbase
  have htxs := (keeps_addBlockTransactions env now bl id onboard 0 (coinbaseTotals env bl)
    bl.txHashes).eq_of_run s.transactions
  have hheader := (keeps_frame_of_store (keeps_checkBlockHeader env now bl id)).eq_of_run s.header
  rw [htxs, hcoinbase, hheader]

theorem store_afterInfo : s.afterInfo.store = s.afterTransactions.store :=
  (keeps_makeBlockExtendedInfo env bl id _ _ _ _).eq_of_run s.info

theorem db_afterInfo : s.afterInfo.db = s.afterTransactions.db :=
  congrArg Prod.fst s.store_afterInfo

theorem chainView_afterTransactions : s.afterTransactions.db.chainView = node.db.chainView :=
  congrArg Prod.fst s.frame_afterTransactions

theorem blocks_afterTransactions : s.afterTransactions.db.blocks = node.db.blocks :=
  congrArg Prod.fst s.chainView_afterTransactions

theorem headers_afterTransactions : s.afterTransactions.db.headers = node.db.headers :=
  congrArg (List.map BlockExtendedInfo.toBlockHeaderInfo) s.blocks_afterTransactions

theorem db_eq : node'.db = pushBlock id s.bei s.totals.gindices s.afterTransactions.db := by
  have h : node'.db = pushBlock id s.bei s.totals.gindices s.afterInfo.db :=
    congrArg Node.db s.result
  rw [h, s.db_afterInfo]

theorem blocks_eq : node'.db.blocks = node.db.blocks ++ [s.bei] := by
  rw [s.db_eq, pushBlock, s.blocks_afterTransactions]

theorem blocksIndex_eq : node'.db.blocksIndex = node.db.blocksIndex.insert id s.bei.height := by
  have h : s.afterTransactions.db.blocksIndex = node.db.blocksIndex :=
    congrArg (fun view => view.2.1) s.chainView_afterTransactions
  rw [s.db_eq, pushBlock, h]

theorem altView_eq : node'.altView = node.altView := by
  have hinfo : s.afterInfo.altView = s.afterTransactions.altView :=
    congrArg (fun store => store.2.2) s.store_afterInfo
  have htxs : s.afterTransactions.altView = node.altView :=
    congrArg Prod.snd s.frame_afterTransactions
  have hresult : node'.altView = s.afterInfo.altView := (congrArg Node.altView s.result).trans rfl
  rw [hresult, hinfo, htxs]

theorem checkedHeader :
    CheckedHeader env now bl id node.db s.currentDiffic s.stakeHash :=
  checkBlockHeader_ok s.header

theorem header_eq :
    s.bei.toBlockHeaderInfo =
      mainHeaderInfo env node.db.headers bl s.currentDiffic s.stakeHash := by
  rw [(makeBlockExtendedInfo_ok s.info).1, s.headers_afterTransactions]

theorem headers_eq :
    node'.db.headers =
      node.db.headers ++ [mainHeaderInfo env node.db.headers bl s.currentDiffic s.stakeHash] := by
  rw [Db.headers, s.blocks_eq, List.map_append, ← s.header_eq]
  rfl

theorem height_eq : s.bei.height = node.db.size := by
  rw [s.header_eq, mainHeaderInfo, Db.headers_length]

theorem fresh : node.db.blocksIndex.lookup id = none := by
  obtain ⟨_, hinfo⟩ := (makeBlockExtendedInfo_ok s.info).2
  have h : s.afterTransactions.db.blocksIndex = node.db.blocksIndex :=
    congrArg (fun view => view.2.1) s.chainView_afterTransactions
  rw [← h]
  exact hinfo.fresh

end AddedBlock

/-- The stages of a successful `pop_block_from_blockchain`. -/
structure PoppedBlock (env : Env) (onboard : TransactionsMap) (node node' : Node) where
  bei : BlockExtendedInfo
  afterPurge : Node
  size_gt : node.db.size > 1
  last : node.db.blocks.getLast? = some bei
  purge : purgeBlockDataFromBlockchain env bei.bl bei.bl.txHashes.length node =
    (.ok onboard, afterPurge)
  result : node' = { afterPurge with
    db := { afterPurge.db with
      perBlockGindexIncs := afterPurge.db.perBlockGindexIncs.erase (bei.height % 2 ^ 32)
      blocksIndex := afterPurge.db.blocksIndex.erase (env.crypto.getBlockHash bei.bl)
      blocks := afterPurge.db.blocks.dropLast } }

theorem popBlockFromBlockchain_ok {onboard : TransactionsMap} {node node' : Node}
    (h : popBlockFromBlockchain env node = (.ok onboard, node')) :
    Nonempty (PoppedBlock env onboard node node') := by
  unfold popBlockFromBlockchain at h
  rw [check_bind_ok_iff] at h
  obtain ⟨_, hsize, h⟩ := h
  rw [gets_bind] at h
  cases hlast : node.db.blocks.getLast? with
  | none =>
      rw [hlast] at h
      simp at h
  | some bei =>
      rw [hlast] at h
      simp only [] at h
      rw [bind_ok_iff] at h
      obtain ⟨onboard', n, hpurge, h⟩ := h
      simp only [modify_bind, pure_apply, Prod.mk.injEq, Except.ok.injEq] at h
      obtain ⟨rfl, h⟩ := h
      exact ⟨⟨bei, n, by simpa using hsize, hlast, hpurge, h.symm⟩⟩

namespace PoppedBlock

variable {onboard : TransactionsMap} {node node' : Node} (s : PoppedBlock env onboard node node')

include s

theorem frame_afterPurge : s.afterPurge.frame = node.frame :=
  (keeps_purgeBlockDataFromBlockchain env _ _).eq_of_run s.purge

theorem blocks_eq : node'.db.blocks = node.db.blocks.dropLast := by
  have h : s.afterPurge.db.blocks = node.db.blocks :=
    congrArg (fun frame => frame.1.1) s.frame_afterPurge
  have hresult : node'.db.blocks = s.afterPurge.db.blocks.dropLast :=
    congrArg (fun node => node.db.blocks) s.result
  rw [hresult, h]

theorem headers_eq : node'.db.headers = node.db.headers.dropLast := by
  rw [Db.headers, s.blocks_eq, List.map_dropLast]
  rfl

theorem blocksIndex_eq :
    node'.db.blocksIndex = node.db.blocksIndex.erase (env.crypto.getBlockHash s.bei.bl) := by
  have h : s.afterPurge.db.blocksIndex = node.db.blocksIndex :=
    congrArg (fun frame => frame.1.2.1) s.frame_afterPurge
  have hresult : node'.db.blocksIndex =
      s.afterPurge.db.blocksIndex.erase (env.crypto.getBlockHash s.bei.bl) :=
    congrArg (fun node => node.db.blocksIndex) s.result
  rw [hresult, h]

theorem altView_eq : node'.altView = node.altView := by
  have h : s.afterPurge.altView = node.altView := congrArg Prod.snd s.frame_afterPurge
  have hresult : node'.altView = s.afterPurge.altView := (congrArg Node.altView s.result).trans rfl
  rw [hresult, h]

end PoppedBlock

/-! ## Reachable chains -/

/-- The databases that successful steps lead to from the genesis block.  The
parts of the node outside the database may be anything at each step. -/
inductive Reachable (env : Env) : Db → Prop
  | genesis {now : Nat} {bl : Block} {onboard : TransactionsMap} {node node' : Node}
      (hempty : node.db = Db.empty) (htxs : bl.txHashes = [])
      (hrun : handleBlockToMainChain env now bl (env.crypto.getBlockHash bl) onboard node =
        (.ok .addedToMainChain, node')) : Reachable env node'.db
  | addBlock {now : Nat} {bl : Block} {onboard : TransactionsMap} {node node' : Node}
      (hreach : Reachable env node.db)
      (hrun : handleBlockToMainChain env now bl (env.crypto.getBlockHash bl) onboard node =
        (.ok .addedToMainChain, node')) : Reachable env node'.db
  | popBlock {onboard : TransactionsMap} {node node' : Node} (hreach : Reachable env node.db)
      (hrun : popBlockFromBlockchain env node = (.ok onboard, node')) : Reachable env node'.db

/-! ## The headers of a reachable chain -/

theorem checkProof_pos {now : Nat} {bl : Block} {id : Hash} {db : Db} {zone : Bool}
    {currentDiffic : WideDifficulty} {stakeHash : Hash} (hpos : isPosBlock bl = true)
    (h : checkProof env db zone now bl id currentDiffic = .ok stakeHash) :
    validatePosBlockKernel env db.headers [] 0 bl currentDiffic = .ok stakeHash := by
  rw [checkProof, if_pos hpos, validatePosBlock] at h
  rw [bind_eq_ok] at h
  obtain ⟨_, _, h⟩ := h
  cases hinput : coinstakeInput? bl.minerTx with
  | none =>
      rw [hinput] at h
      cases h
  | some coinstakeIn =>
      rw [hinput] at h
      simp only [require_bind_eq_ok] at h
      obtain ⟨_, h⟩ := h
      rw [bind_eq_ok] at h
      obtain ⟨proofHash, hkernel, h⟩ := h
      rw [bind_eq_ok] at h
      obtain ⟨_, _, h⟩ := h
      cases h
      exact hkernel

theorem checkProof_pow {now : Nat} {bl : Block} {id : Hash} {db : Db} {zone : Bool}
    {currentDiffic : WideDifficulty} {stakeHash : Hash} (hpow : isPosBlock bl = false)
    (h : checkProof env db zone now bl id currentDiffic = .ok stakeHash) :
    checkHash (env.crypto.getBlockLonghash bl) currentDiffic = true ∧ stakeHash = nullHash := by
  rw [checkProof, if_neg (by simp [hpow])] at h
  simp only [require_bind_eq_ok] at h
  obtain ⟨hhash, h⟩ := h
  cases h
  exact ⟨hhash, rfl⟩

namespace CheckedHeader

variable {now : Nat} {bl : Block} {id : Hash} {db : Db} {currentDiffic : WideDifficulty}
  {stakeHash : Hash} (h : CheckedHeader env now bl id db currentDiffic stakeHash)

include h

theorem stakeHash_eq : stakeHash = stakeHashOf env db.headers bl := by
  cases hpos : isPosBlock bl with
  | false => rw [stakeHashOf_of_pow hpos, (checkProof_pow hpos h.proof).2]
  | true => exact (stakeHashOf_of_kernel hpos (checkProof_pos hpos h.proof)).symm

theorem header_eq :
    mainHeaderInfo env db.headers bl currentDiffic stakeHash = nextHeader env db.headers bl := by
  rw [nextHeader, ← h.difficulty_eq, ← h.stakeHash_eq]

theorem wellFormed (hchain : WellFormedChain db.headers) :
    WellFormedChain (db.headers ++ [nextHeader env db.headers bl]) := by
  refine hchain.snoc_nextHeader ?_ fun hpos => ⟨currentDiffic, stakeHash, checkProof_pos hpos h.proof⟩
  rw [← h.difficulty_eq]
  exact h.difficulty_ne_zero

end CheckedHeader

theorem AddedBlock.headers_eq_nextHeader {now : Nat} {bl : Block} {id : Hash}
    {onboard : TransactionsMap} {node node' : Node} (s : AddedBlock env now bl id onboard node node') :
    node'.db.headers = node.db.headers ++ [nextHeader env node.db.headers bl] := by
  rw [s.headers_eq, s.checkedHeader.header_eq]

/-- Every reachable chain is well formed. -/
theorem Reachable.wellFormed {db : Db} (h : Reachable env db) : WellFormedChain db.headers := by
  induction h with
  | genesis hempty htxs hrun =>
      obtain ⟨s⟩ := handleBlockToMainChain_added hrun
      rw [s.headers_eq_nextHeader]
      refine s.checkedHeader.wellFormed ?_
      rw [hempty]
      exact WellFormedChain.nil
  | addBlock hreach hrun ih =>
      obtain ⟨s⟩ := handleBlockToMainChain_added hrun
      rw [s.headers_eq_nextHeader]
      exact s.checkedHeader.wellFormed ih
  | popBlock hreach hrun ih =>
      obtain ⟨s⟩ := popBlockFromBlockchain_ok hrun
      rw [s.headers_eq]
      exact ih.dropLast

/-! ## Runs that only add blocks -/

/-- Add blocks one after the other, as long as each is accepted. -/
def addBlocks (env : Env) (now : Nat) (onboard : TransactionsMap) : List Block → Node → Option Node
  | [], node => some node
  | bl :: rest, node =>
      match handleBlockToMainChain env now bl (env.crypto.getBlockHash bl) onboard node with
      | (.ok .addedToMainChain, node') => addBlocks env now onboard rest node'
      | _ => none

theorem Reachable.of_addBlocks {now : Nat} {onboard : TransactionsMap} {blocks : List Block}
    {node node' : Node} (hreach : Reachable env node.db)
    (h : addBlocks env now onboard blocks node = some node') : Reachable env node'.db := by
  induction blocks generalizing node with
  | nil =>
      cases h
      exact hreach
  | cons bl rest ih =>
      rw [addBlocks] at h
      split at h
      · rename_i n hrun
        exact ih (hreach.addBlock hrun) h
      · cases h

/-- A run from the empty database. -/
theorem reachable_of_addBlocks {now : Nat} {onboard : TransactionsMap} {genesis : Block}
    {rest : List Block} {node node' : Node} (hempty : node.db = Db.empty)
    (htxs : genesis.txHashes = [])
    (h : addBlocks env now onboard (genesis :: rest) node = some node') :
    Reachable env node'.db := by
  rw [addBlocks] at h
  split at h
  · rename_i n hrun
    exact (Reachable.genesis hempty htxs hrun).of_addBlocks h
  · cases h

/-! ## A sample environment

Concrete runs need concrete hashes.  Here a transaction is told apart by its
one-time key and a block by its nonce and height, every signature is valid and
every proof of work is good enough. -/

def sampleCrypto : CryptoPrimitives where
  prefixHash tx := getTxPubKeyFromExtra tx
  getBlockHash b := BitVec.ofNat 256 (1000000 * b.nonce.toNat + getBlockHeight b + 1)
  getBlockLonghash _ := 0
  getObjectBlobsize _ := 100
  multisigIdHash key out := BitVec.ofNat 256 (key.toNat * 2 ^ 64 + out.amount.toNat + 1)
  kernelHash _ := 0
  getSignBuffHashForAliasUpdate _ := 0
  attachmentBlob _ := (0, 0)
  checkKey _ := true
  validateKeyImage _ := true
  checkSignature _ _ _ := true
  checkRingSignature _ _ _ _ := true
  sha256Hash _ := 0
  ripemd160Hash _ := 0

def sampleEnv : Env where
  crypto := sampleCrypto
  config := getDefaultCoreRuntimeConfig
  checkpoints := []
  altBlocksOrder _ := []

def emptyNode : Node where
  db := Db.empty
  pool := ∅
  invalidBlocks := ∅
  alternativeChains := ∅
  alternativeChainsTxs := ∅
  altblocksKeyimages := ∅
  isInCheckpointZone := false
  isReorganizeInProcess := false
  cachedNextPosDifficulty := 0
  cachedNextPowDifficulty := 0
  currentFeeMedian := 0
  currentFeeMedianEffectiveIndex := 0

/-- A multisig output that one key may spend. -/
def sampleMultisigOut (amount : UInt64) : TxOut where
  amount
  target := .multisig { minimumSigs := 1, keys := [7] }

/-- The coinbase of height `height` on the branch `branch`. -/
def sampleCoinbase (branch height : Nat) (outs : List TxOut) : Transaction where
  version := currentTransactionVersion
  extra := [.publicKey (BitVec.ofNat 256 (1000 * branch + height + 1)),
    .unlockTime (height + currencyMinedMoneyUnlockWindow)]
  vin := [.gen height]
  vout := outs
  signatures := []
  attachment := []

/-- A PoW block on top of the block with id `prevId`. -/
def sampleBlock (branch height : Nat) (prevId : Hash) (outs : List TxOut) (txHashes : List Hash) :
    Block where
  majorVersion := blockMajorVersionInitial
  minorVersion := 0
  timestamp := difficultyPowTarget * height
  prevId
  nonce := UInt64.ofNat branch
  flags := 0
  minerTx := sampleCoinbase branch height outs
  txHashes

/-- The block of height `height` on branch 0: from the genesis on, each pays
its reward to a multisig output. -/
def samplePlainBlock (height : Nat) : Block :=
  sampleBlock 0 height (BitVec.ofNat 256 height)
    (if height = 0 then [] else [sampleMultisigOut currencyBlockReward]) []

/-- An output for one key. -/
def sampleKeyOut (amount : UInt64) : TxOut where
  amount
  target := .toKey { key := 7, mixAttr := 0 }

/-- A block on branch 0 that pays its reward to a key. -/
def sampleKeyBlock (height timestamp : Nat) : Block :=
  { sampleBlock 0 height (BitVec.ofNat 256 height)
      (if height = 0 then [] else [sampleKeyOut currencyBlockReward]) [] with timestamp }

/-- The staked input of a PoS block: a reward paid to a key. -/
def sampleStake (globalIndex : UInt64) : TxinToKey where
  amount := currencyBlockReward
  keyOffsets := [.globalIndex globalIndex]
  kImage := BitVec.ofNat 256 (globalIndex.toNat + 1)
  etcDetails := []

/-- A PoS block on top of the block of branch 0 below it. -/
def samplePosBlock (branch height : Nat) (stake : UInt64) (timestamp : Nat) : Block :=
  let b := sampleBlock branch height (BitVec.ofNat 256 height)
    [sampleMultisigOut (2 * currencyBlockReward)] []
  { b with
    timestamp
    flags := currencyBlockFlagPosBlock
    minerTx := { b.minerTx with
      vin := [.gen height, .toKey (sampleStake stake)]
      signatures := [[1]] } }

/-- An input for the multisig output of a block of `samplePlainBlock`'s kind. -/
def sampleMultisigInput (branch height : Nat) (amount : UInt64) : TxinMultisig where
  amount
  multisigOutId := sampleCrypto.multisigIdHash (BitVec.ofNat 256 (1000 * branch + height + 1))
    (sampleMultisigOut amount)
  sigsCount := 1
  etcDetails := []

/-- A signed transaction with multisig inputs. -/
def sampleMultisigTx (key : PublicKey) (inputs : List TxinMultisig) (outs : List TxOut) :
    Transaction where
  version := currentTransactionVersion
  extra := [.publicKey key]
  vin := inputs.map Txin.multisig
  vout := outs
  signatures := inputs.map fun _ => [1]
  attachment := []

/-- A signed transaction with inputs of any kind. -/
def sampleSpendTx (key : PublicKey) (inputs : List Txin) (outs : List TxOut) : Transaction :=
  { sampleMultisigTx key [] outs with vin := inputs, signatures := inputs.map fun _ => [1] }

/-- Where a run from the empty node ends, if every block is accepted. -/
theorem reachable_of_isSome_addBlocks {env : Env} {now : Nat} {onboard : TransactionsMap}
    {genesis : Block} {rest : List Block} (htxs : genesis.txHashes = [])
    (h : (addBlocks env now onboard (genesis :: rest) emptyNode).isSome = true) :
    Reachable env ((addBlocks env now onboard (genesis :: rest) emptyNode).getD emptyNode).db := by
  obtain ⟨node, hnode⟩ := Option.isSome_iff_exists.mp h
  rw [hnode, Option.getD_some]
  exact reachable_of_addBlocks rfl htxs hnode

end Chinet
