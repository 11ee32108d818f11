import Chinet.Alternative.Handle
import Chinet.Storage.Frame

/-!
# What an accepted alternative block passed

The inversion of `handle_alternative_block` up to the insertion of the block:
the checks that were passed, the entry that is stored and the state after it.
-/

namespace Chinet

open Procedure

variable {env : Env} {now : Nat} {b : Block} {onboard : TransactionsMap} {place : AltPlace}
  {node node' : Node}

/-! ## The place of a block -/

theorem size_ne_zero_of_lookup {κ ν : Type} [DecidableEq κ] {s : FiniteStore κ ν} {k : κ} {v : ν}
    (h : s.lookup k = some v) : FiniteStore.size s ≠ 0 := by
  have hmem : k ∈ s.keys := Finmap.mem_keys.mpr (Finmap.mem_of_lookup_eq_some h)
  exact Finset.card_ne_zero_of_mem hmem

/-- The walk from a block of the container ends with that block. -/
theorem Node.altChain_of_lookup {node : Node} {id : Hash} {abei : AltBlockExtendedInfo}
    (h : node.alternativeChains.lookup id = some abei) :
    ∃ below, node.altChain id = below ++ [abei] := by
  obtain ⟨fuel, hfuel⟩ := Nat.exists_eq_succ_of_ne_zero (size_ne_zero_of_lookup h)
  refine ⟨altChainFrom node.alternativeChains fuel abei.bl.prevId, ?_⟩
  rw [Node.altChain, hfuel, Nat.succ_eq_add_one, altChainFrom, h]

/-- The predecessor of a block is an alternative block, the head of the chain
below it, or a block of the main chain. -/
inductive FoundPlace (node : Node) (prevId : Hash) (place : AltPlace) : Prop
  | alternative (below : AltChain) (prev : AltBlockExtendedInfo)
      (lookup_eq : node.alternativeChains.lookup prevId = some prev)
      (altChain_eq : place.altChain = below ++ [prev])
      (walk_eq : place.altChain = node.altChain prevId)
      (prev_eq : place.prev = prev.toBlockHeaderInfo)
      (height_eq : place.height = prev.height + 1)
  | mainChain (mainPrev : Nat) (lookup_none : node.alternativeChains.lookup prevId = none)
      (lookup_eq : node.db.blocksIndex.lookup prevId = some mainPrev)
      (altChain_eq : place.altChain = [])
      (prev_eq : node.db.headers[mainPrev]? = some place.prev)
      (height_eq : place.height = mainPrev + 1)

theorem findAltPlace_ok {prevId : Hash} (h : findAltPlace node prevId = .ok (some place)) :
    FoundPlace node prevId place := by
  unfold findAltPlace at h
  cases halt : node.alternativeChains.lookup prevId with
  | some prev =>
      rw [halt] at h
      cases h
      obtain ⟨below, hbelow⟩ := Node.altChain_of_lookup halt
      exact .alternative below prev halt hbelow rfl rfl rfl
  | none =>
      rw [halt] at h
      cases hmain : node.db.blocksIndex.lookup prevId with
      | none =>
          rw [hmain] at h
          cases h
      | some mainPrev =>
          rw [hmain] at h
          cases hprev : node.db.headers[mainPrev]? with
          | none =>
              simp only [hprev] at h
              cases h
          | some prev =>
              simp only [hprev] at h
              cases h
              exact .mainChain mainPrev halt hmain rfl hprev rfl

/-! ## The header -/

structure CheckedAltHeader (env : Env) (now : Nat) (b : Block) (place : AltPlace) (node : Node)
    (header : BlockHeaderInfo) : Prop where
  timestamp : checkAltTimestamp env node now b place = .ok ()
  coinbaseHeight : getBlockHeight b = place.height
  connectionHeight_ne_zero : place.connectionHeight ≠ 0
  pos_allowed : isPosBlock b = true → env.config.posMinimumHeigh ≤ place.height
  difficulty_eq : header.difficulty =
    getNextDiffConditional2 env node.db.headers place.altChain.headers (isPosBlock b)
      place.connectionHeight place.height
  difficulty_ne_zero : header.difficulty ≠ 0
  proof : checkAltProof env node.db.headers place.altChain.headers place.connectionHeight b
    header.difficulty = .ok header.stakeHash
  minerTx : prevalidateMinerTransaction env b place.height (isPosBlock b) = .ok ()
  header_eq : header =
    altHeaderInfo env node.db.headers place.altChain.headers place.prev b place.height
      place.connectionHeight header.difficulty header.stakeHash

theorem checkAltHeader_ok {header : BlockHeaderInfo}
    (h : checkAltHeader env now b place node = (.ok header, node')) :
    CheckedAltHeader env now b place node header ∧
      node' = { node with
        isInCheckpointZone := env.checkpoints.isInCheckpointZone place.height } := by
  unfold checkAltHeader at h
  simp only [check_bind_ok_iff] at h
  obtain ⟨_, htimestamp, _, hheight, h⟩ := h
  rw [bind_ok_iff] at h
  obtain ⟨_, n, hzone, h⟩ := h
  unfold enterAltCheckpointZone at hzone
  rw [modify_bind] at hzone
  simp only [check_apply, Prod.mk.injEq] at hzone
  obtain ⟨_, rfl⟩ := hzone
  simp only [check_apply, Prod.mk.injEq] at h
  obtain ⟨hchecks, hnode⟩ := h
  simp only [require_bind_eq_ok, require_eq_ok] at hheight hchecks
  obtain ⟨hcoinbase, hconnection⟩ := hheight
  obtain ⟨hpos, hdiff, hchecks⟩ := hchecks
  rw [bind_eq_ok] at hchecks
  obtain ⟨stakeHash, hproof, hchecks⟩ := hchecks
  rw [bind_eq_ok] at hchecks
  obtain ⟨_, hminer, hchecks⟩ := hchecks
  cases hchecks
  refine ⟨?_, hnode.symm⟩
  exact {
    timestamp := htimestamp
    coinbaseHeight := by simpa using hcoinbase
    connectionHeight_ne_zero := by simpa using hconnection
    pos_allowed := fun hp => by simpa [hp] using hpos
    difficulty_eq := rfl
    difficulty_ne_zero := by simpa [altHeaderInfo] using hdiff
    proof := hproof
    minerTx := hminer
    header_eq := rfl }

/-! ## The block -/

structure AcceptedAltBlock (env : Env) (now : Nat) (b : Block) (onboard : TransactionsMap)
    (place : AltPlace) (node node' : Node) (abei : AltBlockExtendedInfo) where
  keyImages : List KeyImage
  indexes : AltOutIndexes
  header : CheckedAltHeader env now b place node abei.toBlockHeaderInfo
  onboard_eq : abei.onboardTransactions = completeOnboardTransactions node b.txHashes onboard
  txs : validateAltBlockTxs env
    { node with isInCheckpointZone := env.checkpoints.isInCheckpointZone place.height }
    { altChain := place.altChain
      splitHeight := place.connectionHeight
      altChainBlockIds := env.crypto.getBlockHash b ::
        place.altChain.map (fun abei => env.crypto.getBlockHash abei.bl) }
    now b (env.crypto.getBlockHash b) place.height abei.onboardTransactions =
      .ok (keyImages, indexes)
  sequence : altSequenceFactorAllowed env node.db.headers place.altChain.headers b place.height
    place.connectionHeight = true
  fresh : node.alternativeChains.lookup (env.crypto.getBlockHash b) = none
  result : node' = insertAltblock (env.crypto.getBlockHash b) abei keyImages
    { node with isInCheckpointZone := env.checkpoints.isInCheckpointZone place.height }

theorem acceptAlternativeBlock_ok {abei : AltBlockExtendedInfo}
    (h : acceptAlternativeBlock env now b onboard place node = (.ok abei, node')) :
    Nonempty (AcceptedAltBlock env now b onboard place node node' abei) := by
  unfold acceptAlternativeBlock at h
  simp only [gets_bind] at h
  rw [bind_ok_iff] at h
  obtain ⟨header, n, hheader, h⟩ := h
  obtain ⟨hchecked, rfl⟩ := checkAltHeader_ok hheader
  simp only [check_bind_ok_iff] at h
  obtain ⟨⟨keyImages, indexes⟩, htxs, _, hchecks, h⟩ := h
  simp only [modify_bind, pure_apply, Prod.mk.injEq, Except.ok.injEq] at h
  obtain ⟨rfl, hnode⟩ := h
  simp only [require_bind_eq_ok, require_eq_ok, Option.isNone_iff_eq_none] at hchecks
  exact ⟨{
    keyImages, indexes
    header := hchecked
    onboard_eq := rfl
    txs := htxs
    sequence := hchecks.1
    fresh := hchecks.2
    result := hnode.symm }⟩

theorem AcceptedAltBlock.bl_eq {abei : AltBlockExtendedInfo}
    (s : AcceptedAltBlock env now b onboard place node node' abei) : abei.bl = b := by
  have h := congrArg BlockHeaderInfo.bl s.header.header_eq
  rw [h, altHeaderInfo]

end Chinet
