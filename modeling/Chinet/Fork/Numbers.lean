import Chinet.Alternative.Accept
import Chinet.Storage.Chain

/-!
# The same numbers on both sides of a fork

A branch that was built block by block as an alternative chain carries the
headers that the main chain would store for the same blocks.  Both are
`extendHeaders` of the common prefix, a function of the blocks alone:

* `MainBuilt`: blocks added by `handle_block_to_main_chain` on top of `P`.
* `AltBuilt`: blocks accepted by `handle_alternative_block`, each in any node
  whose main chain starts with `P` and whose alternative chain below the block
  is the branch so far.
-/

namespace Chinet

variable {env : Env} {P : List BlockHeaderInfo}

/-! ## The two ways to build a branch -/

inductive MainBuilt (env : Env) (P : List BlockHeaderInfo) : List BlockHeaderInfo → Prop
  | nil : MainBuilt env P []
  | snoc {B : List BlockHeaderInfo} {bei : BlockHeaderInfo} {now : Nat} {bl : Block} {id : Hash}
      {onboard : TransactionsMap} {node node' : Node} (hB : MainBuilt env P B)
      (hmain : node.db.headers = P ++ B)
      (hrun : handleBlockToMainChain env now bl id onboard node = (.ok .addedToMainChain, node'))
      (hstored : node'.db.headers = P ++ B ++ [bei]) : MainBuilt env P (B ++ [bei])

inductive AltBuilt (env : Env) (P : List BlockHeaderInfo) : List BlockHeaderInfo → Prop
  | nil : AltBuilt env P []
  | snoc {A : List BlockHeaderInfo} {abei : AltBlockExtendedInfo} {now : Nat} {b : Block}
      {onboard : TransactionsMap} {place : AltPlace} {node node' : Node} (hA : AltBuilt env P A)
      (hmain : node.db.headers.take P.length = P)
      (hplace : findAltPlace node b.prevId = .ok (some place))
      (hbranch : place.altChain.headers = A) (hsplit : A = [] → place.height = P.length)
      (hrun : acceptAlternativeBlock env now b onboard place node = (.ok abei, node')) :
      AltBuilt env P (A ++ [abei.toBlockHeaderInfo])

/-- The entry an alternative block gets is the one `acceptAlternativeBlock`
returns: every other way out of `handle_alternative_block` stores nothing. -/
theorem handleAlternativeBlock_stores {now : Nat} {b : Block} {onboard : TransactionsMap}
    {node node' : Node} (h : handleAlternativeBlock env now b onboard node =
      (.ok .addedToAltchain, node')) :
    ∃ place abei node₁, findAltPlace node b.prevId = .ok (some place) ∧
      acceptAlternativeBlock env now b onboard place node = (.ok abei, node₁) := by
  unfold handleAlternativeBlock handleAlternativeBlockWith at h
  rw [Procedure.check_bind_ok_iff] at h
  obtain ⟨_, _, h⟩ := h
  unfold catchThrown at h
  split at h
  · simp at h
  · rw [Procedure.check_bind_ok_iff] at h
    obtain ⟨place?, hplace, h⟩ := h
    cases place? with
    | none =>
        rw [Procedure.bind_ok_iff] at h
        obtain ⟨_, _, _, h⟩ := h
        simp at h
    | some place =>
        rw [Procedure.bind_ok_iff] at h
        obtain ⟨abei, node₁, hrun, _⟩ := h
        exact ⟨place, abei, node₁, hplace, hrun⟩

/-! ## The main side -/

theorem MainBuilt.eq_extendHeaders {B : List BlockHeaderInfo} (h : MainBuilt env P B) :
    P ++ B = extendHeaders env P (B.map BlockHeaderInfo.bl) := by
  induction h with
  | nil => simp [extendHeaders]
  | snoc hB hmain hrun hstored ih =>
      obtain ⟨s⟩ := handleBlockToMainChain_added hrun
      have hheaders := s.headers_eq_nextHeader
      rw [hstored, hmain] at hheaders
      have hbei := List.singleton_inj.mp (List.append_cancel_left hheaders)
      rw [List.map_append, List.map_singleton, extendHeaders_snoc, ← ih, ← List.append_assoc, hbei]
      rfl

/-! ## The alternative side -/

/-- The place of a block is the top of `P ++ A`, the branch leaving after `P`. -/
structure OnTopOf (P A : List BlockHeaderInfo) (place : AltPlace) : Prop where
  prev_eq : (P ++ A).getLast? = some place.prev
  height_eq : place.height = (P ++ A).length
  connectionHeight_eq : place.connectionHeight = P.length

theorem FoundPlace.onTopOf {node : Node} {prevId : Hash} {place : AltPlace}
    {A : List BlockHeaderInfo} (h : FoundPlace node prevId place)
    (hmain : node.db.headers.take P.length = P) (hbranch : place.altChain.headers = A)
    (hsplit : A = [] → place.height = P.length) (hchain : WellFormedChain (P ++ A)) :
    OnTopOf P A place := by
  cases h with
  | alternative below prev lookup_eq altChain_eq walk_eq prev_eq height_eq =>
      have hA : A = AltChain.headers below ++ [prev.toBlockHeaderInfo] := by
        rw [← hbranch, altChain_eq, AltChain.headers, List.map_append]
        rfl
      have hprevHeight : prev.height = (P ++ AltChain.headers below).length :=
        hchain.height_eq _ prev.toBlockHeaderInfo [] (by rw [hA, List.append_assoc])
      refine ⟨?_, ?_, ?_⟩
      · rw [hA, ← List.append_assoc, List.getLast?_concat, prev_eq]
      · rw [height_eq, hprevHeight, hA, ← List.append_assoc]
        simp only [List.length_append, List.length_singleton]
      · cases hfront : place.altChain with
        | nil => simp [hfront] at altChain_eq
        | cons front rest =>
            rw [AltPlace.connectionHeight, hfront]
            refine hchain.height_eq P front.toBlockHeaderInfo (AltChain.headers rest) ?_
            rw [← hbranch, hfront]
            rfl
  | mainChain mainPrev lookup_none lookup_eq altChain_eq prev_eq height_eq =>
      have hA : A = [] := by rw [← hbranch, altChain_eq]; rfl
      subst hA
      have hheight := hsplit rfl
      have hlen : mainPrev + 1 = P.length := by rw [← height_eq, hheight]
      refine ⟨?_, ?_, ?_⟩
      · rw [List.append_nil, List.getLast?_eq_getElem?, ← prev_eq, ← hmain, List.length_take,
          List.getElem?_take]
        have hlt : mainPrev < node.db.headers.length := (List.getElem?_eq_some_iff.mp prev_eq).1
        have hmin : min P.length node.db.headers.length - 1 = mainPrev := by omega
        rw [hmin, if_pos (by omega)]
      · rw [List.append_nil, hheight]
      · rw [AltPlace.connectionHeight, altChain_eq]
        exact hheight

/-- A connection height that is not zero leaves at least the genesis block below. -/
theorem OnTopOf.branches {A : List BlockHeaderInfo} {place : AltPlace} (h : OnTopOf P A place)
    {blocks : List BlockHeaderInfo} (hmain : blocks.take P.length = P)
    (hne : place.connectionHeight ≠ 0) : Branches blocks P where
  prefix_eq := hmain
  nonempty := by
    rintro rfl
    exact hne h.connectionHeight_eq

theorem OnTopOf.front_height {A : List BlockHeaderInfo} (hchain : WellFormedChain (P ++ A))
    (front : BlockHeaderInfo) (hfront : A.head? = some front) : front.height = P.length := by
  obtain ⟨rest, rfl⟩ := List.head?_eq_some_iff.mp hfront
  exact hchain.height_eq P front rest rfl

theorem checkAltProof_pos {blocks altChain : List BlockHeaderInfo} {connectionHeight : Nat} {b : Block}
    {currentDiff : WideDifficulty} {stakeHash : Hash} (hpos : isPosBlock b = true)
    (h : checkAltProof env blocks altChain connectionHeight b currentDiff = .ok stakeHash) :
    validatePosBlockKernel env blocks altChain connectionHeight b currentDiff = .ok stakeHash := by
  rw [checkAltProof, if_pos hpos, bind_eq_ok] at h
  obtain ⟨_, _, h⟩ := h
  rw [bind_eq_ok] at h
  obtain ⟨proofHash, hkernel, h⟩ := h
  simp only [require_bind_eq_ok] at h
  obtain ⟨_, h⟩ := h
  cases h
  exact hkernel

theorem checkAltProof_pow {blocks altChain : List BlockHeaderInfo} {connectionHeight : Nat} {b : Block}
    {currentDiff : WideDifficulty} {stakeHash : Hash} (hpow : isPosBlock b = false)
    (h : checkAltProof env blocks altChain connectionHeight b currentDiff = .ok stakeHash) :
    stakeHash = nullHash := by
  rw [checkAltProof, if_neg (by simp [hpow])] at h
  simp only [require_bind_eq_ok] at h
  obtain ⟨_, h⟩ := h
  cases h
  rfl

/-- One accepted alternative block: its header is `nextHeader`, and the branch
stays well formed. -/
theorem CheckedAltHeader.eq_nextHeader {now : Nat} {b : Block} {place : AltPlace} {node : Node}
    {header : BlockHeaderInfo} (h : CheckedAltHeader env now b place node header)
    (hmain : node.db.headers.take P.length = P) {A : List BlockHeaderInfo}
    (hbranch : place.altChain.headers = A) (hplace : OnTopOf P A place)
    (hchain : WellFormedChain (P ++ A)) :
    header = nextHeader env (P ++ A) b ∧ WellFormedChain (P ++ A ++ [nextHeader env (P ++ A) b]) := by
  have hbranches := hplace.branches hmain h.connectionHeight_ne_zero
  have hdiff : header.difficulty = getNextDiffConditional env (P ++ A) (isPosBlock b) := by
    rw [h.difficulty_eq, hbranch, hplace.connectionHeight_eq, hplace.height_eq]
    exact getNextDiffConditional2_eq hbranches hchain (isPosBlock b)
  have hkernel : isPosBlock b = true →
      validatePosBlockKernel env (P ++ A) [] 0 b header.difficulty = .ok header.stakeHash := by
    intro hpos
    have hproof := checkAltProof_pos hpos h.proof
    rw [hbranch, hplace.connectionHeight_eq] at hproof
    rw [← validatePosBlockKernel_branch hbranches A]
    exact hproof
  have hstake : header.stakeHash = stakeHashOf env (P ++ A) b := by
    cases hpos : isPosBlock b with
    | false => rw [stakeHashOf_of_pow hpos, checkAltProof_pow hpos h.proof]
    | true => exact (stakeHashOf_of_kernel hpos (hkernel hpos)).symm
  refine ⟨?_, hchain.snoc_nextHeader ?_ fun hpos => ⟨_, _, hkernel hpos⟩⟩
  · calc header
        = altHeaderInfo env node.db.headers A place.prev b (P ++ A).length P.length
            header.difficulty header.stakeHash := by
          rw [← hbranch, ← hplace.connectionHeight_eq, hbranch, ← hplace.height_eq, ← hbranch]
          exact h.header_eq
      _ = mainHeaderInfo env (P ++ A) b header.difficulty header.stakeHash :=
          altHeaderInfo_eq hbranches hchain (OnTopOf.front_height hchain) hplace.prev_eq b _ _
      _ = nextHeader env (P ++ A) b := by rw [nextHeader, ← hdiff, ← hstake]
  · rw [← hdiff]
    exact h.difficulty_ne_zero

theorem AltBuilt.eq_extendHeaders {A : List BlockHeaderInfo} (h : AltBuilt env P A)
    (hP : WellFormedChain P) :
    P ++ A = extendHeaders env P (A.map BlockHeaderInfo.bl) ∧ WellFormedChain (P ++ A) := by
  induction h with
  | nil => exact ⟨by simp [extendHeaders], by simpa using hP⟩
  | @snoc A abei now b onboard place node node' hA hmain hplace hbranch hsplit hrun ih =>
      obtain ⟨hheaders, hchain⟩ := ih
      obtain ⟨s⟩ := acceptAlternativeBlock_ok hrun
      have htop := (findAltPlace_ok hplace).onTopOf hmain hbranch hsplit hchain
      obtain ⟨heq, hchain'⟩ := s.header.eq_nextHeader hmain hbranch htop hchain
      have hbl : abei.toBlockHeaderInfo.bl = b := s.bl_eq
      rw [← List.append_assoc]
      refine ⟨?_, by rw [heq]; exact hchain'⟩
      rw [List.map_append, List.map_singleton, hbl, extendHeaders_snoc, ← hheaders, heq]

/-! ## Agreement -/

/-- The sequence factors that enter the stored difficulties agree as well. -/
theorem sequenceFactors_agree {A B blocks : List BlockHeaderInfo} (h : Branches blocks P)
    (hAB : A = B) (n : Nat) (pos : Bool) :
    getCurrentSequenceFactorForAlt blocks (A.take n) pos P.length =
      getCurrentSequenceFactor (P ++ B.take n) pos := by
  rw [hAB]
  exact getCurrentSequenceFactorForAlt_eq h (B.take n) pos

/-- **The same numbers on both sides of a fork.**  Let `P` be the first
`splitHeight` blocks of a reachable main chain.  A branch `A` built as an
alternative chain above `P` and a branch `B` of the same blocks added to a main
chain that ends with `P` carry the same headers: difficulty, stake hash and the
three cumulative difficulties of each block, and the same sequence factors on
the way. -/
theorem same_numbers_on_both_sides {db : Db} (hreach : Reachable env db) (splitHeight : Nat)
    {A B : List BlockHeaderInfo} (hA : AltBuilt env (db.headers.take splitHeight) A)
    (hB : MainBuilt env (db.headers.take splitHeight) B)
    (hblocks : A.map BlockHeaderInfo.bl = B.map BlockHeaderInfo.bl) :
    A = B ∧ ∀ blocks, Branches blocks (db.headers.take splitHeight) → ∀ n pos,
      getCurrentSequenceFactorForAlt blocks (A.take n) pos (db.headers.take splitHeight).length =
        getCurrentSequenceFactor (db.headers.take splitHeight ++ B.take n) pos := by
  obtain ⟨hheaders, _⟩ := hA.eq_extendHeaders (hreach.wellFormed.take splitHeight)
  have hAB : A = B := by
    have happend : db.headers.take splitHeight ++ A = db.headers.take splitHeight ++ B := by
      rw [hheaders, hB.eq_extendHeaders, hblocks]
    exact List.append_cancel_left happend
  exact ⟨hAB, fun _ hbranches n pos => sequenceFactors_agree hbranches hAB n pos⟩

/-! ### A fork above the genesis block -/

def sampleGenesisNode : Node :=
  (handleBlockToMainChain sampleEnv 100000 (samplePlainBlock 0) 1 ∅ emptyNode).2

/-- The competitor of `samplePlainBlock 1`. -/
def sampleFork : Block := sampleBlock 1 1 1 [sampleMultisigOut currencyBlockReward] []

def sampleMainNode : Node :=
  (handleBlockToMainChain sampleEnv 100000 (samplePlainBlock 1) 2 ∅ sampleGenesisNode).2

def sampleForkNode : Node :=
  (handleBlockToMainChain sampleEnv 100000 sampleFork 1000002 ∅ sampleGenesisNode).2

/-- The entry of a block accepted as the first one of a branch above the first
`splitHeight` blocks. -/
def acceptedAltblock (env : Env) (now : Nat) (b : Block) (splitHeight : Nat) (node : Node) :
    Option AltBlockExtendedInfo :=
  match findAltPlace node b.prevId with
  | .ok (some place) =>
      if place.altChain.isEmpty && place.height == splitHeight then
        match (acceptAlternativeBlock env now b ∅ place node).1 with
        | .ok abei => some abei
        | .error _ => none
      else none
  | _ => none

theorem altBuilt_of_acceptedAltblock {now : Nat} {b : Block} {node : Node}
    {abei : AltBlockExtendedInfo} (h : acceptedAltblock env now b P.length node = some abei)
    (hmain : node.db.headers.take P.length = P) :
    AltBuilt env P [abei.toBlockHeaderInfo] ∧ abei.bl = b := by
  unfold acceptedAltblock at h
  split at h
  · rename_i place hfound
    split at h
    · rename_i hplace
      simp only [Bool.and_eq_true, List.isEmpty_iff, beq_iff_eq] at hplace
      obtain ⟨halt, hheight⟩ := hplace
      rcases hrun : acceptAlternativeBlock env now b ∅ place node with ⟨e | accepted, node'⟩
      · rw [hrun] at h
        cases h
      · rw [hrun] at h
        cases h
        obtain ⟨s⟩ := acceptAlternativeBlock_ok hrun
        exact ⟨.snoc .nil hmain hfound (by rw [halt]; rfl) (fun _ => hheight) hrun, s.bl_eq⟩
    · cases h
  · cases h

theorem reachable_sampleGenesisNode : Reachable sampleEnv sampleGenesisNode.db := by
  have hgenesis : handleBlockToMainChain sampleEnv 100000 (samplePlainBlock 0) 1 ∅ emptyNode =
      (.ok .addedToMainChain, sampleGenesisNode) := Prod.ext (by decide) rfl
  exact .genesis rfl rfl hgenesis

theorem reachable_sampleMainNode : Reachable sampleEnv sampleMainNode.db := by
  have hadd : handleBlockToMainChain sampleEnv 100000 (samplePlainBlock 1) 2 ∅ sampleGenesisNode =
      (.ok .addedToMainChain, sampleMainNode) := Prod.ext (by decide) rfl
  exact .addBlock reachable_sampleGenesisNode hadd

/-- `sampleFork`, once accepted next to `samplePlainBlock 1` and once added on
top of the genesis block. -/
theorem same_numbers_on_sample_fork :
    ∃ A B : List BlockHeaderInfo, A.map BlockHeaderInfo.bl = [sampleFork] ∧
      AltBuilt sampleEnv (sampleGenesisNode.db.headers.take 1) A ∧
      MainBuilt sampleEnv (sampleGenesisNode.db.headers.take 1) B ∧ A = B := by
  have htake : sampleGenesisNode.db.headers.take 1 = sampleGenesisNode.db.headers := by
    decide
  have hlength : (sampleGenesisNode.db.headers.take 1).length = 1 := by decide
  have haccepted : (acceptedAltblock sampleEnv 100000 sampleFork 1 sampleMainNode).isSome = true := by
    decide
  obtain ⟨abei, habei⟩ := Option.isSome_iff_exists.mp haccepted
  rw [← hlength] at habei
  obtain ⟨hA, hAblock⟩ := altBuilt_of_acceptedAltblock habei (by decide)
  have hfork : handleBlockToMainChain sampleEnv 100000 sampleFork 1000002 ∅ sampleGenesisNode =
      (.ok .addedToMainChain, sampleForkNode) := Prod.ext (by decide) rfl
  obtain ⟨s⟩ := handleBlockToMainChain_added hfork
  have hB := MainBuilt.snoc (.nil (P := sampleGenesisNode.db.headers.take 1))
    (by rw [htake, List.append_nil]) hfork
    (by rw [htake, List.append_nil]; exact s.headers_eq_nextHeader)
  have hAblocks : [abei.toBlockHeaderInfo].map BlockHeaderInfo.bl = [sampleFork] := by
    rw [List.map_singleton, hAblock]
  refine ⟨_, _, hAblocks, hA, hB,
    (same_numbers_on_both_sides reachable_sampleGenesisNode 1 hA hB ?_).1⟩
  rw [hAblocks, List.nil_append, List.map_singleton]
  rfl

end Chinet
