import Chinet.Fork.Numbers

/-!
# Acceptance of a header on both sides of a fork

The header rules exist twice.  Both copies find the same difficulty, the same
stake modifier and the same kernel.  The rest is not alike.

* `check_block_timestamp_main` bounds the timestamp by the clock; the
  alternative copy calls `check_block_timestamp`, which has no bound for a PoW
  block, and one for a PoS block only while the window of 60 timestamps is full.
* `complete_timestamps_vector` stops before the genesis block, so that a chain of
  60 blocks does not fill the window; and from 61 blocks on, all timestamps of
  the alternative chain go into the median.
* `handle_alternative_block` limits PoS sequences up to the first hard fork only.
* `validate_pos_block` looks at the staked input on the main chain only: its key
  image, its signature, and the heights and locks of the outputs it names.

`acceptance_agrees_iff` says for which blocks the two copies agree nevertheless.
-/

namespace Chinet

variable {env : Env} {blocks P : List BlockHeaderInfo}

/-! ## The checks of the two copies -/

/-- What both copies check of the proof of a block: the difficulty, and the hash
or the kernel. -/
def proofPasses (env : Env) (blocks altChain : List BlockHeaderInfo) (splitHeight : Nat) (b : Block)
    (diff : WideDifficulty) : Bool :=
  diff != 0 &&
    if isPosBlock b then
      (do validatePosBlockHeader b
          validatePosBlockKernel env blocks altChain splitHeight b diff).isOk
    else checkHash (env.crypto.getBlockLonghash b) diff

/-- The header checks of `handle_alternative_block` for a block on top of the
branch `A`, which leaves `blocks` at `splitHeight`. -/
structure AltHeaderPasses (env : Env) (blocks A : List BlockHeaderInfo) (splitHeight now : Nat)
    (b : Block) : Prop where
  timestamp : checkBlockTimestamp
    (completeTimestampsVector blocks (splitHeight - 1) (A.reverse.map (·.bl.timestamp))) now b = true
  sequence : altSequenceFactorAllowed env blocks A b (splitHeight + A.length) splitHeight = true
  difficulty : getNextDiffConditional2 env blocks A (isPosBlock b) splitHeight
    (splitHeight + A.length) ≠ 0
  proof : ∃ stakeHash, checkAltProof env blocks A splitHeight b
    (getNextDiffConditional2 env blocks A (isPosBlock b) splitHeight (splitHeight + A.length)) =
      .ok stakeHash

/-- The header checks of `handle_block_to_main_chain` for a block on top of the
main chain of `db`. -/
structure MainHeaderPasses (env : Env) (db : Db) (now : Nat) (b : Block) : Prop where
  timestamp : checkBlockTimestampMain db.headers now b = true
  sequence : sequenceFactorAllowed db.headers b = true
  difficulty : getNextDiffConditional env db.headers (isPosBlock b) ≠ 0
  proof : ∃ stakeHash, checkProof env db (env.checkpoints.isInCheckpointZone db.size) now b
    (env.crypto.getBlockHash b) (getNextDiffConditional env db.headers (isPosBlock b)) =
      .ok stakeHash

/-- A block that `handle_block_to_main_chain` added passed these checks. -/
theorem AddedBlock.mainHeaderPasses {now : Nat} {bl : Block} {onboard : TransactionsMap}
    {node node' : Node}
    (s : AddedBlock env now bl (env.crypto.getBlockHash bl) onboard node node') :
    MainHeaderPasses env node.db now bl where
  timestamp := s.checkedHeader.timestamp
  sequence := by
    obtain ⟨_, hinfo⟩ := (makeBlockExtendedInfo_ok s.info).2
    rw [← s.headers_afterTransactions]
    exact hinfo.sequence
  difficulty := by
    rw [← s.checkedHeader.difficulty_eq]
    exact s.checkedHeader.difficulty_ne_zero
  proof := by
    rw [← s.checkedHeader.difficulty_eq]
    exact ⟨_, s.checkedHeader.proof⟩

theorem checkAltTimestamp_ok {node : Node} {now : Nat} {b : Block} {place : AltPlace}
    (h : checkAltTimestamp env node now b place = .ok ()) :
    checkBlockTimestamp (completeTimestampsVector node.db.headers (place.connectionHeight - 1)
      (place.altChain.reverse.map fun abei => abei.bl.timestamp)) now b = true := by
  unfold checkAltTimestamp at h
  dsimp only at h
  split at h
  · exact require_eq_ok.mp h
  · simp only [require_bind_eq_ok, requireThrow_bind_eq_ok] at h
    obtain ⟨_, _, h⟩ := h
    split at h
    · cases h
    · rw [require_bind_eq_ok] at h
      exact require_eq_ok.mp h.2

/-- So did a block that `handle_alternative_block` accepted. -/
theorem AcceptedAltBlock.altHeaderPasses {now : Nat} {b : Block} {onboard : TransactionsMap}
    {place : AltPlace} {node node' : Node} {abei : AltBlockExtendedInfo}
    (s : AcceptedAltBlock env now b onboard place node node' abei) {A : List BlockHeaderInfo}
    (hbranch : place.altChain.headers = A) (hplace : OnTopOf P A place) :
    AltHeaderPasses env node.db.headers A P.length now b := by
  have hdiff := s.header.difficulty_eq
  rw [hbranch, hplace.height_eq, hplace.connectionHeight_eq, List.length_append] at hdiff
  refine ⟨?_, ?_, ?_, ?_⟩
  · have htimestamp := checkAltTimestamp_ok s.header.timestamp
    rw [hplace.connectionHeight_eq] at htimestamp
    have hmap : A.reverse.map (·.bl.timestamp) =
        place.altChain.reverse.map fun abei => abei.bl.timestamp := by
      rw [← hbranch, AltChain.headers, ← List.map_reverse, List.map_map]
      rfl
    rw [hmap]
    exact htimestamp
  · have hsequence := s.sequence
    rw [hbranch, hplace.height_eq, hplace.connectionHeight_eq, List.length_append] at hsequence
    exact hsequence
  · rw [← hdiff]
    exact s.header.difficulty_ne_zero
  · have hproof := s.header.proof
    rw [hbranch, hplace.connectionHeight_eq] at hproof
    rw [← hdiff]
    exact ⟨_, hproof⟩

/-! ## Proofs -/

/-- The two copies agree on the part of the proof that both check. -/
theorem proofPasses_branch (env : Env) (h : Branches blocks P) {A : List BlockHeaderInfo}
    (hchain : WellFormedChain (P ++ A)) (b : Block) :
    proofPasses env blocks A P.length b
        (getNextDiffConditional2 env blocks A (isPosBlock b) P.length (P.length + A.length)) =
      proofPasses env (P ++ A) [] 0 b (getNextDiffConditional env (P ++ A) (isPosBlock b)) := by
  have hdiff : getNextDiffConditional2 env blocks A (isPosBlock b) P.length (P ++ A).length =
      getNextDiffConditional env (P ++ A) (isPosBlock b) :=
    getNextDiffConditional2_eq h hchain (isPosBlock b)
  rw [List.length_append] at hdiff
  rw [hdiff, proofPasses, proofPasses, validatePosBlockKernel_branch h]

/-- What `validate_pos_block` asks of a staked input on the main chain only. -/
structure StakeUsable (env : Env) (db : Db) (now : Nat) (b : Block) (stake : TxinToKey) : Prop where
  fresh : haveTxKeyimgAsSpent db stake.kImage = false
  spendable : ∃ scan,
    checkTxInputToKey env db (env.checkpoints.isInCheckpointZone db.size) now b.minerTx 1 stake
      (env.crypto.getBlockHash b) (b.minerTx.signatures.getD 0 []) 0 = .ok scan ∧
    (if env.isAfterHardfork1Zone (getBlockHeight b) then
      scan.maxRelatedBlockHeight ≤ getLastXBlockHeight db.headers false ∧
        validatePosCoinbaseOutsUnlockTime env b.minerTx stake.amount
          scan.sourceMaxUnlockTimeForPosCoinbase (getBlockHeight b) = true
    else isTxSpendtimeUnlocked scan.sourceMaxUnlockTimeForPosCoinbase db.size now = true) ∧
    env.config.minCoinstakeAge ≤ coinstakeAge db.size scan.maxRelatedBlockHeight

/-- A PoS block whose stake the main copy refuses. -/
def StakeRefused (env : Env) (db : Db) (now : Nat) (b : Block) : Prop :=
  isPosBlock b = true ∧ ∀ stake, coinstakeInput? b.minerTx = some stake →
    ¬ StakeUsable env db now b stake

/-- A PoS block on a chain of so few blocks that no stake is old enough. -/
def TooYoung (env : Env) (height : Nat) (b : Block) : Prop :=
  isPosBlock b = true ∧ coinstakeAge height 0 < env.config.minCoinstakeAge

theorem coinstakeInput?_of_isPosBlock {b : Block} (h : isPosBlock b = true) :
    ∃ stake, coinstakeInput? b.minerTx = some stake := by
  rw [isPosBlock, Bool.and_eq_true, isPosTransaction] at h
  obtain ⟨_, hvin⟩ := h
  split at hvin
  · rename_i height stake hinputs
    exact ⟨stake, by rw [coinstakeInput?, hinputs]⟩
  · cases hvin

/-- The proof of a PoS block, without the part of the main chain. -/
theorem proofPasses_pos {altChain : List BlockHeaderInfo} {splitHeight : Nat} {b : Block}
    {diff : WideDifficulty} (hpos : isPosBlock b = true) :
    proofPasses env blocks altChain splitHeight b diff = true ↔
      diff ≠ 0 ∧ validatePosBlockHeader b = .ok () ∧
        ∃ proofHash, validatePosBlockKernel env blocks altChain splitHeight b diff =
          .ok proofHash := by
  rw [proofPasses, if_pos hpos, Bool.and_eq_true, bne_iff_ne]
  refine and_congr_right fun _ => ?_
  cases hheader : validatePosBlockHeader b with
  | error e => simp [bind, Except.bind, Except.isOk, Except.toBool]
  | ok u =>
      cases hkernel : validatePosBlockKernel env blocks altChain splitHeight b diff with
      | error e => simp [bind, Except.bind, Except.isOk, Except.toBool]
      | ok proofHash => simp [bind, Except.bind, Except.isOk, Except.toBool]

theorem proofPasses_pow {altChain : List BlockHeaderInfo} {splitHeight : Nat} {b : Block}
    {diff : WideDifficulty} (hpow : isPosBlock b = false) :
    proofPasses env blocks altChain splitHeight b diff = true ↔
      diff ≠ 0 ∧ checkHash (env.crypto.getBlockLonghash b) diff = true := by
  rw [proofPasses, if_neg (by rw [hpow]; exact Bool.false_ne_true), Bool.and_eq_true, bne_iff_ne]

/-- The alternative copy asks for the common part and for a chain that is old enough. -/
theorem altProof_iff {A : List BlockHeaderInfo} {splitHeight : Nat} {b : Block}
    {diff : WideDifficulty} :
    (diff ≠ 0 ∧ ∃ stakeHash, checkAltProof env blocks A splitHeight b diff = .ok stakeHash) ↔
      proofPasses env blocks A splitHeight b diff = true ∧
        ¬ TooYoung env (splitHeight + A.length) b := by
  cases hpos : isPosBlock b with
  | false =>
      have hnot : ¬ TooYoung env (splitHeight + A.length) b := fun h => by
        rw [TooYoung, hpos] at h
        exact Bool.false_ne_true h.1
      rw [proofPasses_pow hpos, checkAltProof, if_neg (by rw [hpos]; exact Bool.false_ne_true),
        and_iff_left hnot]
      refine and_congr_right fun _ => ?_
      simp only [require_bind_eq_ok]
      exact ⟨fun ⟨_, hhash, _⟩ => hhash, fun hhash => ⟨nullHash, hhash, rfl⟩⟩
  | true =>
      have hyoung : ¬ TooYoung env (splitHeight + A.length) b ↔
          env.config.minCoinstakeAge ≤ coinstakeAge (splitHeight + A.length) 0 := by
        rw [TooYoung, and_iff_right hpos, Nat.not_lt]
      rw [proofPasses_pos hpos, checkAltProof, if_pos hpos, hyoung, and_assoc]
      refine and_congr_right fun _ => ?_
      constructor
      · rintro ⟨stakeHash, h⟩
        rw [bind_eq_ok] at h
        obtain ⟨_, hheader, h⟩ := h
        rw [bind_eq_ok] at h
        obtain ⟨proofHash, hkernel, h⟩ := h
        rw [require_bind_eq_ok, decide_eq_true_eq] at h
        exact ⟨⟨hheader, proofHash, hkernel⟩, h.1⟩
      · rintro ⟨⟨hheader, proofHash, hkernel⟩, hage⟩
        refine ⟨proofHash, ?_⟩
        rw [bind_eq_ok]
        refine ⟨(), hheader, ?_⟩
        rw [bind_eq_ok]
        refine ⟨proofHash, hkernel, ?_⟩
        rw [require_bind_eq_ok, decide_eq_true_eq]
        exact ⟨hage, rfl⟩

theorem stakeUsable_iff {db : Db} {now : Nat} {b : Block} {stake : TxinToKey} :
    StakeUsable env db now b stake ↔ haveTxKeyimgAsSpent db stake.kImage = false ∧
      validatePosBlockInputs env db (env.checkpoints.isInCheckpointZone db.size) now b
        (env.crypto.getBlockHash b) stake = .ok () := by
  rw [validatePosBlockInputs_eq_ok_iff_scan]
  exact ⟨fun h => ⟨h.fresh, h.spendable⟩, fun h => ⟨h.1, h.2⟩⟩

/-- The main copy asks for the common part and for a stake that can be used. -/
theorem mainProof_iff {db : Db} {now : Nat} {b : Block} {diff : WideDifficulty} :
    (diff ≠ 0 ∧ ∃ stakeHash, checkProof env db (env.checkpoints.isInCheckpointZone db.size) now b
        (env.crypto.getBlockHash b) diff = .ok stakeHash) ↔
      proofPasses env db.headers [] 0 b diff = true ∧ ¬ StakeRefused env db now b := by
  cases hpos : isPosBlock b with
  | false =>
      have hnot : ¬ StakeRefused env db now b := fun h => by
        rw [StakeRefused, hpos] at h
        exact Bool.false_ne_true h.1
      rw [proofPasses_pow hpos, checkProof, if_neg (by rw [hpos]; exact Bool.false_ne_true),
        and_iff_left hnot]
      refine and_congr_right fun _ => ?_
      simp only [require_bind_eq_ok]
      exact ⟨fun ⟨_, hhash, _⟩ => hhash, fun hhash => ⟨nullHash, hhash, rfl⟩⟩
  | true =>
      obtain ⟨stake, hstake⟩ := coinstakeInput?_of_isPosBlock hpos
      have hrefused : ¬ StakeRefused env db now b ↔ StakeUsable env db now b stake := by
        rw [StakeRefused, and_iff_right hpos, hstake]
        simp
      rw [proofPasses_pos hpos, checkProof, if_pos hpos, hrefused, stakeUsable_iff,
        validatePosBlock_isOk_iff_parts hstake, and_assoc, and_assoc]

/-! ## Timestamps -/

theorem median_perm {v w : List Nat} (h : v.Perm w) : median v = median w := by
  have hsorted : v.insertionSort (· ≤ ·) = w.insertionSort (· ≤ ·) :=
    (((List.perm_insertionSort _ v).trans h).trans
      (List.perm_insertionSort _ w).symm).eq_of_sortedLE (List.sortedLE_insertionSort)
        (List.sortedLE_insertionSort)
  rw [median, median, hsorted, h.length_eq]

/-- The last 60 timestamps of a chain. -/
def windowTimestamps (chain : List BlockHeaderInfo) : List Nat :=
  getLastNBlocksTimestamps chain blockchainTimestampCheckWindow

/-- The timestamps the alternative copy looks at. -/
def altWindowTimestamps (blocks A : List BlockHeaderInfo) (splitHeight : Nat) : List Nat :=
  completeTimestampsVector blocks (splitHeight - 1) (A.reverse.map (·.bl.timestamp))

theorem length_windowTimestamps (chain : List BlockHeaderInfo) :
    (windowTimestamps chain).length = min chain.length 60 := by
  simp only [windowTimestamps, getLastNBlocksTimestamps, blockchainTimestampCheckWindow,
    List.length_map, List.length_drop]
  omega

/-- What `complete_timestamps_vector` collects: all of a long alternative chain,
otherwise the end of `P ++ A`, without the genesis block unless the walk starts
there. -/
theorem altWindowTimestamps_eq (h : Branches blocks P) (A : List BlockHeaderInfo) :
    altWindowTimestamps blocks A P.length =
      if 60 ≤ A.length then (A.map (·.bl.timestamp)).reverse
      else if P.length = 1 then ((P ++ A).map (·.bl.timestamp)).reverse
      else (((P ++ A).drop (max 1 ((P ++ A).length - 60))).map (·.bl.timestamp)).reverse := by
  have hpos := h.length_ne_zero
  have hle := h.length_le
  have htake : blocks.take (P.length - 1 + 1) = P := by
    rw [Nat.sub_add_cancel (by omega), h.prefix_eq]
  unfold altWindowTimestamps completeTimestampsVector
  simp only [List.length_map, List.length_reverse, blockchainTimestampCheckWindow, ge_iff_le]
  by_cases hlong : 60 ≤ A.length
  · rw [if_pos hlong, if_pos hlong, List.map_reverse]
  · rw [if_neg hlong, if_neg hlong, if_pos (by omega : P.length - 1 < blocks.length),
      completedHeaders]
    by_cases hone : P.length = 1
    · have hgenesis : blocks.take 1 = P := by rw [← hone, h.prefix_eq]
      obtain ⟨genesis, rfl⟩ := List.length_eq_one_iff.mp hone
      rw [if_pos hone, if_pos (by omega), hgenesis]
      simp
    · dsimp only
      have hdrop : (P ++ A).drop (max 1 ((P ++ A).length - 60)) =
          P.drop (max 1 ((P ++ A).length - 60)) ++ A := by
        rw [List.drop_append_of_le_length]
        rw [List.length_append]
        omega
      have hstop : (if P.length - 1 > 60 - A.length then P.length - 1 - (60 - A.length) else 0) + 1 =
          max 1 ((P ++ A).length - 60) := by
        rw [List.length_append]
        split <;> omega
      rw [if_neg hone, if_neg (by omega), htake, hstop, hdrop, List.map_append, List.reverse_append,
        List.map_reverse, List.map_reverse]

/-- Whether the alternative copy looks at 60 timestamps at least. -/
def AltWindowFull (P A : List BlockHeaderInfo) : Prop :=
  61 ≤ P.length + A.length ∨ (P.length = 1 ∧ P.length + A.length = 60)

theorem altWindowFull_iff (h : Branches blocks P) (A : List BlockHeaderInfo) :
    AltWindowFull P A ↔ 60 ≤ (altWindowTimestamps blocks A P.length).length := by
  have hpos := h.length_ne_zero
  rw [altWindowTimestamps_eq h, AltWindowFull]
  split
  · simp only [List.length_reverse, List.length_map]
    omega
  · split
    · simp only [List.length_reverse, List.length_map, List.length_append]
      omega
    · simp only [List.length_reverse, List.length_map, List.length_drop, List.length_append]
      omega

/-- Up to 60 alternative blocks a full alternative window holds the last 60
timestamps of the chain. -/
theorem altWindowTimestamps_perm (h : Branches blocks P) {A : List BlockHeaderInfo}
    (hshort : A.length ≤ 60) (hfull : AltWindowFull P A) :
    (altWindowTimestamps blocks A P.length).Perm (windowTimestamps (P ++ A)) := by
  have hpos := h.length_ne_zero
  rw [altWindowTimestamps_eq h, windowTimestamps, getLastNBlocksTimestamps,
    blockchainTimestampCheckWindow]
  unfold AltWindowFull at hfull
  split
  · -- exactly 60 alternative blocks: they are the window
    rename_i hlong
    have hdrop : (P ++ A).drop ((P ++ A).length - 60) = A := by
      rw [List.length_append, List.drop_append_of_le_length (by omega),
        List.drop_of_length_le (by omega), List.nil_append]
    rw [hdrop]
    exact List.reverse_perm _
  · split
    · -- the walk reaches the genesis block, which fills the window
      have hdrop : (P ++ A).drop ((P ++ A).length - 60) = P ++ A := by
        rw [List.length_append, show P.length + A.length - 60 = 0 by omega, List.drop_zero]
      rw [hdrop]
      exact List.reverse_perm _
    · have hmax : max 1 ((P ++ A).length - 60) = (P ++ A).length - 60 := by
        rw [List.length_append]
        omega
      rw [hmax]
      exact List.reverse_perm _

theorem altWindowTimestamps_long (h : Branches blocks P) {A : List BlockHeaderInfo}
    (hlong : 60 ≤ A.length) :
    (altWindowTimestamps blocks A P.length).Perm (A.map (·.bl.timestamp)) := by
  rw [altWindowTimestamps_eq h, if_pos hlong]
  exact List.reverse_perm _

/-! ## What the rules refuse, in terms of the block and the chain -/

section

variable (env : Env) (db : Db) (P A : List BlockHeaderInfo) (now : Nat) (b : Block)

/-- A PoS block beyond the limit of 1200 seconds. -/
def PosLate : Prop := isPosBlock b = true ∧ now + 1200 < b.timestamp

/-- Any block beyond its limit by the clock. -/
def Late : Prop := now + 7200 < b.timestamp ∨ PosLate now b

/-- A PoS block that makes a sequence longer than 20 above height 57000. -/
def LongSequence : Prop :=
  57000 < P.length + A.length ∧ isPosBlock b = true ∧
    20 < getCurrentSequenceFactor (P ++ A) (isPosBlock b)

/-- The median of the last 60 timestamps. -/
def windowMedian : Nat := median (windowTimestamps (P ++ A))

/-- The median the alternative copy takes: of the last 60 timestamps, or of all
timestamps of an alternative chain of more than 60 blocks. -/
def altMedian : Nat :=
  if 61 ≤ A.length then median (A.map (·.bl.timestamp)) else windowMedian P A

/-- The alternative copy refuses the timestamp, the sequence or the stake. -/
def AltRefuses : Prop :=
  (AltWindowFull P A ∧ (PosLate now b ∨ b.timestamp < altMedian P A)) ∨
    (LongSequence P A b ∧ P.length + A.length ≤ env.config.hardFork01StartsAfterHeight) ∨
    TooYoung env (P.length + A.length) b

/-- The main copy refuses the timestamp, the sequence or the stake; `db` is its
database, with the main chain `P ++ A`. -/
def MainRefuses : Prop :=
  Late now b ∨ (60 ≤ P.length + A.length ∧ b.timestamp < windowMedian P A) ∨
    LongSequence P A b ∨ StakeRefused env db now b

/-- The blocks on which the two copies differ: of the first kind only the main
copy refuses, of the second only the alternative copy. -/
def RulesDiffer : Prop :=
  (¬ AltRefuses env P A now b ∧
    (Late now b ∨
      (P.length + A.length = 60 ∧ 2 ≤ P.length ∧ b.timestamp < windowMedian P A) ∨
      (61 ≤ A.length ∧ b.timestamp < windowMedian P A) ∨
      (LongSequence P A b ∧ env.config.hardFork01StartsAfterHeight < P.length + A.length) ∨
      StakeRefused env db now b)) ∨
  (¬ MainRefuses env db P A now b ∧
    ((61 ≤ A.length ∧ b.timestamp < median (A.map (·.bl.timestamp))) ∨
      TooYoung env (P.length + A.length) b))

end

variable {A : List BlockHeaderInfo} {now : Nat} {b : Block}

theorem altMedian_eq (h : Branches blocks P) (hfull : AltWindowFull P A) :
    median (altWindowTimestamps blocks A P.length) = altMedian P A := by
  rw [altMedian]
  split
  · exact median_perm (altWindowTimestamps_long h (by omega))
  · exact median_perm (altWindowTimestamps_perm h (by omega) hfull)

instance : Decidable (PosLate now b) := inferInstanceAs (Decidable (_ ∧ _))

theorem posLate_eq :
    (isPosBlock b && decide (b.timestamp > now + currencyPosBlockFutureTimeLimit)) =
      decide (PosLate now b) := by
  rw [Bool.eq_iff_iff, Bool.and_eq_true, decide_eq_true_iff, decide_eq_true_iff]
  rfl

theorem checkBlockTimestamp_iff {timestamps : List Nat} :
    checkBlockTimestamp timestamps now b = true ↔
      ¬ (60 ≤ timestamps.length ∧ (PosLate now b ∨ b.timestamp < median timestamps)) := by
  unfold checkBlockTimestamp
  rw [posLate_eq]
  by_cases hshort : timestamps.length < blockchainTimestampCheckWindow
  · rw [if_pos hshort]
    simp only [blockchainTimestampCheckWindow] at hshort
    simp only [true_iff]
    omega
  · rw [if_neg hshort]
    simp only [blockchainTimestampCheckWindow] at hshort
    by_cases hlate : PosLate now b
    · simp [hlate, show 60 ≤ timestamps.length by omega]
    · have hlow : decide (median timestamps ≤ b.timestamp) = true ↔
          ¬ b.timestamp < median timestamps := by
        rw [decide_eq_true_iff]
        omega
      simp [hlate, show 60 ≤ timestamps.length by omega]

/-- The rules of the alternative copy beside the common part of the proof. -/
theorem altRules_iff (env : Env) (A : List BlockHeaderInfo) (now : Nat) (b : Block)
    (h : Branches blocks P) :
    (checkBlockTimestamp (altWindowTimestamps blocks A P.length) now b = true ∧
      altSequenceFactorAllowed env blocks A b (P.length + A.length) P.length = true ∧
        ¬ TooYoung env (P.length + A.length) b) ↔
      ¬ AltRefuses env P A now b := by
  have hsequence : altSequenceFactorAllowed env blocks A b (P.length + A.length) P.length = true ↔
      ¬ (LongSequence P A b ∧
        P.length + A.length ≤ env.config.hardFork01StartsAfterHeight) := by
    unfold altSequenceFactorAllowed LongSequence Env.isAfterHardfork1Zone
    rw [getCurrentSequenceFactorForAlt_eq h]
    simp only [blockchainHeightForPosStrictSequenceLimitation, blockPosStrictSequenceLimit,
      Bool.not_eq_true', Bool.and_eq_false_iff, Bool.not_eq_false', decide_eq_true_eq]
    cases isPosBlock b <;> simp
    omega
  have htimestamp : checkBlockTimestamp (altWindowTimestamps blocks A P.length) now b = true ↔
      ¬ (AltWindowFull P A ∧ (PosLate now b ∨ b.timestamp < altMedian P A)) := by
    rw [checkBlockTimestamp_iff, ← altWindowFull_iff h]
    constructor
    · rintro hnot ⟨hfull, hbad⟩
      exact hnot ⟨hfull, by rwa [altMedian_eq h hfull]⟩
    · rintro hnot ⟨hfull, hbad⟩
      exact hnot ⟨hfull, by rwa [altMedian_eq h hfull] at hbad⟩
  rw [htimestamp, hsequence, AltRefuses, not_or, not_or]

/-- The rules of the main copy beside the common part of the proof. -/
theorem mainRules_iff (env : Env) (db : Db) (P A : List BlockHeaderInfo) (now : Nat) (b : Block) :
    (checkBlockTimestampMain (P ++ A) now b = true ∧ sequenceFactorAllowed (P ++ A) b = true ∧
        ¬ StakeRefused env db now b) ↔
      ¬ MainRefuses env db P A now b := by
  have hsequence : sequenceFactorAllowed (P ++ A) b = true ↔ ¬ LongSequence P A b := by
    unfold sequenceFactorAllowed LongSequence
    rw [List.length_append]
    simp only [blockchainHeightForPosStrictSequenceLimitation, blockPosStrictSequenceLimit,
      Bool.not_eq_true', Bool.and_eq_false_iff]
    cases isPosBlock b <;> simp
    omega
  have htimestamp : checkBlockTimestampMain (P ++ A) now b = true ↔
      ¬ (Late now b ∨ (60 ≤ P.length + A.length ∧ b.timestamp < windowMedian P A)) := by
    have hlength := length_windowTimestamps (P ++ A)
    rw [List.length_append] at hlength
    unfold checkBlockTimestampMain
    rw [posLate_eq]
    by_cases hfar : b.timestamp > now + currencyBlockFutureTimeLimit
    · have hlate : Late now b := Or.inl hfar
      rw [if_pos hfar]
      simp [hlate]
    · rw [if_neg hfar]
      by_cases hposLate : PosLate now b
      · have hlate : Late now b := Or.inr hposLate
        simp [hposLate, hlate]
      · have hlate : ¬ Late now b := fun hlate => hlate.elim (fun h => hfar h) hposLate
        have hfull : 60 ≤ (windowTimestamps (P ++ A)).length ↔ 60 ≤ P.length + A.length := by
          omega
        rw [decide_eq_false hposLate, if_neg Bool.false_ne_true, checkBlockTimestamp_iff,
          ← windowTimestamps, hfull, windowMedian]
        simp [hposLate, hlate]
  rw [htimestamp, hsequence, MainRefuses, not_or, not_or, not_or, not_or, and_assoc]

/-! ## Where the two copies agree -/

theorem rulesDiffer_iff {db : Db} (hpos : P.length ≠ 0) :
    RulesDiffer env db P A now b ↔ ¬ (AltRefuses env P A now b ↔ MainRefuses env db P A now b) := by
  constructor
  · rintro (⟨halt, hmain⟩ | ⟨hmain, ⟨hlong, hlow⟩ | hyoung⟩) hiff
    · refine halt (hiff.mpr ?_)
      rcases hmain with hlate | ⟨hlen, _, hlow⟩ | ⟨hlen, hlow⟩ | ⟨hsequence, _⟩ | hstake
      · exact Or.inl hlate
      · exact Or.inr (Or.inl ⟨by omega, hlow⟩)
      · exact Or.inr (Or.inl ⟨by omega, hlow⟩)
      · exact Or.inr (Or.inr (Or.inl hsequence))
      · exact Or.inr (Or.inr (Or.inr hstake))
    · refine hmain (hiff.mp (Or.inl ⟨Or.inl (by omega), Or.inr ?_⟩))
      rwa [altMedian, if_pos hlong]
    · exact hmain (hiff.mp (Or.inr (Or.inr hyoung)))
  · intro hdiffer
    by_cases halt : AltRefuses env P A now b
    · -- only the alternative copy refuses: the median of a long branch, or the age of the chain
      have hmain : ¬ MainRefuses env db P A now b := fun hmain =>
        hdiffer ⟨fun _ => hmain, fun _ => halt⟩
      refine Or.inr ⟨hmain, ?_⟩
      rcases halt with ⟨hfull, hlate | hlow⟩ | ⟨hsequence, _⟩ | hyoung
      · exact absurd (Or.inl (Or.inr hlate)) hmain
      · rw [altMedian] at hlow
        split at hlow
        · rename_i hlong
          exact Or.inl ⟨hlong, hlow⟩
        · refine absurd (Or.inr (Or.inl ⟨?_, hlow⟩)) hmain
          unfold AltWindowFull at hfull
          omega
      · exact absurd (Or.inr (Or.inr (Or.inl hsequence))) hmain
      · exact Or.inr hyoung
    · -- only the main copy refuses
      have hmain : MainRefuses env db P A now b := by
        by_contra hmain
        exact hdiffer ⟨fun h => absurd h halt, fun h => absurd h hmain⟩
      refine Or.inl ⟨halt, ?_⟩
      rcases hmain with hlate | ⟨hlen, hlow⟩ | hsequence | hstake
      · exact Or.inl hlate
      · by_cases hlong : 61 ≤ A.length
        · exact Or.inr (Or.inr (Or.inl ⟨hlong, hlow⟩))
        · -- the windows hold the same timestamps, unless the genesis block is left out
          have hmedian : altMedian P A = windowMedian P A := if_neg hlong
          have hnotFull : ¬ AltWindowFull P A := fun hfull =>
            halt (Or.inl ⟨hfull, Or.inr (by rwa [hmedian])⟩)
          unfold AltWindowFull at hnotFull
          exact Or.inr (Or.inl ⟨by omega, by omega, hlow⟩)
      · refine Or.inr (Or.inr (Or.inr (Or.inl ⟨hsequence, ?_⟩)))
        by_contra hfork
        exact halt (Or.inr (Or.inl ⟨hsequence, by omega⟩))
      · exact Or.inr (Or.inr (Or.inr (Or.inr hstake)))

/-- **Acceptance on both sides of a fork.**  Let `A` be an alternative branch
above the first `splitHeight` blocks of a reachable main chain, and `db'` a
database whose main chain is these blocks followed by `A`.  The two copies of
the header checks agree on a block on top of `A` exactly when the common part of
its proof is wrong, which both find, or it is none of the blocks of `RulesDiffer`. -/
theorem acceptance_agrees_iff {db db' : Db} (hreach : Reachable env db) {splitHeight : Nat}
    (hsplit : 0 < splitHeight) (hle : splitHeight ≤ db.size)
    (hA : AltBuilt env (db.headers.take splitHeight) A)
    (hdb' : db'.headers = db.headers.take splitHeight ++ A) (now : Nat) (b : Block) :
    (AltHeaderPasses env db.headers A splitHeight now b ↔ MainHeaderPasses env db' now b) ↔
      (proofPasses env db'.headers [] 0 b
          (getNextDiffConditional env db'.headers (isPosBlock b)) = false ∨
        ¬ RulesDiffer env db' (db.headers.take splitHeight) A now b) := by
  have hlength : (db.headers.take splitHeight).length = splitHeight := by
    rw [List.length_take, Db.headers_length]
    omega
  have hbranches : Branches db.headers (db.headers.take splitHeight) :=
    { prefix_eq := by rw [hlength]
      nonempty := fun hnil => by
        rw [hnil, List.length_nil] at hlength
        omega }
  have hchain := (hA.eq_extendHeaders (hreach.wellFormed.take splitHeight)).2
  have hproof := proofPasses_branch env hbranches hchain b
  have halt := altRules_iff env A now b hbranches
  have hmain := mainRules_iff env db' (db.headers.take splitHeight) A now b
  rw [← hdb'] at hproof hmain
  rw [hlength] at hproof halt
  rw [rulesDiffer_iff (by omega), not_not]
  have haltPasses : AltHeaderPasses env db.headers A splitHeight now b ↔
      ¬ AltRefuses env (db.headers.take splitHeight) A now b ∧
        proofPasses env db'.headers [] 0 b
          (getNextDiffConditional env db'.headers (isPosBlock b)) = true := by
    rw [← halt, ← hproof]
    constructor
    · intro hp
      obtain ⟨hcommon, hyoung⟩ := altProof_iff.mp ⟨hp.difficulty, hp.proof⟩
      exact ⟨⟨hp.timestamp, hp.sequence, hyoung⟩, hcommon⟩
    · rintro ⟨⟨htimestamp, hsequence, hyoung⟩, hcommon⟩
      obtain ⟨hdifficulty, hpasses⟩ := altProof_iff.mpr ⟨hcommon, hyoung⟩
      exact ⟨htimestamp, hsequence, hdifficulty, hpasses⟩
  have hmainPasses : MainHeaderPasses env db' now b ↔
      ¬ MainRefuses env db' (db.headers.take splitHeight) A now b ∧
        proofPasses env db'.headers [] 0 b
          (getNextDiffConditional env db'.headers (isPosBlock b)) = true := by
    rw [← hmain]
    constructor
    · intro hp
      obtain ⟨hcommon, hstake⟩ := mainProof_iff.mp ⟨hp.difficulty, hp.proof⟩
      exact ⟨⟨hp.timestamp, hp.sequence, hstake⟩, hcommon⟩
    · rintro ⟨⟨htimestamp, hsequence, hstake⟩, hcommon⟩
      obtain ⟨hdifficulty, hpasses⟩ := mainProof_iff.mpr ⟨hcommon, hstake⟩
      exact ⟨htimestamp, hsequence, hdifficulty, hpasses⟩
  rw [haltPasses, hmainPasses]
  cases hpasses : proofPasses env db'.headers [] 0 b
      (getNextDiffConditional env db'.headers (isPosBlock b)) with
  | false => simp
  | true => simp [not_iff_not]

/-! ### The fork above the genesis block, with two timestamps -/

theorem acceptance_agrees_on_sampleFork :
    AltHeaderPasses sampleEnv sampleMainNode.db.headers [] 1 100000 sampleFork ↔
      MainHeaderPasses sampleEnv sampleGenesisNode.db 100000 sampleFork := by
  have hlength : (sampleMainNode.db.headers.take 1).length = 1 := by decide
  have hpow : isPosBlock sampleFork ≠ true := by decide
  refine (acceptance_agrees_iff reachable_sampleMainNode (by decide) (by decide) .nil (by decide)
    100000 sampleFork).mpr (Or.inr fun hdiffer => ?_)
  unfold RulesDiffer LongSequence at hdiffer
  rw [hlength, List.length_nil] at hdiffer
  rcases hdiffer with ⟨_, hlate | ⟨hlen, _⟩ | ⟨hlong, _⟩ | ⟨⟨hlong, _⟩, _⟩ | hstake⟩ |
    ⟨_, ⟨hlong, _⟩ | hyoung⟩
  · have hnotLate : ¬ Late 100000 sampleFork := by
      unfold Late PosLate
      decide
    exact hnotLate hlate
  · omega
  · omega
  · omega
  · exact hpow hstake.1
  · omega
  · exact hpow hyoung.1

/-- A competitor of `samplePlainBlock 1` with a timestamp two hours and one
second ahead of the start of time. -/
def lateFork : Block := { sampleFork with timestamp := 7201 }

/-- At time 0 the alternative copy accepts `lateFork` next to `samplePlainBlock 1`;
on top of the genesis block the main copy refuses it. -/
theorem acceptance_differs_on_lateFork :
    Reachable sampleEnv sampleMainNode.db ∧ Reachable sampleEnv sampleGenesisNode.db ∧
      AltBuilt sampleEnv (sampleMainNode.db.headers.take 1) [] ∧
      sampleGenesisNode.db.headers = sampleMainNode.db.headers.take 1 ++ [] ∧
      ¬ (AltHeaderPasses sampleEnv sampleMainNode.db.headers [] 1 0 lateFork ↔
        MainHeaderPasses sampleEnv sampleGenesisNode.db 0 lateFork) := by
  have halt : AltHeaderPasses sampleEnv sampleMainNode.db.headers [] 1 0 lateFork :=
    { timestamp := by decide
      sequence := by decide
      difficulty := by decide
      proof := ⟨nullHash, by decide⟩ }
  have hmain : checkBlockTimestampMain sampleGenesisNode.db.headers 0 lateFork = false := by
    decide
  refine ⟨reachable_sampleMainNode, reachable_sampleGenesisNode, .nil, by decide, fun hiff => ?_⟩
  have hpasses := (hiff.mp halt).timestamp
  rw [hmain] at hpasses
  cases hpasses

end Chinet
