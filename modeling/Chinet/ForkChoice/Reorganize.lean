import Chinet.ForkChoice.RelativeDifficulty
import Chinet.Storage.Blocks

/-!
# The fork choice

`is_reorganize_required`.  Up to the first hard fork the cumulative adjusted
difficulties are compared, after it the relative cumulative difficulties of the
two branches above the split.  Ties go to the branch with the larger proof when
the head of the main chain is a PoS block.
-/

namespace Chinet

variable (env : Env)

/-! ## The difficulties at the split -/

def Node.cachedNextDifficulty (node : Node) (pos : Bool) : WideDifficulty :=
  if pos then node.cachedNextPosDifficulty else node.cachedNextPowDifficulty

/-- `get_cached_next_difficulty`: computed only while the cache is zero. -/
def getCachedNextDifficulty (pos : Bool) : NodeProcedure WideDifficulty := do
  let res ← Procedure.gets fun node => node.cachedNextDifficulty pos
  if res ≠ 0 then pure res
  else
    let _ ← nextDiffConditional env pos
    Procedure.gets fun node => node.cachedNextDifficulty pos

/-- The difficulty of the first block of the type above `height`, zero when there
is none. -/
def firstDifficultyAfter (blocks : List BlockHeaderInfo) (height : Nat) (pos : Bool) :
    WideDifficulty :=
  (((blocks.drop (height + 1)).find? (·.isPos = pos)).map BlockHeaderInfo.difficulty).getD 0

/-- `get_x_difficulty_after_height`. -/
def getXDifficultyAfterHeight (height : Nat) (pos : Bool) : NodeProcedure WideDifficulty := do
  Procedure.check fun node => requireThrow (height < node.db.size)
  let diff ← Procedure.gets fun node => firstDifficultyAfter node.db.headers height pos
  if diff ≠ 0 then pure diff else getCachedNextDifficulty env pos

/-! ## The decision -/

/-- The cumulative difficulty of a type between the split and the head of a
branch, in 128 bits. -/
def cumulativeDifficultyAfterSplit (blocks altChain : List BlockHeaderInfo)
    (headHeight splitHeight : Nat) (pos : Bool) : Nat :=
  (getLastAltXBlockCumulativePreciseAdjDifficulty blocks altChain headHeight pos -
    getLastAltXBlockCumulativePreciseAdjDifficulty blocks [] (splitHeight - 1) pos).toNat

/-- `alt_cumul_diff`. -/
def altCumulDiff (blocks altChain : List BlockHeaderInfo) (headHeight splitHeight : Nat) :
    Difficulties where
  posDiff := cumulativeDifficultyAfterSplit blocks altChain headHeight splitHeight true
  powDiff := cumulativeDifficultyAfterSplit blocks altChain headHeight splitHeight false

/-- `main_cumul_diff`. -/
def mainCumulDiff (blocks : List BlockHeaderInfo) (splitHeight : Nat) : Difficulties where
  posDiff := cumulativeDifficultyAfterSplit blocks [] (blocks.length - 1) splitHeight true
  powDiff := cumulativeDifficultyAfterSplit blocks [] (blocks.length - 1) splitHeight false

/-- The comparison of two equal branches. -/
def tieBreak (mainChainBei : BlockHeaderInfo) (proofAlt : Hash) : Bool :=
  mainChainBei.isPos && mainChainBei.stakeHash < proofAlt

/-- The comparison of `is_reorganize_required` on two scores. -/
def prefersAlternative (main alt : Nat) (mainChainBei : BlockHeaderInfo) (proofAlt : Hash) : Bool :=
  if main < alt then true
  else if main > alt then false
  else tieBreak mainChainBei proofAlt

/-- The rules after the first hard fork.  The division throws on a zero PoS
difficulty. -/
def isReorganizeRequiredRelative (mainChainBei altChainBei connectionPoint : BlockHeaderInfo)
    (altChain : List BlockHeaderInfo) (proofAlt : Hash) : NodeProcedure Bool := do
  let split := connectionPoint.height
  let dPos ← getXDifficultyAfterHeight env (split - 1) true
  let dPow ← getXDifficultyAfterHeight env (split - 1) false
  let altDiff ← Procedure.gets fun node =>
    altCumulDiff node.db.headers altChain altChainBei.height split
  let mainDiff ← Procedure.gets fun node => mainCumulDiff node.db.headers split
  Procedure.check fun _ => requireThrow (dPos != 0)
  let score (a b : Difficulties) : Nat :=
    getAToBRelativeCumulativeDifficulty dPos.toNat dPow.toNat a b
  pure (prefersAlternative (score mainDiff altDiff) (score altDiff mainDiff) mainChainBei proofAlt)

/-- `is_reorganize_required`, given the heads of the two chains and the
connection point. -/
def isReorganizeRequired (mainChainBei altChainBei connectionPoint : BlockHeaderInfo)
    (altChain : List BlockHeaderInfo) (proofAlt : Hash) : NodeProcedure Bool :=
  if !env.isAfterHardfork1Zone connectionPoint.height then
    pure (prefersAlternative mainChainBei.cumulativeDiffAdjusted.toNat
      altChainBei.cumulativeDiffAdjusted.toNat mainChainBei proofAlt)
  else if env.isAfterHardfork1Zone altChainBei.height then
    isReorganizeRequiredRelative env mainChainBei altChainBei connectionPoint altChain proofAlt
  else Procedure.fail .thrown

end Chinet
