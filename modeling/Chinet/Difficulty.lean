import Chinet.FormatUtils

/-!
# Difficulty

`difficulty.cpp`: the proof-of-work comparison and the retargeting functions.
Lists of timestamps and cumulative difficulties come latest first, as there.
-/

namespace Chinet

/-! ## `check_hash` -/

/-- Word `i` of a hash: the source reverses the bytes and reads little-endian
words, which are those of the big-endian number. -/
def hashWord (hash : Hash) (i : Nat) : Nat :=
  hash.toNat / 2 ^ (64 * i) % 2 ^ 64

def cadd (a b : Nat) : Bool :=
  (a + b) % 2 ^ 64 < a

def cadc (a b : Nat) (c : Bool) : Bool :=
  (a + b) % 2 ^ 64 < a || (c && (a + b) % 2 ^ 64 == 2 ^ 64 - 1)

/-- The branch for difficulties below `max64bit`: the product with the hash is
formed word by word, and only the carries out of each word are kept. -/
def checkHashNarrow (hash : Hash) (dl : Nat) : Bool :=
  let mulLow (i : Nat) := hashWord hash i * dl % 2 ^ 64
  let mulHigh (i : Nat) := hashWord hash i * dl / 2 ^ 64
  if mulHigh 3 ≠ 0 then false
  else
    let carry := cadd (mulHigh 0) (mulLow 1)
    let carry := cadc (mulHigh 1) (mulLow 2) carry
    let carry := cadc (mulHigh 2) (mulLow 3) carry
    !carry

def checkHash (hash : Hash) (difficulty : WideDifficulty) : Bool :=
  if difficulty.toNat < 2 ^ 64 - 1 then checkHashNarrow hash difficulty.toNat
  else if hashWord hash 3 > 0 then false
  else hash.toNat * difficulty.toNat ≤ 2 ^ 256 - 1

/-! ## Retargeting -/

/-- `get_adjustment_zone`.  The assertion at its end holds wherever it is
called (`getAdjustmentZone_valid`), so the zone is returned without it. -/
def getAdjustmentZone (length window cutOld cutLast : Nat) : Nat × Nat :=
  if length ≤ window - (cutOld + cutLast) then (0, length)
  else (cutLast, min (cutLast + (window - (cutOld + cutLast))) length)

/-- `cut_begin + 2 <= cut_end && cut_end <= length`. -/
theorem getAdjustmentZone_valid {length window cutOld cutLast : Nat} (hlength : 2 ≤ length)
    (hcut : 2 ≤ window - (cutOld + cutLast)) (hlast : cutLast ≤ window - (cutOld + cutLast) - 1) :
    (getAdjustmentZone length window cutOld cutLast).1 + 2 ≤
        (getAdjustmentZone length window cutOld cutLast).2 ∧
      (getAdjustmentZone length window cutOld cutLast).2 ≤ length := by
  unfold getAdjustmentZone
  split <;> simp only <;> omega

/-- `get_adjustment_for_zone`, on timestamps sorted from the latest down. -/
def getAdjustmentForZone (timestampsSorted : List Nat) (cumulativeDifficulties : List WideDifficulty)
    (targetSeconds window cutOld cutLast : Nat) : WideDifficulty :=
  let zone := getAdjustmentZone timestampsSorted.length window cutOld cutLast
  let span := timestampsSorted.getD zone.1 0 - timestampsSorted.getD (zone.2 - 1) 0
  let timeSpan := if span = 0 then 1 else span
  let totalWork := cumulativeDifficulties.getD zone.1 0 - cumulativeDifficulties.getD (zone.2 - 1) 0
  let res := (totalWork.toNat * targetSeconds + timeSpan - 1) / timeSpan
  if res > 2 ^ 128 - 1 then 0 else BitVec.ofNat 128 res

/-- Sum and number of the adjustments that are not zero, the slow one always
counted. -/
def averageAdjustments (difSlow : WideDifficulty) (others : List WideDifficulty) : WideDifficulty :=
  let nonzero := others.filter (· ≠ 0)
  (difSlow + nonzero.sum) / BitVec.ofNat 128 (nonzero.length + 1)

/-- `std::vector::resize`. -/
def resize {α : Type} (n : Nat) (d : α) (v : List α) : List α :=
  v.take n ++ List.replicate (n - v.length) d

/-- Both lists cut to the window when there are more timestamps than that. -/
def cutToWindow (timestamps : List Nat) (cumulativeDifficulties : List WideDifficulty) :
    List Nat × List WideDifficulty :=
  if timestamps.length > difficultyWindow then
    (resize difficultyWindow 0 timestamps, resize difficultyWindow 0 cumulativeDifficulties)
  else (timestamps, cumulativeDifficulties)

/-- `next_difficulty_1`. -/
def nextDifficulty1 (timestamps : List Nat) (cumulativeDifficulties : List WideDifficulty)
    (targetSeconds : Nat) : WideDifficulty :=
  let (timestamps, cumulativeDifficulties) := cutToWindow timestamps cumulativeDifficulties
  if timestamps.length ≠ cumulativeDifficulties.length then 0
  else if timestamps.length ≤ 1 then difficultyStarter
  else
    let sorted := timestamps.insertionSort (· ≥ ·)
    let adjustment := getAdjustmentForZone sorted cumulativeDifficulties targetSeconds
    let difSlow := adjustment difficultyWindow (difficultyCut / 2) (difficultyCut / 2)
    let difMedium := adjustment (difficultyWindow / 3) (difficultyCut / 8) (difficultyCut / 12)
    let difFast := adjustment (difficultyWindow / 18) (difficultyCut / 10) 2
    averageAdjustments difSlow [difMedium, difFast]

/-- `next_difficulty_2`: without the fast adjustment. -/
def nextDifficulty2 (timestamps : List Nat) (cumulativeDifficulties : List WideDifficulty)
    (targetSeconds : Nat) : WideDifficulty :=
  let (timestamps, cumulativeDifficulties) := cutToWindow timestamps cumulativeDifficulties
  if timestamps.length ≠ cumulativeDifficulties.length then 0
  else if timestamps.length ≤ 1 then difficultyStarter
  else
    let sorted := timestamps.insertionSort (· ≥ ·)
    let adjustment := getAdjustmentForZone sorted cumulativeDifficulties targetSeconds
    let difSlow := adjustment difficultyWindow (difficultyCut / 2) (difficultyCut / 2)
    let difMedium := adjustment (difficultyWindow / 3) (difficultyCut / 8) (difficultyCut / 12)
    averageAdjustments difSlow [difMedium]

end Chinet
