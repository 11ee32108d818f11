import Mathlib.Algebra.Order.BigOperators.Group.List
import Mathlib.Algebra.Order.Group.Nat
import Chinet.Difficulty
import Chinet.Lib.PartialSteps

/-!
# Retargeting is defined

`next_difficulty_1` and `next_difficulty_2` of `Difficulty.lean` read their lists
with a default and divide as numbers do.  Here each access, each division and the
assertion of `get_adjustment_zone` can fail, and the 64-bit difference of two
timestamps wraps; `nextDifficultyChecked_eq` says that on lists of one length
nothing of that happens, so the two versions agree.

The value is the average of what the zones ask for (`exactAdjustment`), as long as
these add up to 128 bits: an adjustment that does not fit counts as zero.  Sorting
makes the order of the timestamps irrelevant (`nextDifficultyChecked_perm`).
-/

namespace Chinet

open PartialSteps

/-! ## The functions with their partial steps -/

/-- A subtraction of `uint64_t`. -/
def sub64 (a b : Nat) : Nat := (a + 2 ^ 64 - b) % 2 ^ 64

/-- A window with what is cut off at its two ends. -/
structure Zone where
  window : Nat
  cutOld : Nat
  cutLast : Nat

def slowZone : Zone := ⟨difficultyWindow, difficultyCut / 2, difficultyCut / 2⟩
def mediumZone : Zone := ⟨difficultyWindow / 3, difficultyCut / 8, difficultyCut / 12⟩
def fastZone : Zone := ⟨difficultyWindow / 18, difficultyCut / 10, 2⟩

/-- `get_adjustment_zone` with its assertion. -/
def getAdjustmentZoneChecked (length : Nat) (z : Zone) : Defined (Nat × Nat) :=
  let zone := getAdjustmentZone length z.window z.cutOld z.cutLast
  do assert (zone.1 + 2 ≤ zone.2 && zone.2 ≤ length)
     return zone

/-- `get_adjustment_for_zone`. -/
def getAdjustmentForZoneChecked (timestampsSorted : List Nat)
    (cumulativeDifficulties : List WideDifficulty) (targetSeconds : Nat) (z : Zone) :
    Defined WideDifficulty := do
  let (cutBegin, cutEnd) ← getAdjustmentZoneChecked timestampsSorted.length z
  let first ← readAt timestampsSorted cutBegin
  let last ← readAt timestampsSorted (cutEnd - 1)
  let timeSpan := if sub64 first last = 0 then 1 else sub64 first last
  let firstDifficulty ← readAt cumulativeDifficulties cutBegin
  let lastDifficulty ← readAt cumulativeDifficulties (cutEnd - 1)
  let totalWork := firstDifficulty - lastDifficulty
  let res ← divide (totalWork.toNat * targetSeconds + timeSpan - 1) timeSpan
  return if res > 2 ^ 128 - 1 then 0 else BitVec.ofNat 128 res

/-- The common part of `next_difficulty_1` and `next_difficulty_2`, for the zones beside the slow
one. -/
def nextDifficultyChecked (others : List Zone) (timestamps : List Nat)
    (cumulativeDifficulties : List WideDifficulty) (targetSeconds : Nat) :
    Defined WideDifficulty := do
  let (timestamps, cumulativeDifficulties) := cutToWindow timestamps cumulativeDifficulties
  if timestamps.length ≠ cumulativeDifficulties.length then pure 0
  else if timestamps.length ≤ 1 then pure difficultyStarter
  else
    let sorted := timestamps.insertionSort (· ≥ ·)
    let adjustment := getAdjustmentForZoneChecked sorted cumulativeDifficulties targetSeconds
    let difSlow ← adjustment slowZone
    let nonzero := (← others.mapM adjustment).filter (· ≠ 0)
    let devider := nonzero.length + 1
    let average ← divide (difSlow + nonzero.sum).toNat devider
    pure (BitVec.ofNat 128 average)

/-- `next_difficulty_1`. -/
def nextDifficulty1Checked := nextDifficultyChecked [mediumZone, fastZone]

/-- `next_difficulty_2`. -/
def nextDifficulty2Checked := nextDifficultyChecked [mediumZone]

/-! ## One zone -/

/-- A zone from which at least two entries are left. -/
structure Zone.Wide (z : Zone) : Prop where
  two : 2 ≤ z.window - (z.cutOld + z.cutLast)
  last : z.cutLast ≤ z.window - (z.cutOld + z.cutLast) - 1

theorem slowZone_wide : slowZone.Wide := ⟨by decide, by decide⟩
theorem mediumZone_wide : mediumZone.Wide := ⟨by decide, by decide⟩
theorem fastZone_wide : fastZone.Wide := ⟨by decide, by decide⟩

theorem sub64_eq {a b : Nat} (ha : a < 2 ^ 64) (hb : b ≤ a) : sub64 a b = a - b := by
  rw [sub64]
  omega

/-- Timestamps as `sort` with `greater` leaves them. -/
structure SortedTimestamps (ts : List Nat) : Prop where
  descending : ts.Pairwise (· ≥ ·)
  bounded : ∀ t ∈ ts, t < 2 ^ 64

theorem SortedTimestamps.getD_le {ts : List Nat} (h : SortedTimestamps ts) {i j : Nat}
    (hij : i < j) (hj : j < ts.length) : ts.getD j 0 ≤ ts.getD i 0 := by
  rw [getD_of_lt hj, getD_of_lt (hij.trans hj)]
  exact List.pairwise_iff_getElem.mp h.descending i j (hij.trans hj) hj hij

theorem SortedTimestamps.getD_lt {ts : List Nat} (h : SortedTimestamps ts) {i : Nat}
    (hi : i < ts.length) : ts.getD i 0 < 2 ^ 64 := by
  rw [getD_of_lt hi]
  exact h.bounded _ (List.getElem_mem hi)

theorem sortedTimestamps_insertionSort {ts : List Nat} (h : ∀ t ∈ ts, t < 2 ^ 64) :
    SortedTimestamps (ts.insertionSort (· ≥ ·)) where
  descending := List.pairwise_insertionSort _ ts
  bounded t ht := h t (by rwa [List.mem_insertionSort] at ht)

/-- The adjustment of a zone before it is cut to 128 bits. -/
def exactAdjustment (timestampsSorted : List Nat) (cumulativeDifficulties : List WideDifficulty)
    (targetSeconds : Nat) (z : Zone) : Nat :=
  let zone := getAdjustmentZone timestampsSorted.length z.window z.cutOld z.cutLast
  let span := timestampsSorted.getD zone.1 0 - timestampsSorted.getD (zone.2 - 1) 0
  let timeSpan := if span = 0 then 1 else span
  let totalWork := cumulativeDifficulties.getD zone.1 0 - cumulativeDifficulties.getD (zone.2 - 1) 0
  (totalWork.toNat * targetSeconds + timeSpan - 1) / timeSpan

theorem getAdjustmentForZone_eq (ts : List Nat) (cds : List WideDifficulty) (target : Nat)
    (z : Zone) :
    getAdjustmentForZone ts cds target z.window z.cutOld z.cutLast =
      if exactAdjustment ts cds target z > 2 ^ 128 - 1 then 0
      else BitVec.ofNat 128 (exactAdjustment ts cds target z) := by
  rfl

variable {ts : List Nat} {cds : List WideDifficulty} {target : Nat}

/-- In a wide zone every access is inside its list, and the span divided by is not zero. -/
theorem getAdjustmentForZoneChecked_eq (hts : SortedTimestamps ts) (htwo : 2 ≤ ts.length)
    (hlength : ts.length = cds.length) {z : Zone} (hz : z.Wide) :
    getAdjustmentForZoneChecked ts cds target z =
      .ok (getAdjustmentForZone ts cds target z.window z.cutOld z.cutLast) := by
  have hvalid := getAdjustmentZone_valid htwo hz.two hz.last
  have hchecked : getAdjustmentZoneChecked ts.length z =
      .ok (getAdjustmentZone ts.length z.window z.cutOld z.cutLast) := by
    rw [getAdjustmentZoneChecked, assert_eq_ok (by simp [hvalid]), ok_bind]
    rfl
  rw [getAdjustmentForZone_eq, exactAdjustment]
  rw [getAdjustmentForZoneChecked, hchecked]
  generalize getAdjustmentZone ts.length z.window z.cutOld z.cutLast = zone at hvalid ⊢
  obtain ⟨cutBegin, cutEnd⟩ := zone
  obtain ⟨hbegin, hend⟩ : cutBegin + 2 ≤ cutEnd ∧ cutEnd ≤ ts.length := hvalid
  have hspan : sub64 (ts.getD cutBegin 0) (ts.getD (cutEnd - 1) 0) =
      ts.getD cutBegin 0 - ts.getD (cutEnd - 1) 0 :=
    sub64_eq (hts.getD_lt (by omega)) (hts.getD_le (by omega) (by omega))
  have hdivide (n k : Nat) :
      divide n (if k = 0 then 1 else k) = .ok (n / if k = 0 then 1 else k) := by
    apply divide_eq_ok
    split <;> omega
  simp only [ok_bind, readAt_eq_ok (show cutBegin < ts.length by omega) 0,
    readAt_eq_ok (show cutEnd - 1 < ts.length by omega) 0,
    readAt_eq_ok (show cutBegin < cds.length by omega) 0,
    readAt_eq_ok (show cutEnd - 1 < cds.length by omega) 0, hspan, hdivide]
  rfl

/-! ## All zones -/

/-- The common part of `nextDifficulty1` and `nextDifficulty2`. -/
def nextDifficultyOf (others : List Zone) (timestamps : List Nat)
    (cumulativeDifficulties : List WideDifficulty) (targetSeconds : Nat) : WideDifficulty :=
  let (timestamps, cumulativeDifficulties) := cutToWindow timestamps cumulativeDifficulties
  if timestamps.length ≠ cumulativeDifficulties.length then 0
  else if timestamps.length ≤ 1 then difficultyStarter
  else
    let sorted := timestamps.insertionSort (· ≥ ·)
    let adjustment (z : Zone) :=
      getAdjustmentForZone sorted cumulativeDifficulties targetSeconds z.window z.cutOld z.cutLast
    averageAdjustments (adjustment slowZone) (others.map adjustment)

/-- A quotient by a small number is that of the wide numbers. -/
theorem ofNat_div_eq (sum : WideDifficulty) {k : Nat} (hk : k < 2 ^ 128) :
    BitVec.ofNat 128 (sum.toNat / k) = sum / BitVec.ofNat 128 k := by
  apply BitVec.eq_of_toNat_eq
  have hle : sum.toNat / k < 2 ^ 128 := lt_of_le_of_lt (Nat.div_le_self _ _) sum.isLt
  rw [BitVec.toNat_udiv, BitVec.toNat_ofNat, BitVec.toNat_ofNat, Nat.mod_eq_of_lt hk,
    Nat.mod_eq_of_lt hle]

/-- The divider is not zero. -/
theorem divide_eq_average (difSlow : WideDifficulty) (others : List WideDifficulty)
    (hfew : others.length < 2 ^ 64) :
    (divide (difSlow + (others.filter (· ≠ 0)).sum).toNat ((others.filter (· ≠ 0)).length + 1) >>=
      fun average => pure (BitVec.ofNat 128 average)) =
    Except.ok (averageAdjustments difSlow others) := by
  have hle := List.length_filter_le (· ≠ 0) others
  rw [divide_eq_ok (Nat.succ_ne_zero _), ok_bind, ofNat_div_eq _ (by omega)]
  rfl

/-- On lists of one length that fit the window nothing undefined happens. -/
theorem nextDifficultyChecked_eq {others : List Zone} (hothers : ∀ z ∈ others, z.Wide)
    (hfew : others.length < 2 ^ 64) (hbounded : ∀ t ∈ ts, t < 2 ^ 64)
    (hwindow : ts.length ≤ difficultyWindow) (hlength : ts.length = cds.length) :
    nextDifficultyChecked others ts cds target = .ok (nextDifficultyOf others ts cds target) := by
  have hcut : cutToWindow ts cds = (ts, cds) := by
    rw [cutToWindow, if_neg (by omega)]
  rw [nextDifficultyChecked, nextDifficultyOf, hcut]
  simp only [ne_eq, hlength, not_true_eq_false, if_false]
  split
  · rfl
  · rename_i htwo
    have hsorted := sortedTimestamps_insertionSort hbounded
    have hlengthSorted : (ts.insertionSort (· ≥ ·)).length = ts.length :=
      List.length_insertionSort _ ts
    have hzone {z : Zone} (hz : z.Wide) :=
      @getAdjustmentForZoneChecked_eq _ cds target hsorted (by omega) (by omega) z hz
    rw [hzone slowZone_wide, mapM_eq_ok fun z hz => hzone (hothers z hz)]
    exact divide_eq_average _ _ (by rwa [List.length_map])

/-! ## The value -/

/-- Cumulative difficulties as they come, the latest first: each is larger than those after it. -/
def LatestFirst (cds : List WideDifficulty) : Prop := cds.Pairwise fun a b => b.toNat < a.toNat

theorem LatestFirst.getD_lt (h : LatestFirst cds) {i j : Nat} (hij : i < j) (hj : j < cds.length) :
    (cds.getD j 0).toNat < (cds.getD i 0).toNat := by
  rw [getD_of_lt hj, getD_of_lt (hij.trans hj)]
  exact List.pairwise_iff_getElem.mp h i j (hij.trans hj) hj hij

/-- There is work in a zone, so its adjustment is not zero. -/
theorem exactAdjustment_pos (htwo : 2 ≤ ts.length) (hlength : ts.length = cds.length)
    (hcds : LatestFirst cds) (htarget : 1 ≤ target) {z : Zone} (hz : z.Wide) :
    1 ≤ exactAdjustment ts cds target z := by
  obtain ⟨hbegin, hend⟩ := getAdjustmentZone_valid htwo hz.two hz.last
  rw [exactAdjustment]
  generalize getAdjustmentZone ts.length z.window z.cutOld z.cutLast = zone at hbegin hend ⊢
  have hwork : 1 ≤ (cds.getD zone.1 0 - cds.getD (zone.2 - 1) 0).toNat := by
    have hlt := @LatestFirst.getD_lt cds hcds zone.1 (zone.2 - 1) (by omega) (by omega)
    rw [BitVec.toNat_sub_of_le (BitVec.le_def.mpr hlt.le)]
    omega
  have hproduct := Nat.mul_le_mul hwork htarget
  generalize ts.getD zone.1 0 - ts.getD (zone.2 - 1) 0 = span
  have hspan : 1 ≤ if span = 0 then 1 else span := by
    split <;> omega
  rw [Nat.le_div_iff_mul_le hspan]
  omega

/-- An adjustment that fits is not cut. -/
theorem toNat_getAdjustmentForZone {z : Zone} (hfits : exactAdjustment ts cds target z < 2 ^ 128) :
    (getAdjustmentForZone ts cds target z.window z.cutOld z.cutLast).toNat =
      exactAdjustment ts cds target z := by
  rw [getAdjustmentForZone_eq, if_neg (by omega), BitVec.toNat_ofNat, Nat.mod_eq_of_lt hfits]

theorem toNat_sum {ds : List WideDifficulty} (hfits : (ds.map BitVec.toNat).sum < 2 ^ 128) :
    ds.sum.toNat = (ds.map BitVec.toNat).sum := by
  induction ds with
  | nil => rfl
  | cons d ds ih =>
      rw [List.map_cons, List.sum_cons] at hfits
      rw [List.sum_cons, BitVec.toNat_add, ih (by omega), List.map_cons, List.sum_cons,
        Nat.mod_eq_of_lt hfits]

/-- Adjustments that are not zero and together fit are averaged. -/
theorem toNat_averageAdjustments {difSlow : WideDifficulty} {others : List WideDifficulty}
    (hothers : ∀ d ∈ others, d ≠ 0) (hfew : others.length < 2 ^ 64)
    (hfits : difSlow.toNat + (others.map BitVec.toNat).sum < 2 ^ 128) :
    (averageAdjustments difSlow others).toNat =
      (difSlow.toNat + (others.map BitVec.toNat).sum) / (others.length + 1) := by
  have hall : others.filter (· ≠ 0) = others := by
    apply List.filter_eq_self.mpr
    intro d hd
    simpa using hothers d hd
  rw [averageAdjustments, hall, BitVec.toNat_udiv, BitVec.toNat_add, toNat_sum (by omega),
    BitVec.toNat_ofNat, Nat.mod_eq_of_lt hfits, Nat.mod_eq_of_lt (by omega)]

/-- What the zones ask for adds up to 128 bits. -/
def AdjustmentsFit (others : List Zone) (timestamps : List Nat)
    (cumulativeDifficulties : List WideDifficulty) (targetSeconds : Nat) : Prop :=
  ((slowZone :: others).map (exactAdjustment (timestamps.insertionSort (· ≥ ·))
    cumulativeDifficulties targetSeconds)).sum < 2 ^ 128

/-- The order in which the timestamps are listed does not matter. -/
theorem nextDifficultyChecked_perm (others : List Zone) {ts' : List Nat} (hperm : ts'.Perm ts)
    (hwindow : ts.length ≤ difficultyWindow) :
    nextDifficultyChecked others ts' cds target = nextDifficultyChecked others ts cds target := by
  have hlength := hperm.length_eq
  have hsorted : ts'.insertionSort (· ≥ ·) = ts.insertionSort (· ≥ ·) := by
    apply List.Perm.eq_of_pairwise' (List.pairwise_insertionSort _ _)
      (List.pairwise_insertionSort _ _)
    exact ((List.perm_insertionSort _ _).trans hperm).trans (List.perm_insertionSort _ _).symm
  have hcut (xs : List Nat) (hxs : xs.length = ts.length) : cutToWindow xs cds = (xs, cds) := by
    rw [cutToWindow, if_neg (by omega)]
  rw [nextDifficultyChecked, nextDifficultyChecked, hcut ts' hlength, hcut ts rfl]
  simp only [hlength, hsorted]

/-- The next difficulty is the average of what the zones ask for. -/
theorem toNat_nextDifficultyOf {others : List Zone} (hothers : ∀ z ∈ others, z.Wide)
    (hfew : others.length < 2 ^ 64) (hwindow : ts.length ≤ difficultyWindow)
    (hlength : ts.length = cds.length) (htwo : 2 ≤ ts.length) (hcds : LatestFirst cds)
    (htarget : 1 ≤ target) (hfits : AdjustmentsFit others ts cds target) :
    (nextDifficultyOf others ts cds target).toNat =
      ((slowZone :: others).map (exactAdjustment (ts.insertionSort (· ≥ ·)) cds target)).sum /
        (others.length + 1) := by
  have hcut : cutToWindow ts cds = (ts, cds) := by
    rw [cutToWindow, if_neg (by omega)]
  have hsorted : (ts.insertionSort (· ≥ ·)).length = ts.length := List.length_insertionSort _ ts
  rw [AdjustmentsFit, List.map_cons, List.sum_cons] at hfits
  rw [nextDifficultyOf, hcut]
  simp only [ne_eq, hlength, not_true_eq_false, if_false]
  rw [if_neg (by omega), List.map_cons, List.sum_cons]
  generalize hts : ts.insertionSort (· ≥ ·) = sorted at hfits hsorted ⊢
  have hmember {z : Zone} (hz : z ∈ others) :
      exactAdjustment sorted cds target z ≤ (others.map (exactAdjustment sorted cds target)).sum :=
    List.single_le_sum (fun _ _ => Nat.zero_le _) _ (List.mem_map_of_mem hz)
  have hvalue {z : Zone} (hz : z ∈ others) :
      (getAdjustmentForZone sorted cds target z.window z.cutOld z.cutLast).toNat =
        exactAdjustment sorted cds target z := by
    apply toNat_getAdjustmentForZone
    have hle := hmember hz
    omega
  have hslow := @toNat_getAdjustmentForZone sorted cds target slowZone (by omega)
  have hmap : (others.map fun z =>
      getAdjustmentForZone sorted cds target z.window z.cutOld z.cutLast).map BitVec.toNat =
        others.map (exactAdjustment sorted cds target) := by
    rw [List.map_map]
    exact List.map_congr_left fun z hz => hvalue hz
  rw [toNat_averageAdjustments, hmap, hslow, List.length_map]
  · intro d hd
    obtain ⟨z, hz, rfl⟩ := List.mem_map.mp hd
    have hpos := @exactAdjustment_pos sorted cds target (by omega) (by omega) hcds htarget z (hothers z hz)
    intro hzero
    have hzeroNat := hvalue hz
    rw [hzero] at hzeroNat
    exact absurd hzeroNat (by simp; omega)
  · rwa [List.length_map]
  · rwa [hmap, hslow]

/-- The difficulty is at least one. -/
theorem one_le_nextDifficultyOf {others : List Zone} (hothers : ∀ z ∈ others, z.Wide)
    (hfew : others.length < 2 ^ 64) (hwindow : ts.length ≤ difficultyWindow)
    (hlength : ts.length = cds.length) (hcds : LatestFirst cds) (htarget : 1 ≤ target)
    (hfits : AdjustmentsFit others ts cds target) :
    1 ≤ (nextDifficultyOf others ts cds target).toNat := by
  by_cases htwo : 2 ≤ ts.length
  · rw [toNat_nextDifficultyOf hothers hfew hwindow hlength htwo hcds htarget hfits,
      Nat.le_div_iff_mul_le (Nat.succ_pos _), Nat.one_mul]
    have hsorted : (ts.insertionSort (· ≥ ·)).length = ts.length := List.length_insertionSort _ ts
    have hones : ∀ n ∈ (slowZone :: others).map
        (exactAdjustment (ts.insertionSort (· ≥ ·)) cds target), 1 ≤ n := by
      intro n hn
      obtain ⟨z, hz, rfl⟩ := List.mem_map.mp hn
      apply exactAdjustment_pos (by omega) (by omega) hcds htarget
      rcases List.mem_cons.mp hz with rfl | hz
      · exact slowZone_wide
      · exact hothers z hz
    have hcount := List.length_le_sum_of_one_le _ hones
    rwa [List.length_map, List.length_cons] at hcount
  · have hcut : cutToWindow ts cds = (ts, cds) := by
      rw [cutToWindow, if_neg (by omega)]
    rw [nextDifficultyOf, hcut]
    simp only [ne_eq, hlength, not_true_eq_false, if_false]
    rw [if_pos (by omega)]
    decide

/-- What is asked of a retargeting function on its lists. -/
structure Retargets (checked : List Nat → List WideDifficulty → Nat → Defined WideDifficulty)
    (others : List Zone) (timestamps : List Nat) (cumulativeDifficulties : List WideDifficulty)
    (targetSeconds : Nat) : Prop where
  defined : ∃ difficulty, checked timestamps cumulativeDifficulties targetSeconds = .ok difficulty ∧
    (AdjustmentsFit others timestamps cumulativeDifficulties targetSeconds → 1 ≤ difficulty.toNat)
  orderFree : ∀ timestamps', timestamps'.Perm timestamps →
    checked timestamps' cumulativeDifficulties targetSeconds =
      checked timestamps cumulativeDifficulties targetSeconds

theorem nextDifficultyChecked_retargets {others : List Zone} (hothers : ∀ z ∈ others, z.Wide)
    (hfew : others.length < 2 ^ 64) (hbounded : ∀ t ∈ ts, t < 2 ^ 64)
    (hwindow : ts.length ≤ difficultyWindow) (hlength : ts.length = cds.length)
    (hcds : LatestFirst cds) (htarget : 1 ≤ target) :
    Retargets (nextDifficultyChecked others) others ts cds target where
  defined := ⟨_, nextDifficultyChecked_eq hothers hfew hbounded hwindow hlength,
    one_le_nextDifficultyOf hothers hfew hwindow hlength hcds htarget⟩
  orderFree _ hperm := nextDifficultyChecked_perm others hperm hwindow

/-- On at most a window of timestamps in any order, and as many cumulative difficulties listed the
latest first, both functions are defined and free of the order, and a result whose adjustments
fit is at least one. -/
theorem next_difficulty_defined {timestamps : List Nat} {cumulativeDifficulties : List WideDifficulty}
    {targetSeconds : Nat} (hbounded : ∀ t ∈ timestamps, t < 2 ^ 64)
    (hwindow : timestamps.length ≤ difficultyWindow)
    (hlength : timestamps.length = cumulativeDifficulties.length)
    (hcds : LatestFirst cumulativeDifficulties) (htarget : 1 ≤ targetSeconds) :
    Retargets nextDifficulty1Checked [mediumZone, fastZone] timestamps cumulativeDifficulties
      targetSeconds ∧
    Retargets nextDifficulty2Checked [mediumZone] timestamps cumulativeDifficulties
      targetSeconds := by
  constructor
  · apply nextDifficultyChecked_retargets _ (by decide) hbounded hwindow hlength hcds htarget
    intro z hz
    simp only [List.mem_cons, List.not_mem_nil, or_false] at hz
    rcases hz with rfl | rfl
    · exact mediumZone_wide
    · exact fastZone_wide
  · apply nextDifficultyChecked_retargets _ (by decide) hbounded hwindow hlength hcds htarget
    intro z hz
    rw [List.mem_singleton.mp hz]
    exact mediumZone_wide

theorem next_difficulty_defined_sample :
    Retargets nextDifficulty1Checked [mediumZone, fastZone] [7, 9, 7] [30, 20, 5] 120 ∧
    Retargets nextDifficulty2Checked [mediumZone] [7, 9, 7] [30, 20, 5] 120 :=
  next_difficulty_defined (by decide) (by decide) rfl (by unfold LatestFirst; decide) (by decide)

/-- Difficulties that increase from the latest on make the work wrap, and work that does not fit
128 bits counts as zero: both results are zero. -/
theorem next_difficulty_zero :
    nextDifficulty1Checked [0, 0] [1, 2] 120 = .ok 0 ∧
    nextDifficulty1Checked [0, 0] [2 ^ 127, 1] 120 = .ok 0 := by
  decide +kernel

end Chinet
