import Chinet.Storage.Chain

/-!
# The height to restore a wallet from

`get_est_height_from_date` looks for a block that is between an hour and a day older than a
date.  It guesses a height from the block target and then halves an interval of heights, although
the timestamps of a chain need not grow.

What it returns does not depend on their order.  The lower bound of the interval is zero or a
height whose block was seen to be old enough, and nothing else is ever returned from the search
(`EstimateBounds`), but the zero of a counter of iterations that has run out.

A date after the last block is not searched for: the height is then a number of blocks below the
top, however long these took.
-/

namespace Chinet

def getEstHeightFromDateThreshold : Nat := 1440

/-- The margins of the search, in seconds. -/
def estDateLowMargin : Nat := 90000

def estDateHighMargin : Nat := 3600

/-- `get_blockchain_launch_timestamp`, where `launch` is what the mutable field holds.  What it
returns is what it leaves there. -/
def getBlockchainLaunchTimestamp (db : Db) (launch : Nat) : Nat :=
  if launch ≠ 0 then launch
  else if db.size > 2 then
    match db.blocks[1]? with
    | some bei => bei.bl.timestamp
    | none => launch
  else launch

/-- The height the search looks at, and the bounds it moves. -/
structure HeightSearch where
  calculatedEstimatedHeight : Nat
  currentLowBoundary : Nat
  currentHeightBoundary : Nat
deriving DecidableEq, Repr

/-- One iteration, at a block with the timestamp `ts`: another search, or what is returned. -/
def estimateStep (lowBoundary highBoundary : UInt64) (ts : Nat) (s : HeightSearch) :
    HeightSearch ⊕ Nat :=
  if ts > highBoundary.toNat then
    let s := { s with currentHeightBoundary := s.calculatedEstimatedHeight }
    -- the assertion returns with `res_h` as it was set at the start
    if ¬ s.currentHeightBoundary > s.currentLowBoundary then .inr 0
    else
      let offset := (s.currentHeightBoundary - s.currentLowBoundary) / 2
      if offset ≤ 2 then .inr s.currentLowBoundary
      else .inl { s with calculatedEstimatedHeight := s.calculatedEstimatedHeight - offset }
  else if ts < lowBoundary.toNat then
    let s := { s with currentLowBoundary := s.calculatedEstimatedHeight }
    if ¬ s.currentHeightBoundary > s.currentLowBoundary then .inr 0
    else
      let offset := (s.currentHeightBoundary - s.currentLowBoundary) / 2
      if offset ≤ 2 then .inr s.currentLowBoundary
      else .inl { s with calculatedEstimatedHeight := s.calculatedEstimatedHeight + offset }
  else .inr s.calculatedEstimatedHeight

/-- The search with a number of iterations left.  Without one it gives up, with `res_h` still
zero; it fails where the container is read past its end. -/
def estimateLoop (db : Db) (lowBoundary highBoundary : UInt64) : Nat → HeightSearch → Option Nat
  | 0, _ => some 0
  | iterations + 1, s =>
    match db.blocks[s.calculatedEstimatedHeight]? with
    | none => none
    | some bei =>
      match estimateStep lowBoundary highBoundary bei.bl.timestamp s with
      | .inl s => estimateLoop db lowBoundary highBoundary iterations s
      | .inr resH => some resH

/-- `Log2(CURRENCY_MAX_BLOCK_NUMBER)`. -/
def estimateIterations : Nat := 29

/-- `get_est_height_from_date`. -/
def getEstHeightFromDate (db : Db) (launch : Nat) (date : UInt64) : Option Nat :=
  let launch := getBlockchainLaunchTimestamp db launch
  if date.toNat < launch then some 0
  else
    match db.blocks[db.size - 1]? with
    | none => none
    | some last =>
      if date.toNat > last.bl.timestamp then
        if db.size > getEstHeightFromDateThreshold then
          some (db.size - getEstHeightFromDateThreshold)
        else some 0
      else
        let calculatedEstimatedHeight := (date.toNat - launch) / difficultyTotalTarget
        estimateLoop db (date - .ofNat estDateLowMargin) (date - .ofNat estDateHighMargin)
          estimateIterations
          { calculatedEstimatedHeight := min calculatedEstimatedHeight (db.size - 1)
            currentLowBoundary := 0
            currentHeightBoundary := db.size - 1 }

/-! ## Heights that are old enough -/

/-- The height is zero, or its block is an hour older than the date. -/
def StartsBefore (db : Db) (date : UInt64) (resH : Nat) : Prop :=
  resH = 0 ∨ ∃ bei, db.blocks[resH]? = some bei ∧ bei.bl.timestamp + estDateHighMargin ≤ date.toNat

/-- What the search keeps: its heights are in the chain, in this order, and the lower bound may be
returned. -/
structure EstimateBounds (db : Db) (date : UInt64) (s : HeightSearch) : Prop where
  low_le : s.currentLowBoundary ≤ s.calculatedEstimatedHeight
  le_high : s.calculatedEstimatedHeight ≤ s.currentHeightBoundary
  high_lt : s.currentHeightBoundary < db.size
  low_old : StartsBefore db date s.currentLowBoundary

theorem toNat_sub_highMargin {date : UInt64} (h : estDateHighMargin ≤ date.toNat) :
    (date - .ofNat estDateHighMargin).toNat + estDateHighMargin = date.toNat := by
  have hle : (UInt64.ofNat estDateHighMargin) ≤ date := by
    rw [UInt64.le_iff_toNat_le]
    exact h
  have hsub := UInt64.toNat_sub_of_le _ _ hle
  have hword : (UInt64.ofNat estDateHighMargin).toNat = estDateHighMargin := rfl
  rw [hsub, hword]
  exact Nat.sub_add_cancel h

variable {db : Db} {date lowBoundary highBoundary : UInt64} {s s' : HeightSearch}
  {bei : BlockExtendedInfo} {resH : Nat}

/-- A block that is not later than the upper margin may be returned. -/
theorem startsBefore_of_le (hdate : estDateHighMargin ≤ date.toNat)
    (hbei : db.blocks[resH]? = some bei)
    (hts : ¬ bei.bl.timestamp > (date - .ofNat estDateHighMargin).toNat) :
    StartsBefore db date resH := by
  refine Or.inr ⟨bei, hbei, ?_⟩
  have hmargin := toNat_sub_highMargin hdate
  omega

/-! ## One iteration -/

/-- An iteration either moves one bound to the height it looked at, and goes to the middle of what
is left, or returns zero, the lower bound, or that height. -/
theorem estimateStep_inl {ts : Nat}
    (h : estimateStep lowBoundary highBoundary ts s = .inl s') :
    (ts > highBoundary.toNat ∧ s'.currentLowBoundary = s.currentLowBoundary ∧
        s'.currentHeightBoundary = s.calculatedEstimatedHeight ∧
        5 < s'.currentHeightBoundary - s'.currentLowBoundary ∧
        s'.calculatedEstimatedHeight = s'.currentHeightBoundary -
          (s'.currentHeightBoundary - s'.currentLowBoundary) / 2) ∨
      (¬ ts > highBoundary.toNat ∧ s'.currentLowBoundary = s.calculatedEstimatedHeight ∧
        s'.currentHeightBoundary = s.currentHeightBoundary ∧
        5 < s'.currentHeightBoundary - s'.currentLowBoundary ∧
        s'.calculatedEstimatedHeight = s'.currentLowBoundary +
          (s'.currentHeightBoundary - s'.currentLowBoundary) / 2) := by
  unfold estimateStep at h
  dsimp only at h
  by_cases hhigh : ts > highBoundary.toNat
  · left
    rw [if_pos hhigh] at h
    split at h
    · cases h
    · rename_i horder
      simp only [not_not] at horder
      split at h
      · cases h
      · rename_i hoffset
        cases h
        refine ⟨hhigh, rfl, rfl, ?_, rfl⟩
        dsimp only
        omega
  · right
    rw [if_neg hhigh] at h
    split at h
    · split at h
      · cases h
      · rename_i horder
        simp only [not_not] at horder
        split at h
        · cases h
        · rename_i hoffset
          cases h
          refine ⟨hhigh, rfl, rfl, ?_, rfl⟩
          dsimp only
          omega
    · cases h

theorem estimateStep_inr {ts : Nat}
    (h : estimateStep lowBoundary highBoundary ts s = .inr resH) :
    resH = 0 ∨ resH = s.currentLowBoundary ∨
      (resH = s.calculatedEstimatedHeight ∧ ¬ ts > highBoundary.toNat) := by
  unfold estimateStep at h
  dsimp only at h
  by_cases hhigh : ts > highBoundary.toNat
  · rw [if_pos hhigh] at h
    split at h
    · exact Or.inl (Sum.inr.inj h).symm
    · split at h
      · exact Or.inr (Or.inl (Sum.inr.inj h).symm)
      · cases h
  · rw [if_neg hhigh] at h
    split at h
    · split at h
      · exact Or.inl (Sum.inr.inj h).symm
      · split at h
        -- the lower bound was moved before it is returned
        · exact Or.inr (Or.inr ⟨(Sum.inr.inj h).symm, hhigh⟩)
        · cases h
    · exact Or.inr (Or.inr ⟨(Sum.inr.inj h).symm, hhigh⟩)

theorem EstimateBounds.step (hs : EstimateBounds db date s) (hdate : estDateHighMargin ≤ date.toNat)
    (hbei : db.blocks[s.calculatedEstimatedHeight]? = some bei)
    (h : estimateStep lowBoundary (date - .ofNat estDateHighMargin) bei.bl.timestamp s = .inl s') :
    EstimateBounds db date s' := by
  obtain ⟨hlow, hhigh, hsize, hold⟩ := hs
  rcases estimateStep_inl h with
    ⟨-, hlow', hhigh', hwindow, hmiddle⟩ | ⟨hts, hlow', hhigh', hwindow, hmiddle⟩
  · refine ⟨by omega, by omega, by omega, ?_⟩
    rw [hlow']
    exact hold
  · refine ⟨by omega, by omega, by omega, ?_⟩
    rw [hlow']
    exact startsBefore_of_le hdate hbei hts

theorem EstimateBounds.returned (hs : EstimateBounds db date s)
    (hdate : estDateHighMargin ≤ date.toNat)
    (hbei : db.blocks[s.calculatedEstimatedHeight]? = some bei)
    (h : estimateStep lowBoundary (date - .ofNat estDateHighMargin) bei.bl.timestamp s = .inr resH) :
    StartsBefore db date resH := by
  rcases estimateStep_inr h with hzero | hlow | ⟨hheight, hts⟩
  · exact Or.inl hzero
  · rw [hlow]
    exact hs.low_old
  · rw [hheight]
    exact startsBefore_of_le hdate hbei hts

/-! ## The search -/

/-- The search reads only blocks of the chain, and returns a height of the chain. -/
theorem estimateLoop_lt_size (iterations : Nat)
    (hlow : s.currentLowBoundary ≤ s.calculatedEstimatedHeight)
    (hle : s.calculatedEstimatedHeight ≤ s.currentHeightBoundary)
    (hsize : s.currentHeightBoundary < db.size) :
    ∃ resH, estimateLoop db lowBoundary highBoundary iterations s = some resH ∧ resH < db.size := by
  induction iterations generalizing s with
  | zero => exact ⟨0, rfl, by omega⟩
  | succ iterations ih =>
      have hlt : s.calculatedEstimatedHeight < db.blocks.length := Nat.lt_of_le_of_lt hle hsize
      rw [estimateLoop, List.getElem?_eq_getElem hlt]
      dsimp only
      split
      · rename_i s' hstep
        rcases estimateStep_inl hstep with
          ⟨-, hlow', hhigh', hwindow, hmiddle⟩ | ⟨-, hlow', hhigh', hwindow, hmiddle⟩
        · exact ih (by omega) (by omega) (by omega)
        · exact ih (by omega) (by omega) (by omega)
      · rename_i resH hstep
        refine ⟨resH, rfl, ?_⟩
        rcases estimateStep_inr hstep with hzero | hlowest | ⟨hheight, -⟩ <;> omega

theorem estimateLoop_startsBefore (hdate : estDateHighMargin ≤ date.toNat) (iterations : Nat)
    (hs : EstimateBounds db date s)
    (h : estimateLoop db lowBoundary (date - .ofNat estDateHighMargin) iterations s = some resH) :
    StartsBefore db date resH := by
  induction iterations generalizing s with
  | zero =>
      rw [estimateLoop] at h
      exact Or.inl (Option.some.inj h).symm
  | succ iterations ih =>
      rw [estimateLoop] at h
      split at h
      · cases h
      · rename_i bei hbei
        split at h
        · rename_i s' hstep
          exact ih (hs.step hdate hbei hstep) h
        · rename_i resH' hstep
          cases h
          exact hs.returned hdate hbei hstep

/-! ## What is returned -/

/-- The timestamp of the last block. -/
def Db.lastTimestamp (db : Db) : Nat :=
  match db.blocks[db.size - 1]? with
  | some bei => bei.bl.timestamp
  | none => 0

/-- A height of the chain.  A date that the chain has reached starts before it; for a later one
the height is a number of blocks below the top. -/
structure EstHeight (db : Db) (date : UInt64) (resH : Nat) : Prop where
  lt_size : resH < db.size
  startsBefore : date.toNat ≤ db.lastTimestamp → estDateHighMargin ≤ date.toNat →
    StartsBefore db date resH
  below_top : db.lastTimestamp < date.toNat →
    resH = 0 ∨ resH = db.size - getEstHeightFromDateThreshold

/-- The search always ends, within the chain and before the date. -/
theorem getEstHeightFromDate_conservative (db : Db) (launch : Nat) (date : UInt64)
    (hgenesis : db.blocks ≠ []) :
    ∃ resH, getEstHeightFromDate db launch date = some resH ∧ EstHeight db date resH := by
  have hsize : 0 < db.size := List.length_pos_iff.mpr hgenesis
  unfold getEstHeightFromDate
  dsimp only
  split
  · exact ⟨0, rfl, hsize, fun _ _ => Or.inl rfl, fun _ => Or.inl rfl⟩
  have hlast : db.size - 1 < db.blocks.length := Nat.sub_lt hsize Nat.one_pos
  have htimestamp : db.lastTimestamp = db.blocks[db.size - 1].bl.timestamp := by
    rw [Db.lastTimestamp, List.getElem?_eq_getElem hlast]
  rw [List.getElem?_eq_getElem hlast]
  dsimp only
  split
  · rename_i hpast
    rw [← htimestamp] at hpast
    split
    · rename_i hlong
      refine ⟨_, rfl, ?_, fun hdate => ?_, fun _ => Or.inr rfl⟩
      · exact Nat.sub_lt hsize (by decide)
      · omega
    · exact ⟨0, rfl, hsize, fun _ _ => Or.inl rfl, fun _ => Or.inl rfl⟩
  · rename_i hreached
    rw [← htimestamp] at hreached
    have hstart : db.size - 1 < db.size := Nat.sub_lt hsize Nat.one_pos
    obtain ⟨resH, hloop, hlt⟩ := @estimateLoop_lt_size db (date - .ofNat estDateLowMargin)
      (date - .ofNat estDateHighMargin) ⟨_, 0, db.size - 1⟩ estimateIterations
      (Nat.zero_le _) (Nat.min_le_right _ _) hstart
    refine ⟨resH, hloop, hlt, fun _ hdate => ?_, fun hdate => ?_⟩
    · exact estimateLoop_startsBefore hdate _
        ⟨Nat.zero_le _, Nat.min_le_right _ _, hstart, Or.inl rfl⟩ hloop
    · omega

/-- A block of a chain that came faster than the target: all but the genesis have one
timestamp. -/
def fastBlock (height : Nat) : BlockExtendedInfo where
  bl := sampleKeyBlock height (if height = 0 then 0 else 1600000000)
  height
  cumulativeDiffAdjusted := height
  cumulativeDiffPrecise := height
  cumulativeDiffPreciseAdjusted := height
  difficulty := 1
  stakeHash := 0
  blockCumulativeSize := 0
  alreadyGeneratedCoins := 0
  thisBlockTxFeeMedian := 0
  effectiveTxFeeMedian := 0

def fastChain : Db := { Db.empty with blocks := (List.range 1500).map fastBlock }

theorem fastChain_block {height : Nat} (h : height < 1500) :
    fastChain.blocks[height]? = some (fastBlock height) := by
  simp [fastChain, h]

theorem fastChain_size : fastChain.size = 1500 := by
  simp [fastChain, Db.size]

theorem fastChain_conservative :
    ∃ resH, getEstHeightFromDate fastChain 0 1600000000 = some resH ∧
      EstHeight fastChain 1600000000 resH :=
  getEstHeightFromDate_conservative fastChain 0 1600000000 (by simp [fastChain])

/-- A second after the last block the height is 60, and no block from there on is an hour old. -/
theorem fastChain_not_startsBefore :
    ¬ ∀ (db : Db) (launch : Nat) (date : UInt64), db.blocks ≠ [] →
      ∃ resH, getEstHeightFromDate db launch date = some resH ∧ StartsBefore db date resH := by
  intro h
  obtain ⟨resH, hres, hold⟩ := h fastChain 0 1600000001 (by simp [fastChain])
  have hlaunch : getBlockchainLaunchTimestamp fastChain 0 = 1600000000 := by
    simp only [getBlockchainLaunchTimestamp, fastChain_size, fastChain_block (by decide : 1 < 1500)]
    rfl
  have hheight : getEstHeightFromDate fastChain 0 1600000001 = some 60 := by
    simp only [getEstHeightFromDate, hlaunch, fastChain_size,
      fastChain_block (by decide : 1500 - 1 < 1500)]
    rfl
  rw [hheight] at hres
  cases hres
  rcases hold with hzero | ⟨bei, hbei, hts⟩
  · cases hzero
  · rw [fastChain_block (by decide)] at hbei
    cases hbei
    exact absurd hts (by decide)

end Chinet
