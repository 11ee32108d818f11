import Mathlib.Data.UInt
import Mathlib.Tactic.Ring
import Chinet.FormatUtils
import Chinet.Lib.PartialSteps

/-!
# The penalty on large blocks

`get_block_reward` multiplies the reward by `(2 * m - c) * c` in 128 bits and
divides twice by the median `m`, a word of 32 bits at a time, with the helpers of
`int-util.h`.  `mul128_value` and `div128By32_value` say that these helpers lose no
carry; the median is cut to 32 bits before it divides, so the result is that of the
formula for medians below `2 ^ 32` (`getBlockRewardWords_penalty`), where it agrees
with `getBlockReward`.
-/

namespace Chinet

open PartialSteps

/-! ## `int-util.h` -/

def hiDword (val : UInt64) : UInt64 := val >>> 32
def loDword (val : UInt64) : UInt64 := val &&& 0xffffffff

/-- `mul128_manually`: the low and the high word of the product. -/
def mul128 (multiplier multiplicand : UInt64) : UInt64 × UInt64 :=
  let a := hiDword multiplier
  let b := loDword multiplier
  let c := hiDword multiplicand
  let d := loDword multiplicand
  let adbc := a * d + b * c
  let adbcCarry : UInt64 := if adbc < a * d then 1 else 0
  let productLo := b * d + (adbc <<< 32)
  let productLoCarry : UInt64 := if productLo < b * d then 1 else 0
  (productLo, a * c + (adbc >>> 32) + (adbcCarry <<< 32) + productLoCarry)

/-- The quotient and the remainder, from a dividend behind the remainder so far. -/
def divWithReminder (dividend : UInt64) (divisor remainder : UInt32) : UInt64 × UInt32 :=
  let dividend := dividend ||| (remainder.toUInt64 <<< 32)
  (dividend / divisor.toUInt64, (dividend % divisor.toUInt64).toUInt32)

/-- `div128_32_manually`: the low and the high word of the quotient, by long division with base
`2 ^ 32`. -/
def div128By32 (dividendLo dividendHi : UInt64) (divisor : UInt32) : Defined (UInt64 × UInt64) :=
  if divisor = 0 then .error .divisionByZero
  else
    let dword₃ := divWithReminder (hiDword dividendHi) divisor 0
    let dword₂ := divWithReminder (loDword dividendHi) divisor dword₃.2
    let dword₁ := divWithReminder (hiDword dividendLo) divisor dword₂.2
    let dword₀ := divWithReminder (loDword dividendLo) divisor dword₁.2
    .ok ((dword₁.1 <<< 32) ||| dword₀.1, (dword₃.1 <<< 32) ||| dword₂.1)

/-! ## `get_block_reward` -/

/-- `CURRENCY_BLOCK_GRANTED_FULL_REWARD_ZONE` as a size. -/
def fullRewardZone : UInt64 := UInt64.ofNat currencyBlockGrantedFullRewardZone

/-- "make it soft". -/
def effectiveMedian (medianSize : UInt64) : UInt64 :=
  if medianSize < fullRewardZone then fullRewardZone else medianSize

/-- `get_block_reward` on its machine words.  The result is none where it returns false. -/
def getBlockRewardWords (medianSize currentBlockSize height : UInt64) : Defined (Option UInt64) :=
  let baseReward := getBaseBlockReward height.toNat
  let medianSize := effectiveMedian medianSize
  if currentBlockSize ≤ medianSize ∨ height = 0 then .ok (some baseReward)
  else if currentBlockSize > 2 * medianSize then .ok none
  else do
    let multiplicand := (2 * medianSize - currentBlockSize) * currentBlockSize
    let (productLo, productHi) := mul128 baseReward multiplicand
    let (rewardLo, rewardHi) ← div128By32 productLo productHi medianSize.toUInt32
    let (rewardLo, rewardHi) ← div128By32 rewardLo rewardHi medianSize.toUInt32
    if rewardHi = 0 ∧ rewardLo < baseReward then return some rewardLo else return none

/-! ## The helpers are exact -/

/-- The number that a low and a high word make. -/
def wideValue (words : UInt64 × UInt64) : Nat := words.1.toNat + 2 ^ 64 * words.2.toNat

theorem toNat_hiDword (val : UInt64) : (hiDword val).toNat = val.toNat / 2 ^ 32 := by
  simp [hiDword, UInt64.toNat_shiftRight, Nat.shiftRight_eq_div_pow]

theorem toNat_loDword (val : UInt64) : (loDword val).toNat = val.toNat % 2 ^ 32 := by
  rw [loDword, UInt64.toNat_and]
  exact Nat.and_two_pow_sub_one_eq_mod val.toNat 32

theorem toNat_shiftLeft32 (val : UInt64) : (val <<< 32).toNat = val.toNat * 2 ^ 32 % 2 ^ 64 := by
  simp [UInt64.toNat_shiftLeft, Nat.shiftLeft_eq]

theorem toNat_shiftRight32 (val : UInt64) : (val >>> 32).toNat = val.toNat / 2 ^ 32 := by
  simp [UInt64.toNat_shiftRight, Nat.shiftRight_eq_div_pow]

/-- Two halves of 32 bits joined. -/
theorem toNat_joined {q₁ q₀ : UInt64} (h₁ : q₁.toNat < 2 ^ 32) (h₀ : q₀.toNat < 2 ^ 32) :
    ((q₁ <<< 32) ||| q₀).toNat = q₁.toNat * 2 ^ 32 + q₀.toNat := by
  rw [UInt64.toNat_or, toNat_shiftLeft32, Nat.mod_eq_of_lt (by omega), Nat.mul_comm,
    Nat.two_pow_add_eq_or_of_lt h₀]

/-- The product of two halves fits a word. -/
theorem halves_mul_le {x y : Nat} (hx : x < 2 ^ 32) (hy : y < 2 ^ 32) :
    x * y ≤ (2 ^ 32 - 1) * (2 ^ 32 - 1) := Nat.mul_le_mul (by omega) (by omega)

/-- No carry of the four partial products is lost. -/
theorem mul128_value (multiplier multiplicand : UInt64) :
    wideValue (mul128 multiplier multiplicand) = multiplier.toNat * multiplicand.toNat := by
  have hx := multiplier.toNat_lt
  have hy := multiplicand.toNat_lt
  have ha := toNat_hiDword multiplier
  have hb := toNat_loDword multiplier
  have hc := toNat_hiDword multiplicand
  have hd := toNat_loDword multiplicand
  have hproduct : multiplier.toNat * multiplicand.toNat =
      (hiDword multiplier).toNat * (hiDword multiplicand).toNat * 2 ^ 64 +
        ((hiDword multiplier).toNat * (loDword multiplicand).toNat +
          (loDword multiplier).toNat * (hiDword multiplicand).toNat) * 2 ^ 32 +
        (loDword multiplier).toNat * (loDword multiplicand).toNat := by
    have hxparts : multiplier.toNat = (hiDword multiplier).toNat * 2 ^ 32 +
        (loDword multiplier).toNat := by omega
    have hyparts : multiplicand.toNat = (hiDword multiplicand).toNat * 2 ^ 32 +
        (loDword multiplicand).toNat := by omega
    calc multiplier.toNat * multiplicand.toNat
      _ = ((hiDword multiplier).toNat * 2 ^ 32 + (loDword multiplier).toNat) *
            ((hiDword multiplicand).toNat * 2 ^ 32 + (loDword multiplicand).toNat) := by
          rw [← hxparts, ← hyparts]
      _ = _ := by ring
  rw [hproduct]
  simp only [mul128, wideValue]
  generalize hiDword multiplier = a at ha ⊢
  generalize loDword multiplier = b at hb ⊢
  generalize hiDword multiplicand = c at hc ⊢
  generalize loDword multiplicand = d at hd ⊢
  have hac := @halves_mul_le a.toNat c.toNat (by omega) (by omega)
  have had := @halves_mul_le a.toNat d.toNat (by omega) (by omega)
  have hbc := @halves_mul_le b.toNat c.toNat (by omega) (by omega)
  have hbd := @halves_mul_le b.toNat d.toNat (by omega) (by omega)
  simp only [UInt64.lt_iff_toNat_lt, UInt64.toNat_add, UInt64.toNat_mul, toNat_shiftLeft32,
    toNat_shiftRight32]
  generalize a.toNat * c.toNat = ac at hac ⊢
  generalize a.toNat * d.toNat = ad at had ⊢
  generalize b.toNat * c.toNat = bc at hbc ⊢
  generalize b.toNat * d.toNat = bd at hbd ⊢
  split <;> split <;> simp only [UInt64.toNat_zero, UInt64.toNat_one] <;> omega

/-- One step of the long division: a dword behind a remainder below the divisor. -/
theorem divWithReminder_value {dividend : UInt64} {divisor remainder : UInt32}
    (hdividend : dividend.toNat < 2 ^ 32) (hremainder : remainder.toNat < divisor.toNat) :
    (divWithReminder dividend divisor remainder).1.toNat =
        (remainder.toNat * 2 ^ 32 + dividend.toNat) / divisor.toNat ∧
      (divWithReminder dividend divisor remainder).2.toNat =
        (remainder.toNat * 2 ^ 32 + dividend.toNat) % divisor.toNat := by
  have hdivisor := divisor.toNat_lt
  have hbehind : (dividend ||| (remainder.toUInt64 <<< 32)).toNat =
      remainder.toNat * 2 ^ 32 + dividend.toNat := by
    rw [UInt64.or_comm, toNat_joined (by rw [UInt32.toNat_toUInt64]; omega) hdividend,
      UInt32.toNat_toUInt64]
  have hmod : (remainder.toNat * 2 ^ 32 + dividend.toNat) % divisor.toNat < divisor.toNat :=
    Nat.mod_lt _ (by omega)
  constructor
  · rw [divWithReminder, UInt64.toNat_div, hbehind, UInt32.toNat_toUInt64]
  · rw [divWithReminder, UInt64.toNat_toUInt32, UInt64.toNat_mod, hbehind, UInt32.toNat_toUInt64]
    exact Nat.mod_eq_of_lt (by omega)

theorem divWithReminder_lt {dividend : UInt64} {divisor remainder : UInt32}
    (hdividend : dividend.toNat < 2 ^ 32) (hremainder : remainder.toNat < divisor.toNat) :
    (divWithReminder dividend divisor remainder).1.toNat < 2 ^ 32 ∧
      (divWithReminder dividend divisor remainder).2.toNat < divisor.toNat := by
  obtain ⟨hquotient, hrest⟩ := divWithReminder_value hdividend hremainder
  rw [hquotient, hrest]
  constructor
  · apply Nat.div_lt_of_lt_mul
    calc remainder.toNat * 2 ^ 32 + dividend.toNat < (remainder.toNat + 1) * 2 ^ 32 := by omega
      _ ≤ divisor.toNat * 2 ^ 32 := Nat.mul_le_mul_right _ hremainder
  · exact Nat.mod_lt _ (by omega)

/-- A digit taken down in a long division: the quotient of what stands before it, and that of the
remainder with the digit. -/
theorem div_mul_add {divisor : Nat} (hdivisor : 0 < divisor) (n base digit : Nat) :
    (n * base + digit) / divisor = n / divisor * base + (n % divisor * base + digit) / divisor := by
  calc (n * base + digit) / divisor
    _ = ((divisor * (n / divisor) + n % divisor) * base + digit) / divisor := by
        rw [Nat.div_add_mod]
    _ = ((n % divisor * base + digit) + divisor * (n / divisor * base)) / divisor := by
        congr 1
        ring
    _ = n / divisor * base + (n % divisor * base + digit) / divisor := by
        rw [Nat.add_mul_div_left _ _ hdivisor, Nat.add_comm]

theorem mod_mul_add (divisor n base digit : Nat) :
    (n * base + digit) % divisor = (n % divisor * base + digit) % divisor := by
  exact (((Nat.mod_modEq n divisor).symm.mul_right base).add_right digit)

theorem div128By32_value (lo hi : UInt64) {divisor : UInt32} (hdivisor : divisor ≠ 0) :
    ∃ quotient, div128By32 lo hi divisor = .ok quotient ∧
      wideValue quotient = wideValue (lo, hi) / divisor.toNat := by
  have hpos : 0 < divisor.toNat := by
    apply Nat.pos_of_ne_zero
    intro h
    exact hdivisor (UInt32.toNat_inj.mp h)
  have hhalf (val : UInt64) : (hiDword val).toNat < 2 ^ 32 := by
    have hlt := val.toNat_lt
    rw [toNat_hiDword]
    omega
  have hlow (val : UInt64) : (loDword val).toNat < 2 ^ 32 := by
    rw [toNat_loDword]
    omega
  -- the four steps, from the highest dword down
  obtain ⟨hq₃, hr₃⟩ := divWithReminder_value (hhalf hi) (show (0 : UInt32).toNat < _ from hpos)
  obtain ⟨hlt₃, hrlt₃⟩ := divWithReminder_lt (hhalf hi) (show (0 : UInt32).toNat < _ from hpos)
  obtain ⟨hq₂, hr₂⟩ := divWithReminder_value (hlow hi) hrlt₃
  obtain ⟨hlt₂, hrlt₂⟩ := divWithReminder_lt (hlow hi) hrlt₃
  obtain ⟨hq₁, hr₁⟩ := divWithReminder_value (hhalf lo) hrlt₂
  obtain ⟨hlt₁, hrlt₁⟩ := divWithReminder_lt (hhalf lo) hrlt₂
  obtain ⟨hq₀, -⟩ := divWithReminder_value (hlow lo) hrlt₁
  obtain ⟨hlt₀, -⟩ := divWithReminder_lt (hlow lo) hrlt₁
  rw [div128By32, if_neg hdivisor]
  refine ⟨_, rfl, ?_⟩
  dsimp only [wideValue]
  rw [toNat_joined hlt₁ hlt₀, toNat_joined hlt₃ hlt₂]
  have hvalue : lo.toNat + 2 ^ 64 * hi.toNat =
      (((hiDword hi).toNat * 2 ^ 32 + (loDword hi).toNat) * 2 ^ 32 + (hiDword lo).toNat) * 2 ^ 32 +
        (loDword lo).toNat := by
    have h1 := toNat_hiDword hi
    have h2 := toNat_loDword hi
    have h3 := toNat_hiDword lo
    have h4 := toNat_loDword lo
    omega
  rw [hvalue, div_mul_add hpos, div_mul_add hpos, div_mul_add hpos,
    mod_mul_add _ ((hiDword hi).toNat * 2 ^ 32 + (loDword hi).toNat),
    mod_mul_add _ (hiDword hi).toNat]
  simp only [UInt32.toNat_zero, Nat.zero_mul, Nat.zero_add] at hq₃ hr₃
  rw [hr₃] at hq₂ hr₂
  rw [hr₂] at hq₁ hr₁
  rw [hr₁] at hq₀
  rw [hq₃, hq₂, hq₁, hq₀]
  ring

/-! ## The penalty -/

theorem toNat_effectiveMedian (medianSize : UInt64) :
    (effectiveMedian medianSize).toNat =
      max medianSize.toNat currencyBlockGrantedFullRewardZone := by
  have hzone : fullRewardZone.toNat = currencyBlockGrantedFullRewardZone := by decide
  rw [effectiveMedian]
  split
  · rename_i hlt
    rw [UInt64.lt_iff_toNat_lt, hzone] at hlt
    rw [hzone, max_eq_right hlt.le]
  · rename_i hge
    rw [UInt64.lt_iff_toNat_lt, hzone, not_lt] at hge
    exact (max_eq_left hge).symm

/-- The reward after the penalty: two divisions, each rounded down. -/
def penalizedReward (base median size : Nat) : Nat :=
  base * ((2 * median - size) * size) / median / median

/-- The two roundings are one. -/
theorem penalizedReward_eq (base median size : Nat) :
    penalizedReward base median size = base * ((2 * median - size) * size) / (median * median) := by
  rw [penalizedReward, Nat.div_div_eq_div_mul]

/-- Above the median the product of the two factors falls. -/
theorem factors_antitone {median size size' : Nat} (hsize : median ≤ size) (hle : size ≤ size') :
    (2 * median - size') * size' ≤ (2 * median - size) * size := by
  by_cases hbig : 2 * median ≤ size'
  · rw [Nat.sub_eq_zero_of_le hbig, Nat.zero_mul]
    exact Nat.zero_le _
  · obtain ⟨excess, rfl⟩ := Nat.exists_eq_add_of_le hsize
    obtain ⟨more, rfl⟩ := Nat.exists_eq_add_of_le hle
    obtain ⟨room, hroom⟩ := Nat.exists_eq_add_of_le (show median + excess + more ≤ 2 * median by omega)
    have hmedian : median = excess + more + room := by omega
    have h₁ : 2 * median - (median + excess + more) = room := by omega
    have h₂ : 2 * median - (median + excess) = room + more := by omega
    rw [h₁, h₂, hmedian]
    calc room * (excess + more + room + excess + more)
      _ ≤ room * (excess + more + room + excess + more) + more * (2 * excess + more) :=
          Nat.le_add_right _ _
      _ = (room + more) * (excess + more + room + excess) := by ring

theorem penalizedReward_antitone (base : Nat) {median size size' : Nat} (hsize : median ≤ size)
    (hle : size ≤ size') : penalizedReward base median size' ≤ penalizedReward base median size := by
  apply Nat.div_le_div_right
  apply Nat.div_le_div_right
  exact Nat.mul_le_mul_left base (factors_antitone hsize hle)

theorem factors_lt {median size : Nat} (hsize : median < size) (hle : size ≤ 2 * median) :
    (2 * median - size) * size < median * median := by
  obtain ⟨excess, rfl⟩ := Nat.exists_eq_add_of_lt hsize
  obtain ⟨room, hroom⟩ := Nat.exists_eq_add_of_le hle
  have hmedian : median = excess + 1 + room := by omega
  have h₁ : 2 * median - (median + excess + 1) = room := by omega
  rw [h₁, hmedian]
  calc room * (excess + 1 + room + excess + 1)
    _ < room * (excess + 1 + room + excess + 1) + (excess + 1) * (excess + 1) :=
        Nat.lt_add_of_pos_right (Nat.mul_pos (Nat.succ_pos excess) (Nat.succ_pos excess))
    _ = (excess + 1 + room) * (excess + 1 + room) := by ring

theorem penalizedReward_lt {base median size : Nat} (hbase : 0 < base) (hsize : median < size)
    (hle : size ≤ 2 * median) : penalizedReward base median size < base := by
  rw [penalizedReward_eq, Nat.mul_comm base]
  apply Nat.div_lt_of_lt_mul
  exact Nat.mul_lt_mul_of_pos_right (factors_lt hsize hle) hbase

theorem toNat_currencyBlockReward_pos : 0 < currencyBlockReward.toNat := by decide

/-- Above a median below `2 ^ 32` the reward is that of the formula. -/
theorem getBlockRewardWords_penalty {medianSize currentBlockSize height : UInt64}
    (hmedian : (effectiveMedian medianSize).toNat < 2 ^ 32) (hheight : height ≠ 0)
    (hsize : (effectiveMedian medianSize).toNat < currentBlockSize.toNat)
    (hle : currentBlockSize.toNat ≤ 2 * (effectiveMedian medianSize).toNat) :
    getBlockRewardWords medianSize currentBlockSize height =
      .ok (some (UInt64.ofNat (penalizedReward currencyBlockReward.toNat
        (effectiveMedian medianSize).toNat currentBlockSize.toNat))) := by
  have hbase : getBaseBlockReward height.toNat = currencyBlockReward := by
    rw [getBaseBlockReward, if_neg]
    intro h
    exact hheight (UInt64.toNat_inj.mp h)
  rw [getBlockRewardWords, hbase]
  have hpos : 0 < (effectiveMedian medianSize).toNat := by
    rw [toNat_effectiveMedian]
    exact lt_of_lt_of_le (by decide) (le_max_right _ _)
  generalize effectiveMedian medianSize = median at hmedian hsize hle hpos ⊢
  -- none of the factors wraps below the bound on the median
  have htwice : (2 * median).toNat = 2 * median.toNat := by
    rw [UInt64.toNat_mul]
    exact Nat.mod_eq_of_lt (by change 2 * median.toNat < 2 ^ 64; omega)
  have hmultiplicand : ((2 * median - currentBlockSize) * currentBlockSize).toNat =
      (2 * median.toNat - currentBlockSize.toNat) * currentBlockSize.toNat := by
    have hfits := factors_lt hsize hle
    have hsquare : median.toNat * median.toNat ≤ 2 ^ 32 * 2 ^ 32 :=
      Nat.mul_le_mul hmedian.le hmedian.le
    rw [UInt64.toNat_mul, UInt64.toNat_sub_of_le _ _ (by rw [UInt64.le_iff_toNat_le]; omega),
      htwice]
    exact Nat.mod_eq_of_lt (by omega)
  have hdivisor : median.toUInt32.toNat = median.toNat := by
    rw [UInt64.toNat_toUInt32]
    exact Nat.mod_eq_of_lt hmedian
  have hne : median.toUInt32 ≠ 0 := by
    intro h
    rw [h] at hdivisor
    exact absurd hdivisor.symm hpos.ne'
  obtain ⟨q, hq, hqvalue⟩ := div128By32_value
    (mul128 currencyBlockReward ((2 * median - currentBlockSize) * currentBlockSize)).1
    (mul128 currencyBlockReward ((2 * median - currentBlockSize) * currentBlockSize)).2 hne
  obtain ⟨q', hq', hqvalue'⟩ := div128By32_value q.1 q.2 hne
  have hvalue : wideValue q' = penalizedReward currencyBlockReward.toNat median.toNat
      currentBlockSize.toNat := by
    calc wideValue q'
      _ = wideValue q / median.toNat := by rw [hqvalue', hdivisor]
      _ = wideValue (mul128 currencyBlockReward
            ((2 * median - currentBlockSize) * currentBlockSize)) / median.toNat /
            median.toNat := by rw [hqvalue, hdivisor]
      _ = _ := by rw [mul128_value, hmultiplicand, penalizedReward]
  have hlt := penalizedReward_lt toNat_currencyBlockReward_pos hsize hle
  rw [← hvalue] at hlt ⊢
  have hwords := currencyBlockReward.toNat_lt
  -- the penalized reward is less than the base reward, so its high word is zero
  have hhi : q'.2 = 0 := by
    apply UInt64.toNat_inj.mp
    rw [wideValue] at hlt
    change q'.2.toNat = 0
    omega
  have hlo : wideValue q' = q'.1.toNat := by
    rw [wideValue, hhi]
    rfl
  rw [if_neg, if_neg]
  · simp only [hq, hq', ok_bind]
    rw [if_pos ⟨hhi, by rw [UInt64.lt_iff_toNat_lt]; omega⟩, hlo, UInt64.ofNat_toNat]
    rfl
  · rw [gt_iff_lt, UInt64.lt_iff_toNat_lt, htwice]
    omega
  · rintro (h | h)
    · rw [UInt64.le_iff_toNat_le] at h
      omega
    · exact hheight h

/-- Up to the median the whole reward is paid. -/
theorem getBlockRewardWords_full {medianSize currentBlockSize height : UInt64}
    (h : currentBlockSize ≤ effectiveMedian medianSize ∨ height = 0) :
    getBlockRewardWords medianSize currentBlockSize height =
      .ok (some (getBaseBlockReward height.toNat)) := by
  rw [getBlockRewardWords]
  exact if_pos h

/-- More than two medians are refused. -/
theorem getBlockRewardWords_tooBig {medianSize currentBlockSize height : UInt64}
    (hmedian : (effectiveMedian medianSize).toNat < 2 ^ 32) (hheight : height ≠ 0)
    (hbig : 2 * (effectiveMedian medianSize).toNat < currentBlockSize.toNat) :
    getBlockRewardWords medianSize currentBlockSize height = .ok none := by
  have htwice : (2 * effectiveMedian medianSize).toNat = 2 * (effectiveMedian medianSize).toNat := by
    rw [UInt64.toNat_mul]
    exact Nat.mod_eq_of_lt (by change 2 * (effectiveMedian medianSize).toNat < 2 ^ 64; omega)
  have hnot : ¬ (currentBlockSize ≤ effectiveMedian medianSize ∨ height = 0) := by
    rintro (h | h)
    · rw [UInt64.le_iff_toNat_le] at h
      omega
    · exact hheight h
  have hgt : currentBlockSize > 2 * effectiveMedian medianSize := by
    rw [gt_iff_lt, UInt64.lt_iff_toNat_lt, htwice]
    exact hbig
  rw [getBlockRewardWords]
  exact (if_neg hnot).trans (if_pos hgt)

/-- The function on machine words is `getBlockReward` as long as the median fits 32 bits. -/
theorem getBlockRewardWords_eq {medianSize currentBlockSize height : UInt64}
    (hmedian : (effectiveMedian medianSize).toNat < 2 ^ 32) :
    getBlockRewardWords medianSize currentBlockSize height =
      .ok (getBlockReward medianSize.toNat currentBlockSize.toNat height.toNat) := by
  have hmax := toNat_effectiveMedian medianSize
  have hheight : height = 0 ↔ height.toNat = 0 := UInt64.toNat_inj.symm
  rw [getBlockReward, ← hmax]
  by_cases hfull : currentBlockSize ≤ effectiveMedian medianSize ∨ height = 0
  · rw [getBlockRewardWords_full hfull, if_pos]
    rwa [UInt64.le_iff_toNat_le, hheight] at hfull
  · rw [not_or, UInt64.le_iff_toNat_le, not_le] at hfull
    obtain ⟨hsize, hne⟩ := hfull
    have hbase : getBaseBlockReward height.toNat = currencyBlockReward := by
      rw [getBaseBlockReward, if_neg (fun h => hne (hheight.mpr h))]
    have hfirst : ¬ (currentBlockSize.toNat ≤ (effectiveMedian medianSize).toNat ∨
        height.toNat = 0) := by
      rintro (h | h)
      · omega
      · exact hne (hheight.mpr h)
    rw [if_neg hfirst]
    by_cases hbig : 2 * (effectiveMedian medianSize).toNat < currentBlockSize.toNat
    · rw [getBlockRewardWords_tooBig hmedian hne hbig, if_pos hbig]
    · rw [not_lt] at hbig
      have hfactors := factors_lt hsize hbig
      have hsquare : (effectiveMedian medianSize).toNat * (effectiveMedian medianSize).toNat ≤
          2 ^ 32 * 2 ^ 32 := Nat.mul_le_mul hmedian.le hmedian.le
      have hlt := penalizedReward_lt toNat_currencyBlockReward_pos hsize hbig
      rw [penalizedReward] at hlt
      rw [getBlockRewardWords_penalty hmedian hne hsize hbig, if_neg (by omega), hbase,
        Nat.mod_eq_of_lt (show _ < 2 ^ 64 by omega), Nat.mod_eq_of_lt hmedian, if_pos hlt]
      rfl

theorem toNat_ofNat_reward {reward : Nat} (h : reward < currencyBlockReward.toNat) :
    (UInt64.ofNat reward).toNat = reward := by
  have hwords := currencyBlockReward.toNat_lt
  apply UInt64.toNat_ofNat_of_lt'
  change reward < 2 ^ 64
  omega

/-- Up to twice a median below `2 ^ 32` the block is paid: at most the base reward, above the
median exactly the formula, and no more than a smaller block above the median. -/
theorem block_reward_penalty {medianSize currentBlockSize height : UInt64}
    (hmedian : (effectiveMedian medianSize).toNat < 2 ^ 32)
    (hle : currentBlockSize.toNat ≤ 2 * (effectiveMedian medianSize).toNat) :
    ∃ reward, getBlockRewardWords medianSize currentBlockSize height = .ok (some reward) ∧
      reward ≤ getBaseBlockReward height.toNat ∧
      (effectiveMedian medianSize < currentBlockSize →
        reward.toNat = (getBaseBlockReward height.toNat).toNat *
          ((2 * (effectiveMedian medianSize).toNat - currentBlockSize.toNat) *
            currentBlockSize.toNat) /
          ((effectiveMedian medianSize).toNat * (effectiveMedian medianSize).toNat)) ∧
      ∀ smaller, effectiveMedian medianSize ≤ smaller → smaller ≤ currentBlockSize →
        ∃ more, getBlockRewardWords medianSize smaller height = .ok (some more) ∧
          reward ≤ more := by
  by_cases hfull : currentBlockSize ≤ effectiveMedian medianSize ∨ height = 0
  · refine ⟨_, getBlockRewardWords_full hfull, UInt64.le_refl _, ?_, ?_⟩
    · intro hsize
      rcases hfull with h | rfl
      · exact absurd h (UInt64.not_le.mpr hsize)
      · simp [getBaseBlockReward]
    · intro smaller _ hsmaller
      refine ⟨_, getBlockRewardWords_full ?_, UInt64.le_refl _⟩
      exact hfull.imp (UInt64.le_trans hsmaller) id
  · rw [not_or, UInt64.le_iff_toNat_le, not_le] at hfull
    obtain ⟨hsize, hheight⟩ := hfull
    have hbase : getBaseBlockReward height.toNat = currencyBlockReward := by
      rw [getBaseBlockReward, if_neg]
      intro h
      exact hheight (UInt64.toNat_inj.mp h)
    have hlt := penalizedReward_lt toNat_currencyBlockReward_pos hsize hle
    refine ⟨_, getBlockRewardWords_penalty hmedian hheight hsize hle, ?_, ?_, ?_⟩
    · rw [hbase, UInt64.le_iff_toNat_le, toNat_ofNat_reward hlt]
      exact hlt.le
    · intro _
      rw [hbase, toNat_ofNat_reward hlt, penalizedReward_eq]
    · intro smaller hmin hsmaller
      rw [UInt64.le_iff_toNat_le] at hmin hsmaller
      by_cases hsame : smaller ≤ effectiveMedian medianSize
      · refine ⟨_, getBlockRewardWords_full (.inl hsame), ?_⟩
        rw [hbase, UInt64.le_iff_toNat_le, toNat_ofNat_reward hlt]
        exact hlt.le
      · rw [UInt64.le_iff_toNat_le, not_le] at hsame
        have hlt' := penalizedReward_lt toNat_currencyBlockReward_pos hsame (by omega)
        refine ⟨_, getBlockRewardWords_penalty hmedian hheight hsame (by omega), ?_⟩
        rw [UInt64.le_iff_toNat_le, toNat_ofNat_reward hlt, toNat_ofNat_reward hlt']
        exact penalizedReward_antitone _ hmin hsmaller

theorem block_reward_penalty_sample :
    ∃ reward, getBlockRewardWords 1000000 1500000 7 = .ok (some reward) ∧
      reward ≤ getBaseBlockReward 7 ∧
      (effectiveMedian 1000000 < 1500000 →
        reward.toNat = (getBaseBlockReward 7).toNat *
          ((2 * (effectiveMedian 1000000).toNat - 1500000) * 1500000) /
          ((effectiveMedian 1000000).toNat * (effectiveMedian 1000000).toNat)) ∧
      ∀ smaller, effectiveMedian 1000000 ≤ smaller → smaller ≤ 1500000 →
        ∃ more, getBlockRewardWords 1000000 smaller 7 = .ok (some more) ∧ reward ≤ more :=
  @block_reward_penalty 1000000 1500000 7 (by decide) (by decide)

/-- From `2 ^ 32` on the median is cut before it divides: at a median of `2 ^ 32 + 1` a block one
byte larger is refused, where the formula leaves all but one unit of the reward. -/
theorem block_reward_penalty_cut :
    getBlockRewardWords 4294967297 4294967298 7 = .ok none ∧
    penalizedReward (getBaseBlockReward 7).toNat (effectiveMedian 4294967297).toNat 4294967298 =
      9999999999999 := by
  decide +kernel

end Chinet
