import Mathlib.Algebra.Order.BigOperators.Group.List
import Mathlib.Algebra.Order.Group.Nat
import Mathlib.Data.UInt
import Mathlib.Tactic.Common

/-!
# Sums of 64-bit words

A sum of words is the sum of their values up to a multiple of `2 ^ 64`, and equal to it where that is
small enough.  A comparison of such sums says something about the values as far as they wrap alike.
-/

namespace WordSums

/-- The values of a list of words, summed up as numbers. -/
def total (words : List UInt64) : Nat := (words.map UInt64.toNat).sum

@[simp] theorem total_nil : total [] = 0 := rfl

@[simp] theorem total_cons (word : UInt64) (words : List UInt64) :
    total (word :: words) = word.toNat + total words := rfl

theorem toNat_sum (words : List UInt64) : words.sum.toNat = total words % 2 ^ 64 := by
  induction words with
  | nil => rfl
  | cons word rest ih => rw [List.sum_cons, UInt64.toNat_add, ih, total_cons, Nat.add_mod_mod]

theorem toNat_sum_le (words : List UInt64) : words.sum.toNat ≤ total words := by
  rw [toNat_sum]
  exact Nat.mod_le _ _

theorem toNat_sum_of_lt {words : List UInt64} (h : total words < 2 ^ 64) :
    words.sum.toNat = total words := by
  rw [toNat_sum, Nat.mod_eq_of_lt h]

/-- A sum that grows with every word shows that its last addition did not wrap. -/
theorem add_fits_iff (sum word : UInt64) :
    ¬ word + sum < sum ↔ sum.toNat + word.toNat < 2 ^ 64 := by
  have hsum := sum.toNat_lt
  have hword := word.toNat_lt
  rw [UInt64.lt_iff_toNat_lt, UInt64.toNat_add]
  omega

theorem toNat_le_total {word : UInt64} {words : List UInt64} (h : word ∈ words) :
    word.toNat ≤ total words :=
  List.le_sum_of_mem (List.mem_map_of_mem h)

/-- The values of the entries that satisfy `p`, and of the others. -/
theorem total_filter_add {α : Type*} (p : α → Bool) (f : α → UInt64) (l : List α) :
    total ((l.filter p).map f) + total ((l.filter (!p ·)).map f) = total (l.map f) := by
  induction l with
  | nil => rfl
  | cons a rest ih =>
      cases h : p a with
      | true => simp [h, ← ih, Nat.add_assoc]
      | false => simp [h, ← ih, Nat.add_left_comm]

/-! ## Comparisons -/

theorem total_le_iff {words : List UInt64} {word : UInt64} (h : words.sum ≤ word) :
    total words ≤ word.toNat ↔ total words < 2 ^ 64 := by
  constructor
  · intro hle
    exact Nat.lt_of_le_of_lt hle word.toNat_lt
  · intro hlt
    rw [← toNat_sum_of_lt hlt]
    exact UInt64.le_iff_toNat_le.mp h

/-- Two sums are as far apart as their words, unless the smaller one wraps more often. -/
theorem total_add_le_iff {words rest : List UInt64} {bound : Nat} (hlt : rest.sum < words.sum)
    (hbound : bound ≤ (words.sum - rest.sum).toNat) :
    total rest + bound ≤ total words ↔ total rest / 2 ^ 64 ≤ total words / 2 ^ 64 := by
  have hle : rest.sum.toNat ≤ words.sum.toNat := Nat.le_of_lt (UInt64.lt_iff_toNat_lt.mp hlt)
  rw [UInt64.toNat_sub_of_le _ _ (UInt64.le_iff_toNat_le.mpr hle), toNat_sum, toNat_sum] at hbound
  rw [toNat_sum, toNat_sum] at hle
  have hrest := Nat.div_add_mod (total rest) (2 ^ 64)
  have hwords := Nat.div_add_mod (total words) (2 ^ 64)
  have hmod := Nat.mod_lt (total words) (show 0 < 2 ^ 64 by decide)
  constructor
  · intro hsum
    exact Nat.div_le_div_right (Nat.le_of_add_right_le hsum)
  · intro hwraps
    have hmul := Nat.mul_le_mul_left (2 ^ 64) hwraps
    omega

/-- A difference that is large enough as a signed word: the sum is smaller by as much, or larger by
more than half of the words. -/
theorem total_add_le_iff_of_signed {words : List UInt64} {word bound : UInt64}
    (hbound : bound.toNat < 2 ^ 63)
    (h : bound.toBitVec.toInt ≤ (word - words.sum).toBitVec.toInt) :
    total words + bound.toNat ≤ word.toNat ↔ total words ≤ word.toNat + 2 ^ 63 := by
  have hsum := toNat_sum words
  have hword := word.toNat_lt
  have hdifference := UInt64.toNat_sub word words.sum
  rw [BitVec.toInt_eq_toNat_cond, BitVec.toInt_eq_toNat_cond] at h
  rw [UInt64.toNat_toBitVec, UInt64.toNat_toBitVec, if_pos (by omega)] at h
  constructor
  · intro hle
    omega
  · intro hle
    split at h
    · omega
    · omega

end WordSums
