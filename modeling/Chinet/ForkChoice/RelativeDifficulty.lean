import Chinet.CurrencyBasic
import Chinet.Lib.RankedPreference
import Mathlib.Tactic.Linarith

/-!
# The relative cumulative difficulty of two branches

After the first hard fork `is_reorganize_required` scores each of two branches
against the other with `get_a_to_b_relative_cumulative_difficulty` and prefers
the one with the larger score.  The score of a branch depends on its opponent,

  `score a b = (basicSum a * pow a * pos a) / (pow b * pos b)`,

but it has the shape of a cross quotient, so the preference follows the rank
`basicSum a * (pow a * pos a) ^ 2` of one branch alone.  That gives the absence
of cycles; monotonicity is read off the quotients.
-/

namespace Chinet

/-- The cumulative difficulties of a branch above the split point. -/
structure Difficulties where
  powDiff : Nat
  posDiff : Nat
deriving DecidableEq

/-- `x > 0 ? x : difficulty_starter`. -/
def orDifficultyStarter (diff : Nat) : Nat :=
  if diff > 0 then diff else difficultyStarter.toNat

/-- `basic_sum` of `get_a_to_b_relative_cumulative_difficulty`. -/
def basicSum (difficultyPosAtSplitPoint difficultyPowAtSplitPoint : Nat) (a : Difficulties) :
    Nat :=
  orDifficultyStarter a.powDiff +
    orDifficultyStarter a.posDiff * difficultyPowAtSplitPoint / difficultyPosAtSplitPoint

/-- The score of branch `a` against branch `b`.  The source computes in
`uint1024_t`, which never wraps here (`getAToBRelativeCumulativeDifficulty_lt`);
a zero PoS split difficulty throws there, and `isReorganizeRequired` models
that. -/
def getAToBRelativeCumulativeDifficulty
    (difficultyPosAtSplitPoint difficultyPowAtSplitPoint : Nat) (aDiff bDiff : Difficulties) :
    Nat :=
  basicSum difficultyPosAtSplitPoint difficultyPowAtSplitPoint aDiff *
      orDifficultyStarter aDiff.powDiff * orDifficultyStarter aDiff.posDiff /
    (orDifficultyStarter bDiff.powDiff * orDifficultyStarter bDiff.posDiff)

/-- The strict preference of the fork choice. -/
def Preferred (difficultyPosAtSplitPoint difficultyPowAtSplitPoint : Nat)
    (a b : Difficulties) : Prop :=
  getAToBRelativeCumulativeDifficulty difficultyPosAtSplitPoint difficultyPowAtSplitPoint b a <
    getAToBRelativeCumulativeDifficulty difficultyPosAtSplitPoint difficultyPowAtSplitPoint a b

instance (dPos dPow : Nat) (a b : Difficulties) : Decidable (Preferred dPos dPow a b) :=
  inferInstanceAs (Decidable (_ < _))

variable {dPos dPow : Nat}

@[simp] theorem difficultyStarter_toNat : difficultyStarter.toNat = 1 := rfl

theorem orDifficultyStarter_pos (diff : Nat) : 0 < orDifficultyStarter diff := by
  unfold orDifficultyStarter
  split
  · assumption
  · exact Nat.one_pos

theorem orDifficultyStarter_mono : Monotone orDifficultyStarter := by
  intro x y hxy
  simp only [orDifficultyStarter, difficultyStarter_toNat]
  split <;> split <;> omega

theorem orDifficultyStarter_lt {diff bound : Nat} (h : diff < bound) (hbound : 1 < bound) :
    orDifficultyStarter diff < bound := by
  simp only [orDifficultyStarter, difficultyStarter_toNat]
  split <;> omega

/-- The product `pow * pos` that a branch's score is divided by. -/
def diffProduct (a : Difficulties) : Nat :=
  orDifficultyStarter a.powDiff * orDifficultyStarter a.posDiff

theorem diffProduct_pos (a : Difficulties) : 0 < diffProduct a :=
  Nat.mul_pos (orDifficultyStarter_pos _) (orDifficultyStarter_pos _)

theorem getAToBRelativeCumulativeDifficulty_eq (a b : Difficulties) :
    getAToBRelativeCumulativeDifficulty dPos dPow a b =
      basicSum dPos dPow a * diffProduct a / diffProduct b := by
  rw [getAToBRelativeCumulativeDifficulty, diffProduct, diffProduct, Nat.mul_assoc]

/-! ## No wrap in 1024 bits -/

theorem basicSum_lt (a : Difficulties) (hpow : a.powDiff < 2 ^ 128)
    (hpos : a.posDiff < 2 ^ 128) (hdPow : dPow < 2 ^ 128) :
    basicSum dPos dPow a < 2 ^ 257 := by
  have hpow' := orDifficultyStarter_lt hpow (by norm_num)
  have hpos' := orDifficultyStarter_lt hpos (by norm_num)
  have hmul : orDifficultyStarter a.posDiff * dPow < 2 ^ 128 * 2 ^ 128 :=
    Nat.mul_lt_mul'' hpos' hdPow
  have hdiv : orDifficultyStarter a.posDiff * dPow / dPos ≤ orDifficultyStarter a.posDiff * dPow :=
    Nat.div_le_self _ _
  unfold basicSum
  calc orDifficultyStarter a.powDiff + orDifficultyStarter a.posDiff * dPow / dPos
      < 2 ^ 128 + 2 ^ 128 * 2 ^ 128 := by omega
    _ ≤ 2 ^ 128 * 2 ^ 128 + 2 ^ 128 * 2 ^ 128 := by norm_num
    _ = 2 ^ 257 := by rw [← pow_add, ← two_mul, ← pow_succ']

/-- With 128-bit difficulties every intermediate value of the source, hence
the score, is far below `2 ^ 1024`. -/
theorem getAToBRelativeCumulativeDifficulty_lt (a b : Difficulties) (hpow : a.powDiff < 2 ^ 128)
    (hpos : a.posDiff < 2 ^ 128) (hdPow : dPow < 2 ^ 128) :
    getAToBRelativeCumulativeDifficulty dPos dPow a b < 2 ^ 1024 := by
  have hsum : basicSum dPos dPow a < 2 ^ 257 := basicSum_lt a hpow hpos hdPow
  have hpow' := orDifficultyStarter_lt hpow (by norm_num)
  have hpos' := orDifficultyStarter_lt hpos (by norm_num)
  have hprod : diffProduct a < 2 ^ 128 * 2 ^ 128 := Nat.mul_lt_mul'' hpow' hpos'
  rw [getAToBRelativeCumulativeDifficulty_eq]
  calc basicSum dPos dPow a * diffProduct a / diffProduct b
      ≤ basicSum dPos dPow a * diffProduct a := Nat.div_le_self _ _
    _ < 2 ^ 257 * (2 ^ 128 * 2 ^ 128) := Nat.mul_lt_mul'' hsum hprod
    _ = 2 ^ (257 + (128 + 128)) := by rw [pow_add, pow_add]
    _ ≤ 2 ^ 1024 := Nat.pow_le_pow_right Nat.two_pos (by omega)

/-! ## The rank behind the preference -/

/-- The rank that the preference follows. -/
def branchRank (dPos dPow : Nat) (a : Difficulties) : Nat :=
  basicSum dPos dPow a * diffProduct a * diffProduct a

theorem preferred_follows_branchRank (dPos dPow : Nat) :
    RankedPreference.Follows (Preferred dPos dPow) (branchRank dPos dPow) := by
  intro a b hab
  simp only [Preferred, getAToBRelativeCumulativeDifficulty_eq] at hab
  exact RankedPreference.follows_crossQuotient (basicSum dPos dPow) diffProduct
    diffProduct_pos hab

/-! ## Monotonicity -/

theorem diffProduct_mono {a a' : Difficulties} (hpow : a.powDiff ≤ a'.powDiff)
    (hpos : a.posDiff ≤ a'.posDiff) : diffProduct a ≤ diffProduct a' :=
  Nat.mul_le_mul (orDifficultyStarter_mono hpow) (orDifficultyStarter_mono hpos)

theorem basicSum_mono {a a' : Difficulties} (hpow : a.powDiff ≤ a'.powDiff)
    (hpos : a.posDiff ≤ a'.posDiff) : basicSum dPos dPow a ≤ basicSum dPos dPow a' :=
  Nat.add_le_add (orDifficultyStarter_mono hpow)
    (Nat.div_le_div_right (Nat.mul_le_mul_right dPow (orDifficultyStarter_mono hpos)))

/-- Raising a branch raises its own score and lowers its opponent's, so a win
stays a win. -/
theorem preferred_mono {a a' b : Difficulties} (hpow : a.powDiff ≤ a'.powDiff)
    (hpos : a.posDiff ≤ a'.posDiff) (h : Preferred dPos dPow a b) : Preferred dPos dPow a' b := by
  simp only [Preferred, getAToBRelativeCumulativeDifficulty_eq] at h ⊢
  have hprod : diffProduct a ≤ diffProduct a' := diffProduct_mono hpow hpos
  calc basicSum dPos dPow b * diffProduct b / diffProduct a'
      ≤ basicSum dPos dPow b * diffProduct b / diffProduct a :=
        Nat.div_le_div_left hprod (diffProduct_pos a)
    _ < basicSum dPos dPow a * diffProduct a / diffProduct b := h
    _ ≤ basicSum dPos dPow a' * diffProduct a' / diffProduct b :=
        Nat.div_le_div_right (Nat.mul_le_mul (basicSum_mono hpow hpos) hprod)

/-- **The fork choice is acyclic and monotone.**  For every pair of split
difficulties, no list `a :: l` of branches closes a cycle of strict
preferences, and a branch that wins still wins after its PoW or PoS cumulative
difficulty was raised. -/
theorem forkChoice_acyclic_and_monotone (dPos dPow : Nat) :
    (∀ (a : Difficulties) (l : List Difficulties),
        ¬ (a :: (l ++ [a])).IsChain (fun x y => Preferred dPos dPow y x)) ∧
      ∀ a a' b : Difficulties, a.powDiff ≤ a'.powDiff → a.posDiff ≤ a'.posDiff →
        Preferred dPos dPow a b → Preferred dPos dPow a' b :=
  ⟨(preferred_follows_branchRank dPos dPow).no_cycle, fun _ _ _ hpow hpos => preferred_mono hpow hpos⟩

example : Preferred 3 7 ⟨40, 12⟩ ⟨35, 13⟩ := by decide

end Chinet
