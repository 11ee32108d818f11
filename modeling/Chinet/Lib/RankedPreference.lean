import Mathlib.Data.List.Chain
import Mathlib.Order.Basic
import Mathlib.Algebra.Order.Ring.Nat
import Mathlib.Tactic.Ring

/-!
# Preferences that follow a rank

A binary preference may be given by a comparison that looks at both sides at
once, such as two rounded quotients.  If the preferred side always has the
larger rank, the preference has no cycle, whatever the comparison looks like.
-/

namespace RankedPreference

variable {α β : Type*}

/-- `Follows prefers rank`: the preferred side has the larger rank. -/
def Follows [LT β] (prefers : α → α → Prop) (rank : α → β) : Prop :=
  ∀ ⦃a b⦄, prefers a b → rank b < rank a

namespace Follows

variable [Preorder β] {prefers : α → α → Prop} {rank : α → β}

/-- Along a chain of preferences the rank of the end exceeds that of the start. -/
theorem rank_lt_of_isChain (h : Follows prefers rank) (a b : α) (l : List α)
    (hchain : (a :: (l ++ [b])).IsChain (fun x y => prefers y x)) : rank a < rank b := by
  induction l generalizing a with
  | nil =>
      have hab : prefers b a := by simpa using hchain
      exact h hab
  | cons c rest ih =>
      rw [List.cons_append, List.isChain_cons_cons] at hchain
      exact lt_trans (h hchain.1) (ih c hchain.2)

/-- A ranked preference has no cycle, of any length. -/
theorem no_cycle (h : Follows prefers rank) (a : α) (l : List α) :
    ¬ (a :: (l ++ [a])).IsChain (fun x y => prefers y x) :=
  fun hchain => lt_irrefl _ (h.rank_lt_of_isChain a a l hchain)

end Follows

/-! ## Comparing rounded quotients -/

/-- Cross multiplication bounds a rounded quotient by another. -/
theorem div_le_div_of_mul_le_mul {x y c d : ℕ} (hd : 0 < d) (hc : 0 < c)
    (h : x * c ≤ y * d) : x / d ≤ y / c := by
  rw [Nat.le_div_iff_mul_le hc]
  have hquot : x / d * d ≤ x := Nat.div_mul_le_self x d
  have hscaled : x / d * c * d ≤ y * d := by
    calc x / d * c * d = x / d * d * c := by ring
      _ ≤ x * c := Nat.mul_le_mul_right c hquot
      _ ≤ y * d := h
  exact Nat.le_of_mul_le_mul_right hscaled hd

/-- Comparing `s a * p a / p b` with `s b * p b / p a` follows the rank
`s a * p a * p a`: rounding can only turn a strict comparison into a tie. -/
theorem follows_crossQuotient (s p : α → ℕ) (hp : ∀ a, 0 < p a) :
    Follows (fun a b => s b * p b / p a < s a * p a / p b) (fun a => s a * p a * p a) := by
  intro a b hab
  by_contra hrank
  exact absurd (div_le_div_of_mul_le_mul (hp b) (hp a) (not_lt.mp hrank)) (not_le.mpr hab)

end RankedPreference
