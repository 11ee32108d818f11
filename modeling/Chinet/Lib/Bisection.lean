import Mathlib.Data.List.Basic
import Mathlib.Order.Basic

/-!
# Bisection

The numbers that a bisection tries between two bounds, where a number fits up to a limit.  The
limit is among them.
-/

namespace Bisection

/-- The numbers that are tried, in this order. -/
def midpoints (limit low high : Nat) : List Nat :=
  if low + 1 ≥ high then []
  else if (low + high) / 2 ≤ limit then
    (low + high) / 2 :: midpoints limit ((low + high) / 2) high
  else (low + high) / 2 :: midpoints limit low ((low + high) / 2)
termination_by high - low

variable {limit low high : Nat}

theorem midpoints_done (h : low + 1 ≥ high) : midpoints limit low high = [] := by
  rw [midpoints, if_pos h]

theorem midpoints_fits (h : ¬ low + 1 ≥ high) (hfits : (low + high) / 2 ≤ limit) :
    midpoints limit low high = (low + high) / 2 :: midpoints limit ((low + high) / 2) high := by
  rw [midpoints, if_neg h, if_pos hfits]

theorem midpoints_above (h : ¬ low + 1 ≥ high) (habove : ¬ (low + high) / 2 ≤ limit) :
    midpoints limit low high = (low + high) / 2 :: midpoints limit low ((low + high) / 2) := by
  rw [midpoints, if_neg h, if_neg habove]

/-- The limit itself is tried, if it lies between the bounds. -/
theorem limit_mem (hlow : low < limit) (hhigh : limit < high) :
    limit ∈ midpoints limit low high := by
  induction low, high using midpoints.induct limit with
  | case1 low high hdone => omega
  | case2 low high hmore hfits ih =>
      rw [midpoints_fits hmore hfits]
      rcases Nat.eq_or_lt_of_le hfits with heq | hlt
      · rw [heq]
        exact List.mem_cons_self
      · exact List.mem_cons_of_mem _ (ih hlt hhigh)
  | case3 low high hmore hfits ih =>
      rw [midpoints_above hmore hfits]
      exact List.mem_cons_of_mem _ (ih hlow (Nat.lt_of_not_le hfits))

end Bisection
