import Mathlib.Data.List.Sort

/-!
# What a sort promises

A sort with a comparison puts the elements of a list in an order in which none stands behind an
element that is to come after it.  It says nothing about the order of elements that the
comparison holds equal; a sort that keeps it is stable.
-/

namespace SortContract

variable {α : Type}

/-- The list is in the order of the comparison. -/
def Ordered (less : α → α → Bool) (xs : List α) : Prop :=
  xs.Pairwise fun a b => less b a = false

/-- The promise of a sort that need not be stable. -/
structure Sorts (less : α → α → Bool) (sort : List α → List α) : Prop where
  perm : ∀ xs, (sort xs).Perm xs
  ordered : ∀ xs, Ordered less (sort xs)

/-- The elements that come last: none comes before another, and none before an element of the
other kind. -/
structure Last (less : α → α → Bool) (last : α → Bool) : Prop where
  behind : ∀ a b, last a = false → last b = true → less a b = true

/-- In an ordered list the elements that come last are together at its end. -/
theorem Ordered.split {less : α → α → Bool} {last : α → Bool} (h : Last less last) {xs : List α}
    (hxs : Ordered less xs) : xs = xs.filter (fun a => !last a) ++ xs.filter last := by
  induction xs with
  | nil => rfl
  | cons a xs ih =>
      obtain ⟨ha, hxs⟩ := List.pairwise_cons.mp hxs
      cases hlast : last a with
      | false =>
          rw [List.filter_cons_of_pos (by simp [hlast]), List.filter_cons_of_neg (by simp [hlast]),
            List.cons_append, ← ih hxs]
      | true =>
          -- behind an element of the last kind there is no other
          have hall : ∀ b ∈ xs, last b = true := by
            intro b hb
            by_contra hfirst
            have hless := h.behind b a (Bool.eq_false_of_not_eq_true hfirst) hlast
            rw [ha b hb] at hless
            cases hless
          have hnone : xs.filter (fun b => !last b) = [] := by
            apply List.filter_eq_nil_iff.mpr
            intro b hb
            simp [hall b hb]
          rw [List.filter_cons_of_neg (by simp [hlast]), hnone, List.nil_append,
            List.filter_eq_self.mpr]
          intro b hb
          rcases List.mem_cons.mp hb with rfl | hb
          · exact hlast
          · exact hall b hb

end SortContract
