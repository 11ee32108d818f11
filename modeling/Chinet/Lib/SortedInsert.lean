import Mathlib.Data.List.InsertIdx
import Mathlib.Order.Lattice

/-!
# Inserting by position

An entry is inserted before the first one whose key is not below its own.  Where the keys rise
strictly and the key of the entry is new they still do afterwards.
-/

namespace SortedInsert

variable {α κ : Type} [LinearOrder κ]

/-- The position before the first entry whose key is not below `k`. -/
def place (key : α → κ) (k : κ) (xs : List α) : Nat := xs.findIdx fun a => decide (k ≤ key a)

theorem insertIdx_place (key : α → κ) (x : α) (xs : List α) :
    xs.insertIdx (place key (key x) xs) x =
      xs.takeWhile (fun a => decide (key a < key x)) ++
        x :: xs.dropWhile (fun a => decide (key a < key x)) := by
  induction xs with
  | nil => rfl
  | cons a xs ih =>
      by_cases h : key x ≤ key a
      · have hplace : place key (key x) (a :: xs) = 0 := by
          rw [place, List.findIdx_cons, decide_eq_true h]
          rfl
        rw [hplace, List.takeWhile_cons_of_neg (by simpa using h),
          List.dropWhile_cons_of_neg (by simpa using h)]
        rfl
      · have hplace : place key (key x) (a :: xs) = place key (key x) xs + 1 := by
          rw [place, List.findIdx_cons, decide_eq_false h]
          rfl
        rw [hplace, List.insertIdx_succ_cons, ih,
          List.takeWhile_cons_of_pos (by simpa using not_le.mp h),
          List.dropWhile_cons_of_pos (by simpa using not_le.mp h)]
        rfl

theorem place_eq_length (key : α → κ) (k : κ) (xs : List α) :
    place key k xs = (xs.takeWhile (fun a => decide (key a < k))).length := by
  induction xs with
  | nil => rfl
  | cons a xs ih =>
      rw [place, List.findIdx_cons]
      by_cases h : k ≤ key a
      · rw [decide_eq_true h, List.takeWhile_cons_of_neg (by simpa using h)]
        rfl
      · rw [decide_eq_false h, List.takeWhile_cons_of_pos (by simpa using not_le.mp h),
          List.length_cons, ← ih]
        rfl

/-- The entry stands where it was inserted. -/
theorem getElem?_insertIdx_place (key : α → κ) (x : α) (xs : List α) :
    (xs.insertIdx (place key (key x) xs) x)[place key (key x) xs]? = some x := by
  rw [insertIdx_place, place_eq_length, List.getElem?_append_right (Nat.le_refl _), Nat.sub_self]
  rfl

/-- Strictly rising keys stay so if the key is new. -/
theorem pairwise_insertIdx_place (key : α → κ) {x : α} {xs : List α}
    (hrising : xs.Pairwise fun a b => key a < key b) (hnew : ∀ a ∈ xs, key a ≠ key x) :
    (xs.insertIdx (place key (key x) xs) x).Pairwise fun a b => key a < key b := by
  rw [insertIdx_place]
  induction xs with
  | nil => exact List.pairwise_singleton _ _
  | cons a xs ih =>
      obtain ⟨ha, hxs⟩ := List.pairwise_cons.mp hrising
      by_cases h : key a < key x
      · rw [List.takeWhile_cons_of_pos (by simpa using h),
          List.dropWhile_cons_of_pos (by simpa using h), List.cons_append]
        refine List.pairwise_cons.mpr ⟨?_, ih hxs fun b hb => hnew b (List.mem_cons_of_mem _ hb)⟩
        intro b hb
        rw [← insertIdx_place] at hb
        rcases List.eq_or_mem_of_mem_insertIdx hb with rfl | hb
        · exact h
        · exact ha b hb
      · rw [List.takeWhile_cons_of_neg (by simpa using h),
          List.dropWhile_cons_of_neg (by simpa using h), List.nil_append]
        have hlt : key x < key a :=
          lt_of_le_of_ne (not_lt.mp h) (Ne.symm (hnew a List.mem_cons_self))
        refine List.pairwise_cons.mpr ⟨?_, hrising⟩
        intro b hb
        rcases List.mem_cons.mp hb with rfl | hb
        · exact hlt
        · exact hlt.trans (ha b hb)

theorem perm_insertIdx_place (key : α → κ) (x : α) (xs : List α) :
    (xs.insertIdx (place key (key x) xs) x).Perm (x :: xs) := by
  rw [insertIdx_place]
  have hsplit := List.takeWhile_append_dropWhile (p := fun a => decide (key a < key x)) (l := xs)
  conv_rhs => rw [← hsplit]
  exact List.perm_middle

end SortedInsert
