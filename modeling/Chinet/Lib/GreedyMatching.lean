import Mathlib.Data.List.Forall2
import Mathlib.Data.List.NodupEquivFin

/-!
# Greedy matching

A matching in order gives each entry of a list its own entry of another one, later entries to
later ones.  Taking for each entry the first one that fits never spoils a matching: what the
greedy search passes over cannot help a later entry either.
-/

namespace GreedyMatching

variable {α β : Type} {R : α → β → Prop} {x : α} {xs : List α} {y : β} {ys : List β}

/-- A strictly increasing assignment of the entries of `xs` to entries of `ys` that fit them. -/
def Matches (R : α → β → Prop) (xs : List α) (ys : List β) : Prop :=
  ∃ f : Fin xs.length → Fin ys.length, StrictMono f ∧ ∀ i, R (xs.get i) (ys.get (f i))

/-- An assignment picks a sublist that fits entry by entry. -/
theorem matches_iff_sublistForall₂ : Matches R xs ys ↔ List.SublistForall₂ R xs ys := by
  rw [List.sublistForall₂_iff]
  constructor
  · intro h
    obtain ⟨f, hmono, hf⟩ := h
    refine ⟨List.ofFn fun i => ys.get (f i), ?_, ?_⟩
    · rw [List.forall₂_iff_get]
      refine ⟨(List.length_ofFn).symm, ?_⟩
      intro i hi hi'
      simpa using hf ⟨i, hi⟩
    · rw [List.sublist_iff_exists_fin_orderEmbedding_get_eq]
      have hlength : (List.ofFn fun i => ys.get (f i)).length = xs.length := List.length_ofFn
      refine ⟨OrderEmbedding.ofStrictMono (fun i => f (Fin.cast hlength i)) ?_, ?_⟩
      · intro i j hij
        exact hmono hij
      · intro i
        rw [List.get_ofFn]
        rfl
  · intro h
    obtain ⟨zs, hfits, hsub⟩ := h
    rw [List.sublist_iff_exists_fin_orderEmbedding_get_eq] at hsub
    obtain ⟨f, hf⟩ := hsub
    obtain ⟨hlength, hfits⟩ := List.forall₂_iff_get.mp hfits
    refine ⟨fun i => f (Fin.cast hlength i), ?_, ?_⟩
    · intro i j hij
      exact f.strictMono hij
    · intro i
      rw [← hf]
      exact hfits i i.isLt (hlength ▸ i.isLt)

theorem matches_nil : Matches R [] ys := matches_iff_sublistForall₂.mpr .nil

theorem not_matches_nil : ¬ Matches R (x :: xs) [] := by
  rw [matches_iff_sublistForall₂]
  intro h
  cases h

theorem Matches.tail (h : Matches R (x :: xs) ys) : Matches R xs ys := by
  rw [matches_iff_sublistForall₂] at h ⊢
  induction ys with
  | nil => cases h
  | cons y ys ih =>
      cases h with
      | cons _ hrest => exact .cons_right hrest
      | cons_right hrest => exact .cons_right (ih hrest)

/-- An entry may take the first one that fits. -/
theorem matches_cons_of_fits (h : R x y) : Matches R (x :: xs) (y :: ys) ↔ Matches R xs ys := by
  constructor
  · intro hmatches
    rw [matches_iff_sublistForall₂] at hmatches
    cases hmatches with
    | cons _ hrest => exact matches_iff_sublistForall₂.mpr hrest
    | cons_right hrest => exact (matches_iff_sublistForall₂.mpr hrest).tail
  · intro hmatches
    rw [matches_iff_sublistForall₂] at hmatches ⊢
    exact .cons h hmatches

/-- One that does not fit an entry is of no use to those behind it. -/
theorem matches_cons_of_not_fits (h : ¬ R x y) :
    Matches R (x :: xs) (y :: ys) ↔ Matches R (x :: xs) ys := by
  rw [matches_iff_sublistForall₂, matches_iff_sublistForall₂]
  constructor
  · intro hmatches
    cases hmatches with
    | cons hfits _ => exact absurd hfits h
    | cons_right hrest => exact hrest
  · exact .cons_right

theorem Matches.length_le (h : Matches R xs ys) : xs.length ≤ ys.length := by
  obtain ⟨zs, hfits, hsub⟩ := List.sublistForall₂_iff.mp (matches_iff_sublistForall₂.mp h)
  exact hfits.length_eq.trans_le hsub.length_le

end GreedyMatching
