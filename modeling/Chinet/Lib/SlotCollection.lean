import Chinet.Lib.GreedyMatching
import Mathlib.Data.Finset.Card

/-!
# Collecting entries in slots

Entries for the keys of a list arrive in any order.  Until there are enough of them each stands in
the slot of its key, and the other slots hold a placeholder; then the placeholders go, and what is
left matches the keys in order.  An entry that arrives for a slot of the compacted list takes the
place of another key's entry, which does no harm only if the slots before it stayed where they
were.
-/

namespace SlotCollection

open GreedyMatching

variable {α β : Type} [DecidableEq α] {empty : α} {R : α → β → Prop} {xs : List α} {ys : List β}
  {m j : Nat} {s : α} {C : Finset Nat}

/-- How many slots hold an entry. -/
def filled (empty : α) (xs : List α) : Nat := xs.countP (· != empty)

/-- Remove the placeholders. -/
def compact (empty : α) (xs : List α) : List α := xs.filter (· != empty)

/-- Put an entry into a slot, and compact the list when `m` entries are there. -/
def collect (empty : α) (m j : Nat) (s : α) (xs : List α) : List α :=
  if filled empty (xs.set j s) = m then compact empty (xs.set j s) else xs.set j s

/-- The entries for the keys with the positions in `C` stand in their slots. -/
structure Collecting (empty : α) (R : α → β → Prop) (ys : List β) (C : Finset Nat)
    (xs : List α) : Prop where
  fits : List.Forall₂ (fun x y => x = empty ∨ R x y) xs ys
  filledAt : ∀ i x, xs[i]? = some x → (x ≠ empty ↔ i ∈ C)
  count : filled empty xs = C.card

/-- `m` entries are there, without gaps and in the order of their keys. -/
structure Complete (empty : α) (R : α → β → Prop) (ys : List β) (m : Nat) (xs : List α) :
    Prop where
  length : xs.length = m
  noGaps : ∀ x ∈ xs, x ≠ empty
  inOrder : Matches R xs ys

/-- What is known after entries for the keys in `C` arrived. -/
def Progress (empty : α) (R : α → β → Prop) (ys : List β) (m : Nat) (C : Finset Nat)
    (xs : List α) : Prop :=
  (C.card < m ∧ Collecting empty R ys C xs) ∨ (m ≤ C.card ∧ Complete empty R ys m xs)

theorem Collecting.start : Collecting empty R ys ∅ (List.replicate ys.length empty) where
  fits := by
    induction ys with
    | nil => exact .nil
    | cons y ys ih => exact .cons (.inl rfl) ih
  filledAt := by
    intro i x hx
    have hempty := List.eq_of_mem_replicate (List.mem_of_getElem? hx)
    simp [hempty]
  count := by
    rw [filled, Finset.card_empty, List.countP_eq_zero]
    intro x hx
    simp [List.eq_of_mem_replicate hx]

theorem Collecting.length (h : Collecting empty R ys C xs) : xs.length = ys.length :=
  h.fits.length_eq

omit [DecidableEq α] in
theorem forall₂_set {P : α → β → Prop} {xs : List α} {ys : List β} (h : List.Forall₂ P xs ys)
    {j : Nat} {y : β} (hy : ys[j]? = some y) {s : α} (hs : P s y) : List.Forall₂ P (xs.set j s) ys := by
  induction h generalizing j with
  | nil => exact .nil
  | cons hfirst hrest ih =>
      cases j with
      | zero =>
          cases hy
          exact .cons hs hrest
      | succ j => exact .cons hfirst (ih hy)

/-- One more entry arrives, or one once more. -/
theorem Collecting.set (h : Collecting empty R ys C xs) {y : β} (hy : ys[j]? = some y)
    (hs : s ≠ empty) (hfits : R s y) : Collecting empty R ys (insert j C) (xs.set j s) := by
  have hj : j < xs.length := by
    rw [h.length]
    exact (List.getElem?_eq_some_iff.mp hy).1
  refine ⟨forall₂_set h.fits hy (.inr hfits), ?_, ?_⟩
  · intro i x hx
    rw [Finset.mem_insert]
    by_cases hij : i = j
    · subst hij
      rw [List.getElem?_set_self hj] at hx
      cases hx
      exact iff_of_true hs (.inl rfl)
    · rw [List.getElem?_set_ne (Ne.symm hij)] at hx
      rw [h.filledAt i x hx]
      simp [hij]
  · have hbefore := h.filledAt j xs[j] (List.getElem?_eq_getElem hj)
    have hcount := h.count
    rw [filled] at hcount
    rw [filled, List.countP_set hj, hcount]
    by_cases hin : j ∈ C
    · have hpos := Finset.card_pos.mpr ⟨j, hin⟩
      rw [Finset.insert_eq_of_mem hin]
      simp only [bne_iff_ne, hbefore.mpr hin, hs, not_false_eq_true, ne_eq, if_true]
      omega
    · rw [Finset.card_insert_of_notMem hin]
      have hgap : ¬ xs[j] ≠ empty := fun hne => hin (hbefore.mp hne)
      simp [not_not.mp hgap, hs]

/-- Without the placeholders the entries match the keys in order. -/
theorem matches_compact (h : List.Forall₂ (fun x y => x = empty ∨ R x y) xs ys) :
    Matches R (compact empty xs) ys := by
  rw [matches_iff_sublistForall₂]
  induction h with
  | nil => exact .nil
  | @cons x y xs ys hfirst hrest ih =>
      rw [compact, List.filter_cons]
      by_cases hx : x = empty
      · simp only [hx, bne_self_eq_false, Bool.false_eq_true, if_false]
        exact .cons_right ih
      · simp only [bne_iff_ne, ne_eq, hx, not_false_eq_true, if_true]
        exact .cons (hfirst.resolve_left hx) ih

theorem Collecting.complete (h : Collecting empty R ys C xs) :
    Complete empty R ys C.card (compact empty xs) where
  length := by
    rw [compact, ← List.countP_eq_length_filter]
    exact h.count
  noGaps := by
    intro x hx
    simpa using (List.mem_filter.mp hx).2
  inOrder := matches_compact h.fits

theorem Complete.filled_eq (h : Complete empty R ys m xs) : filled empty xs = m := by
  rw [filled, ← h.length, List.countP_eq_length]
  intro x hx
  simpa using h.noGaps x hx

theorem val_le_of_strictMono {a b : Nat} {f : Fin a → Fin b} (hf : StrictMono f) (i : Fin a) :
    i.val ≤ (f i).val := by
  obtain ⟨i, hi⟩ := i
  induction i with
  | zero => exact Nat.zero_le _
  | succ i ih =>
      have hbefore := ih (by omega)
      have hstep : f ⟨i, by omega⟩ < f ⟨i + 1, hi⟩ := hf (Nat.lt_succ_self i)
      exact Nat.succ_le_of_lt (lt_of_le_of_lt hbefore hstep)

omit [DecidableEq α] in
/-- An entry for a slot whose predecessors match their own keys may take it: the entries behind
match keys further on. -/
theorem Complete.set (h : Complete empty R ys m xs) {y : β} (hy : ys[j]? = some y) (hs : s ≠ empty)
    (hfits : R s y) (hbefore : ∀ i < j, ∀ x y, xs[i]? = some x → ys[i]? = some y → R x y) :
    Complete empty R ys m (xs.set j s) := by
  obtain ⟨hjy, rfl⟩ := List.getElem?_eq_some_iff.mp hy
  obtain ⟨f, hmono, hf⟩ := h.inOrder
  have hlength : (xs.set j s).length = xs.length := List.length_set
  refine ⟨hlength.trans h.length, ?_, ?_⟩
  · intro x hx
    rcases List.mem_or_eq_of_mem_set hx with hx | rfl
    · exact h.noGaps x hx
    · exact hs
  · refine ⟨fun i => if hi : i.val ≤ j then ⟨i.val, by omega⟩ else f (Fin.cast hlength i), ?_, ?_⟩
    · intro i i' hlt
      have hval : i.val < i'.val := hlt
      have hle := val_le_of_strictMono hmono (Fin.cast hlength i')
      rw [Fin.val_cast] at hle
      dsimp only
      split
      · split
        · exact hval
        · exact Fin.lt_def.mpr (lt_of_lt_of_le hval hle)
      · rw [dif_neg (by omega)]
        exact hmono hlt
    · intro i
      have hi : i.val < xs.length := by
        rw [← hlength]
        exact i.isLt
      rw [List.get_eq_getElem, List.getElem_set]
      dsimp only
      by_cases hij : j = i.val
      · rw [if_pos hij, dif_pos hij.ge]
        rw [List.get_eq_getElem]
        convert hfits using 2
        exact hij.symm
      · rw [if_neg hij]
        by_cases hle : i.val ≤ j
        · rw [dif_pos hle]
          exact hbefore i.val (by omega) _ _ (List.getElem?_eq_getElem hi)
            (List.getElem?_eq_getElem (by omega))
        · rw [dif_neg hle]
          exact hf (Fin.cast hlength i)

theorem Complete.collect (h : Complete empty R ys m xs) {y : β} (hy : ys[j]? = some y)
    (hs : s ≠ empty) (hfits : R s y)
    (hbefore : ∀ i < j, ∀ x y, xs[i]? = some x → ys[i]? = some y → R x y) :
    Complete empty R ys m (collect empty m j s xs) := by
  have hset := h.set hy hs hfits hbefore
  have hsame : compact empty (xs.set j s) = xs.set j s := by
    rw [compact, List.filter_eq_self]
    intro x hx
    simpa using hset.noGaps x hx
  rw [SlotCollection.collect, hsame, ite_self]
  exact hset

/-- One more entry, for a slot that is still there. -/
theorem Progress.step (h : Progress empty R ys m C xs) {y : β} (hy : ys[j]? = some y)
    (hs : s ≠ empty) (hfits : R s y)
    (hharmless : filled empty xs = m → j < xs.length →
      ∀ i < j, ∀ x y, xs[i]? = some x → ys[i]? = some y → R x y) :
    Progress empty R ys m (insert j C) (if j < xs.length then collect empty m j s xs else xs) := by
  obtain ⟨hjy, -⟩ := List.getElem?_eq_some_iff.mp hy
  rcases h with ⟨hfew, hcollecting⟩ | ⟨henough, hcomplete⟩
  · have hset := hcollecting.set hy hs hfits
    have hcard := Finset.card_insert_le j C
    rw [if_pos (by rw [hcollecting.length]; exact hjy), collect, hset.count]
    split
    · rename_i heq
      exact .inr ⟨heq.ge, heq ▸ hset.complete⟩
    · exact .inl ⟨by omega, hset⟩
  · refine .inr ⟨henough.trans (Finset.card_le_card (Finset.subset_insert j C)), ?_⟩
    split
    · rename_i hj
      exact hcomplete.collect hy hs hfits (hharmless hcomplete.filled_eq hj)
    · exact hcomplete

end SlotCollection
