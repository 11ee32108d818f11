import Mathlib.Data.List.Basic

/-!
# Selections from a list

A list from which some elements are left out, and the others are turned into something each, in
their order.
-/

namespace Selection

variable {α β : Type} {p : α → Bool} {f : α → Option β} {g : α → β} {l : List α}

theorem filterMap_eq_map_filter (hkept : ∀ a ∈ l, p a = true → f a = some (g a))
    (hleft : ∀ a ∈ l, p a = false → f a = none) : l.filterMap f = (l.filter p).map g := by
  induction l with
  | nil => rfl
  | cons a l ih =>
      have hrest := ih (fun b hb => hkept b (List.mem_cons_of_mem a hb))
        fun b hb => hleft b (List.mem_cons_of_mem a hb)
      cases ha : p a with
      | false => simp [ha, hleft a List.mem_cons_self ha, hrest]
      | true => simp [ha, hkept a List.mem_cons_self ha, hrest]

theorem length_filterMap_le_filter (hleft : ∀ a ∈ l, p a = false → f a = none) :
    (l.filterMap f).length ≤ (l.filter p).length := by
  induction l with
  | nil => exact Nat.le_refl 0
  | cons a l ih =>
      have hrest := ih fun b hb => hleft b (List.mem_cons_of_mem a hb)
      cases ha : p a with
      | false => simpa [ha, hleft a List.mem_cons_self ha] using hrest
      | true =>
          rw [List.filter_cons_of_pos ha, List.length_cons]
          cases hfa : f a with
          | none =>
              rw [List.filterMap_cons_none hfa]
              omega
          | some b =>
              rw [List.filterMap_cons_some hfa, List.length_cons]
              omega

/-- With nothing of the elements that are left out, the others are all there in their order only
if each of them is there. -/
theorem map_filter_sublist_iff (hleft : ∀ a ∈ l, p a = false → f a = none) :
    ((l.filter p).map g).Sublist (l.filterMap f) ↔ ∀ a ∈ l, p a = true → f a = some (g a) := by
  constructor
  · intro hsublist
    have hle : (l.filterMap f).length ≤ ((l.filter p).map g).length := by
      rw [List.length_map]
      exact length_filterMap_le_filter hleft
    have heq := hsublist.eq_of_length_le hle
    clear hsublist hle
    induction l with
    | nil => simp
    | cons a l ih =>
        have hleft' := fun b hb => hleft b (List.mem_cons_of_mem a hb)
        have hlength := length_filterMap_le_filter hleft'
        cases ha : p a with
        | false =>
            rw [List.filter_cons_of_neg (by simp [ha]),
              List.filterMap_cons_none (hleft a List.mem_cons_self ha)] at heq
            intro b hb hpb
            rcases List.mem_cons.mp hb with rfl | hb
            · rw [ha] at hpb
              cases hpb
            · exact ih hleft' heq b hb hpb
        | true =>
            rw [List.filter_cons_of_pos ha, List.map_cons] at heq
            cases hfa : f a with
            | none =>
                -- one element too few
                rw [List.filterMap_cons_none hfa] at heq
                rw [← heq, List.length_cons, List.length_map] at hlength
                omega
            | some b =>
                rw [List.filterMap_cons_some hfa, List.cons.injEq] at heq
                intro c hc hpc
                rcases List.mem_cons.mp hc with rfl | hc
                · rw [hfa, heq.1]
                · exact ih hleft' heq.2 c hc hpc
  · intro hkept
    rw [filterMap_eq_map_filter hkept hleft]

theorem filter_filterMap_of_eq {q : β → Bool} (h : ∀ a ∈ l, ∀ b, f a = some b → q b = p a) :
    (l.filterMap f).filter q = (l.filter p).filterMap f := by
  induction l with
  | nil => rfl
  | cons a l ih =>
      have hrest := ih fun b hb => h b (List.mem_cons_of_mem a hb)
      cases hfa : f a with
      | none => cases ha : p a <;> simp [hfa, ha, hrest]
      | some b =>
          have hb := h a List.mem_cons_self b hfa
          cases ha : p a <;> simp [hfa, ha, hb, hrest]

end Selection
