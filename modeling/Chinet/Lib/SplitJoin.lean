import Mathlib.Data.List.Basic

/-!
# Texts of words

A text is split at its separators and joined again.  Two separators behind each other,
or one at an end, make an empty word.
-/

namespace SplitJoin

variable {α : Type}

def split (sep : α → Bool) : List α → List (List α)
  | [] => [[]]
  | c :: rest =>
      if sep c then [] :: split sep rest
      else
        match split sep rest with
        | [] => [[c]]
        | word :: words => (c :: word) :: words

def join (c : α) : List (List α) → List α
  | [] => []
  | [word] => word
  | word :: next :: words => word ++ c :: join c (next :: words)

def trim (sep : α → Bool) (text : List α) : List α :=
  ((text.dropWhile sep).reverse.dropWhile sep).reverse

variable {sep : α → Bool} {c : α}

theorem split_of_not_sep {word : List α} (h : ∀ x ∈ word, sep x = false) :
    split sep word = [word] := by
  induction word with
  | nil => rfl
  | cons x word ih =>
      have hx := h x List.mem_cons_self
      rw [split, if_neg (by simp [hx]), ih fun y hy => h y (List.mem_cons_of_mem _ hy)]

theorem split_append_cons {word : List α} (rest : List α) (h : ∀ x ∈ word, sep x = false)
    (hc : sep c = true) : split sep (word ++ c :: rest) = word :: split sep rest := by
  induction word with
  | nil => rw [List.nil_append, split, if_pos hc]
  | cons x word ih =>
      have hx := h x List.mem_cons_self
      rw [List.cons_append, split, if_neg (by simp [hx]),
        ih fun y hy => h y (List.mem_cons_of_mem _ hy)]

/-- The words of a text come back if they have no separator in them. -/
theorem split_join {words : List (List α)} (hc : sep c = true) (hne : words ≠ [])
    (h : ∀ word ∈ words, ∀ x ∈ word, sep x = false) : split sep (join c words) = words := by
  induction words with
  | nil => exact absurd rfl hne
  | cons word words ih =>
      have hword := h word List.mem_cons_self
      cases words with
      | nil => exact split_of_not_sep hword
      | cons next words =>
          rw [join, split_append_cons _ hword hc,
            ih (List.cons_ne_nil _ _) fun w hw => h w (List.mem_cons_of_mem _ hw)]

theorem join_append {words words' : List (List α)} (h : words ≠ []) (h' : words' ≠ []) :
    join c (words ++ words') = join c words ++ c :: join c words' := by
  induction words with
  | nil => exact absurd rfl h
  | cons word words ih =>
      cases words with
      | nil =>
          obtain ⟨next, rest, rfl⟩ := List.exists_cons_of_ne_nil h'
          rfl
      | cons next words =>
          have htail := ih (List.cons_ne_nil _ _)
          rw [List.cons_append] at htail
          simp only [List.cons_append, join]
          rw [htail, List.append_assoc, List.cons_append]

/-- A text that neither begins nor ends with a separator has nothing to trim. -/
theorem trim_eq_self {text : List α} (hhead : ∀ x ∈ text.head?, sep x = false)
    (hlast : ∀ x ∈ text.getLast?, sep x = false) : trim sep text = text := by
  have hdrop : ∀ l : List α, (∀ x ∈ l.head?, sep x = false) → l.dropWhile sep = l := by
    intro l hl
    cases l with
    | nil => rfl
    | cons x l => exact List.dropWhile_cons_of_neg (by simp [hl x rfl])
  rw [trim, hdrop text hhead, hdrop text.reverse (by rw [List.head?_reverse]; exact hlast),
    List.reverse_reverse]

theorem trim_join {words : List (List α)} (h : ∀ word ∈ words, word ≠ [] ∧ ∀ x ∈ word, sep x = false) :
    trim sep (join c words) = join c words := by
  refine trim_eq_self ?_ ?_
  · cases words with
    | nil => simp [join]
    | cons word words =>
        obtain ⟨hne, hword⟩ := h word List.mem_cons_self
        obtain ⟨x, rest, rfl⟩ := List.exists_cons_of_ne_nil hne
        have hx := hword x List.mem_cons_self
        cases words <;> simpa [join] using hx
  · induction words with
    | nil => simp [join]
    | cons word words ih =>
        obtain ⟨hne, hword⟩ := h word List.mem_cons_self
        cases words with
        | nil =>
            intro x hx
            exact hword x (List.mem_of_getLast? hx)
        | cons next words =>
            have hnext : join c (next :: words) ≠ [] := by
              obtain ⟨y, rest, rfl⟩ := List.exists_cons_of_ne_nil
                (h next (List.mem_cons_of_mem _ List.mem_cons_self)).1
              cases words <;> simp [join]
            have hlast : (join c (word :: next :: words)).getLast? =
                (join c (next :: words)).getLast? := by
              rw [join, List.getLast?_append_of_ne_nil _ (List.cons_ne_nil _ _),
                List.getLast?_cons_of_ne_nil hnext]
            rw [hlast]
            exact ih fun w hw => h w (List.mem_cons_of_mem _ hw)

end SplitJoin
