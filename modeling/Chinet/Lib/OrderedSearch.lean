import Mathlib.Data.List.Basic
import Mathlib.Tactic.Common

/-!
# Searches that end at the first hit

A test can succeed, fail, or break off.  A search tries the elements of a list in their order and ends
with the first success; a nested one goes through all times for an element before the next element.
What a search finds is described without it: the first element that passes, all before it having
failed (`IsFirst`, `IsFirstOf`).
-/

namespace OrderedSearch

variable {ε α τ : Type*}

def search (test : τ → Except ε Bool) : List τ → Except ε (Option τ)
  | [] => .ok none
  | t :: rest =>
      match test t with
      | .error e => .error e
      | .ok true => .ok (some t)
      | .ok false => search test rest

/-- The times are searched for each element in turn, which are numbered from `i` on. -/
def searchAll (test : α → τ → Except ε Bool) (times : List τ) :
    Nat → List α → Except ε (Option (Nat × τ))
  | _, [] => .ok none
  | i, a :: rest =>
      match search (test a) times with
      | .error e => .error e
      | .ok (some t) => .ok (some (i, t))
      | .ok none => searchAll test times (i + 1) rest

def IsFirst (test : τ → Except ε Bool) (times : List τ) (t : τ) : Prop :=
  ∃ before after, times = before ++ t :: after ∧ (∀ t' ∈ before, test t' = .ok false) ∧
    test t = .ok true

def IsFirstOf (test : α → τ → Except ε Bool) (times : List τ) (l : List α) (i : Nat) (a : α)
    (t : τ) : Prop :=
  ∃ before after, l = before ++ a :: after ∧ before.length = i ∧
    (∀ a' ∈ before, ∀ t' ∈ times, test a' t' = .ok false) ∧ IsFirst (test a) times t

theorem IsFirst.mem {test : τ → Except ε Bool} {times : List τ} {t : τ} (h : IsFirst test times t) :
    t ∈ times := by
  obtain ⟨before, after, rfl, -, -⟩ := h
  exact List.mem_append_right _ List.mem_cons_self

theorem IsFirst.passes {test : τ → Except ε Bool} {times : List τ} {t : τ}
    (h : IsFirst test times t) : test t = .ok true := by
  obtain ⟨-, -, -, -, hpasses⟩ := h
  exact hpasses

theorem IsFirstOf.entry {test : α → τ → Except ε Bool} {times : List τ} {l : List α} {i : Nat} {a : α}
    {t : τ} (h : IsFirstOf test times l i a t) : l[i]? = some a := by
  obtain ⟨before, after, rfl, rfl, -⟩ := h
  rw [List.getElem?_append_right (Nat.le_refl _), Nat.sub_self]
  rfl

theorem IsFirstOf.isFirst {test : α → τ → Except ε Bool} {times : List τ} {l : List α} {i : Nat}
    {a : α} {t : τ} (h : IsFirstOf test times l i a t) : IsFirst (test a) times t := by
  obtain ⟨before, after, -, -, -, hfirst⟩ := h
  exact hfirst

/-! ## One list -/

section

variable {test : τ → Except ε Bool}

theorem isFirst_cons_of_passes {t t' : τ} {rest : List τ} (h : test t = .ok true) :
    IsFirst test (t :: rest) t' ↔ t = t' := by
  constructor
  · rintro ⟨before, after, heq, hfailed, -⟩
    cases before with
    | nil => exact (List.cons.inj heq).1
    | cons first before =>
        obtain ⟨rfl, -⟩ := List.cons.inj heq
        have hfirst := hfailed t List.mem_cons_self
        rw [h] at hfirst
        cases hfirst
  · rintro rfl
    exact ⟨[], rest, rfl, List.forall_mem_nil _, h⟩

theorem isFirst_cons_of_fails {t t' : τ} {rest : List τ} (h : test t = .ok false) :
    IsFirst test (t :: rest) t' ↔ IsFirst test rest t' := by
  constructor
  · rintro ⟨before, after, heq, hfailed, hpasses⟩
    cases before with
    | nil =>
        obtain ⟨rfl, -⟩ := List.cons.inj heq
        rw [h] at hpasses
        cases hpasses
    | cons first before =>
        obtain ⟨rfl, rfl⟩ := List.cons.inj heq
        exact ⟨before, after, rfl, (List.forall_mem_cons.mp hfailed).2, hpasses⟩
  · rintro ⟨before, after, rfl, hfailed, hpasses⟩
    exact ⟨t :: before, after, rfl, List.forall_mem_cons.mpr ⟨h, hfailed⟩, hpasses⟩

theorem not_isFirst_cons_of_error {t t' : τ} {rest : List τ} {e : ε} (h : test t = .error e) :
    ¬ IsFirst test (t :: rest) t' := by
  rintro ⟨before, after, heq, hfailed, hpasses⟩
  cases before with
  | nil =>
      obtain ⟨rfl, -⟩ := List.cons.inj heq
      rw [h] at hpasses
      cases hpasses
  | cons first before =>
      obtain ⟨rfl, -⟩ := List.cons.inj heq
      have hfirst := hfailed t List.mem_cons_self
      rw [h] at hfirst
      cases hfirst

theorem search_eq_some_iff {times : List τ} {t : τ} :
    search test times = .ok (some t) ↔ IsFirst test times t := by
  induction times with
  | nil =>
      constructor
      · intro h
        cases h
      · intro h
        cases h.mem
  | cons first rest ih =>
      rw [search]
      split
      · rename_i e herror
        exact iff_of_false (fun h => by cases h) (not_isFirst_cons_of_error herror)
      · rename_i hpasses
        rw [isFirst_cons_of_passes hpasses, Except.ok.injEq, Option.some_inj]
      · rename_i hfails
        rw [isFirst_cons_of_fails hfails, ih]

theorem search_eq_none_iff {times : List τ} :
    search test times = .ok none ↔ ∀ t ∈ times, test t = .ok false := by
  induction times with
  | nil => exact iff_of_true rfl (List.forall_mem_nil _)
  | cons first rest ih =>
      rw [search, List.forall_mem_cons]
      split
      · rename_i e herror
        simp [herror]
      · rename_i hpasses
        simp [hpasses]
      · rename_i hfails
        simp [hfails, ih]

theorem exists_of_search_eq_error {times : List τ} {e : ε} (h : search test times = .error e) :
    ∃ t ∈ times, test t = .error e := by
  induction times with
  | nil => cases h
  | cons first rest ih =>
      rw [search] at h
      split at h
      · rename_i herror
        cases h
        exact ⟨first, List.mem_cons_self, herror⟩
      · cases h
      · obtain ⟨t, ht, herror⟩ := ih h
        exact ⟨t, List.mem_cons_of_mem first ht, herror⟩

end

/-! ## All elements -/

theorem searchAll_eq_some_iff {test : α → τ → Except ε Bool} {times : List τ} {i j : Nat}
    {l : List α} {t : τ} :
    searchAll test times i l = .ok (some (j, t)) ↔
      ∃ k a, j = i + k ∧ IsFirstOf test times l k a t := by
  induction l generalizing i with
  | nil =>
      constructor
      · intro h
        cases h
      · rintro ⟨k, a, -, before, after, heq, -⟩
        exact absurd heq (List.append_ne_nil_of_right_ne_nil _ (List.cons_ne_nil _ _)).symm
  | cons first rest ih =>
      -- the first element succeeds, or the search goes on without it
      have hsplit : (∃ k a, j = i + k ∧ IsFirstOf test times (first :: rest) k a t) ↔
          (j = i ∧ IsFirst (test first) times t) ∨
            ((∀ t' ∈ times, test first t' = .ok false) ∧
              ∃ k a, j = i + 1 + k ∧ IsFirstOf test times rest k a t) := by
        constructor
        · rintro ⟨k, a, rfl, before, after, heq, rfl, hfailed, hfirst⟩
          cases before with
          | nil =>
              obtain ⟨rfl, -⟩ := List.cons.inj heq
              exact .inl ⟨rfl, hfirst⟩
          | cons a' before =>
              obtain ⟨rfl, rfl⟩ := List.cons.inj heq
              obtain ⟨hhead, htail⟩ := List.forall_mem_cons.mp hfailed
              refine .inr ⟨hhead, before.length, a, ?_, before, after, rfl, rfl, htail, hfirst⟩
              rw [List.length_cons]
              omega
        · rintro (⟨rfl, hfirst⟩ | ⟨hhead, k, a, rfl, before, after, rfl, rfl, htail, hfirst⟩)
          · exact ⟨0, first, rfl, [], rest, rfl, rfl, List.forall_mem_nil _, hfirst⟩
          · refine ⟨before.length + 1, a, by omega, first :: before, after, rfl, rfl, ?_, hfirst⟩
            exact List.forall_mem_cons.mpr ⟨hhead, htail⟩
      rw [hsplit, searchAll, ← search_eq_some_iff, ← search_eq_none_iff, ← ih]
      cases hsearch : search (test first) times with
      | error e => simp
      | ok found =>
          cases found with
          | none => simp
          | some t' => simp [eq_comm]

theorem searchAll_zero_eq_some_iff {test : α → τ → Except ε Bool} {times : List τ} {i : Nat}
    {l : List α} {t : τ} :
    searchAll test times 0 l = .ok (some (i, t)) ↔ ∃ a, IsFirstOf test times l i a t := by
  simp only [searchAll_eq_some_iff, Nat.zero_add, exists_and_left, exists_eq_left']

theorem searchAll_eq_none_iff {test : α → τ → Except ε Bool} {times : List τ} {i : Nat}
    {l : List α} :
    searchAll test times i l = .ok none ↔ ∀ a ∈ l, ∀ t ∈ times, test a t = .ok false := by
  induction l generalizing i with
  | nil => exact iff_of_true rfl (List.forall_mem_nil _)
  | cons first rest ih =>
      rw [searchAll, List.forall_mem_cons, ← search_eq_none_iff]
      cases search (test first) times with
      | error e => simp
      | ok found =>
          cases found with
          | none => simp [ih]
          | some t => simp

/-- A search breaks off at an element when all before it failed. -/
theorem exists_of_searchAll_eq_error {test : α → τ → Except ε Bool} {times : List τ} {i : Nat}
    {l : List α} {e : ε} (h : searchAll test times i l = .error e) :
    ∃ before a after, l = before ++ a :: after ∧
      (∀ a' ∈ before, ∀ t ∈ times, test a' t = .ok false) ∧ ∃ t ∈ times, test a t = .error e := by
  induction l generalizing i with
  | nil => cases h
  | cons first rest ih =>
      rw [searchAll] at h
      split at h
      · rename_i herror
        cases h
        exact ⟨[], first, rest, rfl, List.forall_mem_nil _, exists_of_search_eq_error herror⟩
      · cases h
      · rename_i hnone
        obtain ⟨before, a, after, rfl, hfailed, herror⟩ := ih h
        refine ⟨first :: before, a, after, rfl, ?_, herror⟩
        exact List.forall_mem_cons.mpr ⟨search_eq_none_iff.mp hnone, hfailed⟩

end OrderedSearch
