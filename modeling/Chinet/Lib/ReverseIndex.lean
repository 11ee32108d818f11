import Chinet.Lib.FiniteStore

/-!
# Reverse indexes of a store

An entry of a store uses some keys.  A reverse index has for each key the entries
that use it; a key set only says which keys are in use.  An index stays exact when
an entry comes with its keys and goes with them.  A key set cannot tell how often a
key is used, so it stays exact only if no entry that stays shares a key with the one
that goes.
-/

namespace Chinet

namespace ReverseIndex

open FiniteStore

variable {ι κ α : Type} [DecidableEq ι] [DecidableEq κ]

/-! ## Updates -/

/-- The entries that the index has for a key. -/
def users (index : FiniteStore κ (Finset ι)) (k : κ) : Finset ι :=
  (index.lookup k).getD ∅

def add (i : ι) (index : FiniteStore κ (Finset ι)) (k : κ) : FiniteStore κ (Finset ι) :=
  index.insert k (insert i (users index k))

def remove (i : ι) (index : FiniteStore κ (Finset ι)) (k : κ) : FiniteStore κ (Finset ι) :=
  if (users index k).erase i = ∅ then index.erase k
  else index.insert k ((users index k).erase i)

def addAll (i : ι) (ks : List κ) (index : FiniteStore κ (Finset ι)) : FiniteStore κ (Finset ι) :=
  ks.foldl (add i) index

def removeAll (i : ι) (ks : List κ) (index : FiniteStore κ (Finset ι)) : FiniteStore κ (Finset ι) :=
  ks.foldl (remove i) index

/-- No key is kept without an entry. -/
def NoPhantoms (index : FiniteStore κ (Finset ι)) : Prop :=
  ∀ k ids, index.lookup k = some ids → ids.Nonempty

theorem users_add {i : ι} {index : FiniteStore κ (Finset ι)} {k k' : κ} :
    users (add i index k) k' = if k' = k then insert i (users index k') else users index k' := by
  rw [users, add, lookup_insert_ite]
  split
  · rename_i heq
    rw [heq, Option.getD_some]
  · rfl

theorem users_remove {i : ι} {index : FiniteStore κ (Finset ι)} {k k' : κ} :
    users (remove i index k) k' = if k' = k then (users index k').erase i else users index k' := by
  rw [remove]
  by_cases hempty : (users index k).erase i = ∅
  · rw [if_pos hempty, users, lookup_erase_ite]
    by_cases heq : k' = k
    · rw [if_pos heq, if_pos heq, heq, hempty, Option.getD_none]
    · rw [if_neg heq, if_neg heq, users]
  · rw [if_neg hempty, users, lookup_insert_ite]
    by_cases heq : k' = k
    · rw [if_pos heq, if_pos heq, heq, Option.getD_some]
    · rw [if_neg heq, if_neg heq, users]

theorem mem_users_addAll {i j : ι} {ks : List κ} {index : FiniteStore κ (Finset ι)} {k : κ} :
    j ∈ users (addAll i ks index) k ↔ j ∈ users index k ∨ (j = i ∧ k ∈ ks) := by
  induction ks generalizing index with
  | nil => simp [addAll]
  | cons k' rest ih =>
      have hstep : addAll i (k' :: rest) index = addAll i rest (add i index k') := rfl
      rw [hstep, ih, users_add]
      by_cases heq : k = k'
      · rw [if_pos heq, Finset.mem_insert]
        simp only [heq, List.mem_cons, true_or, and_true]
        tauto
      · rw [if_neg heq]
        simp [heq]

theorem mem_users_removeAll {i j : ι} {ks : List κ} {index : FiniteStore κ (Finset ι)} {k : κ} :
    j ∈ users (removeAll i ks index) k ↔ j ∈ users index k ∧ ¬(j = i ∧ k ∈ ks) := by
  induction ks generalizing index with
  | nil => simp [removeAll]
  | cons k' rest ih =>
      have hstep : removeAll i (k' :: rest) index = removeAll i rest (remove i index k') := rfl
      rw [hstep, ih, users_remove]
      by_cases heq : k = k'
      · rw [if_pos heq, Finset.mem_erase]
        simp only [heq, List.mem_cons, true_or, and_true]
        tauto
      · rw [if_neg heq]
        simp [heq]

theorem NoPhantoms.add {index : FiniteStore κ (Finset ι)} (h : NoPhantoms index) (i : ι) (k : κ) :
    NoPhantoms (add i index k) := by
  intro k' ids hids
  rw [ReverseIndex.add, lookup_insert_ite] at hids
  split at hids
  · cases hids
    exact Finset.insert_nonempty _ _
  · exact h k' ids hids

theorem NoPhantoms.remove {index : FiniteStore κ (Finset ι)} (h : NoPhantoms index) (i : ι) (k : κ) :
    NoPhantoms (remove i index k) := by
  intro k' ids hids
  rw [ReverseIndex.remove] at hids
  split at hids
  · rw [lookup_erase_ite] at hids
    split at hids
    · cases hids
    · exact h k' ids hids
  · rename_i hne
    rw [lookup_insert_ite] at hids
    split at hids
    · cases hids
      exact Finset.nonempty_iff_ne_empty.mpr hne
    · exact h k' ids hids

theorem NoPhantoms.addAll {index : FiniteStore κ (Finset ι)} (h : NoPhantoms index) (i : ι)
    (ks : List κ) : NoPhantoms (addAll i ks index) := by
  induction ks generalizing index with
  | nil => exact h
  | cons k rest ih => exact ih (h.add i k)

theorem NoPhantoms.removeAll {index : FiniteStore κ (Finset ι)} (h : NoPhantoms index) (i : ι)
    (ks : List κ) : NoPhantoms (removeAll i ks index) := by
  induction ks generalizing index with
  | nil => exact h
  | cons k rest ih => exact ih (h.remove i k)

/-! ## Exact indexes -/

/-- The index has exactly the entries of the store that use a key. -/
structure Exact (keys : α → List κ) (s : FiniteStore ι α) (index : FiniteStore κ (Finset ι)) : Prop where
  mem : ∀ k i, i ∈ users index k ↔ ∃ a, s.lookup i = some a ∧ k ∈ keys a
  noPhantoms : NoPhantoms index

variable {keys : α → List κ} {s : FiniteStore ι α} {index : FiniteStore κ (Finset ι)}

theorem Exact.empty : Exact keys (∅ : FiniteStore ι α) (∅ : FiniteStore κ (Finset ι)) := by
  constructor
  · intro k i
    constructor
    · intro hi
      cases hi
    · rintro ⟨a, ha, _⟩
      cases ha
  · intro k ids hids
    cases hids

theorem Exact.insert (h : Exact keys s index) {i : ι} {a : α}
    (hsame : ∀ a', s.lookup i = some a' → ∀ k ∈ keys a', k ∈ keys a) :
    Exact keys (s.insert i a) (addAll i (keys a) index) := by
  refine ⟨fun k j => ?_, h.noPhantoms.addAll i (keys a)⟩
  rw [mem_users_addAll, h.mem, lookup_insert_ite]
  by_cases heq : j = i
  · rw [if_pos heq, heq]
    constructor
    · rintro (⟨a', ha', hk⟩ | ⟨_, hk⟩)
      · exact ⟨a, rfl, hsame a' ha' k hk⟩
      · exact ⟨a, rfl, hk⟩
    · rintro ⟨a', ha', hk⟩
      cases ha'
      exact .inr ⟨rfl, hk⟩
  · rw [if_neg heq]
    simp [heq]

theorem Exact.erase (h : Exact keys s index) {i : ι} {a : α} (ha : s.lookup i = some a) :
    Exact keys (s.erase i) (removeAll i (keys a) index) := by
  refine ⟨fun k j => ?_, h.noPhantoms.removeAll i (keys a)⟩
  rw [mem_users_removeAll, h.mem, lookup_erase_ite]
  by_cases heq : j = i
  · rw [if_pos heq, heq, ha]
    simp
  · rw [if_neg heq]
    simp [heq]

/-- Removing keys of an entry that is not in the store changes nothing. -/
theorem Exact.removeAll_of_absent (h : Exact keys s index) {i : ι} (hi : s.lookup i = none)
    (ks : List κ) : Exact keys s (removeAll i ks index) := by
  refine ⟨fun k j => ?_, h.noPhantoms.removeAll i ks⟩
  rw [mem_users_removeAll, h.mem]
  by_cases heq : j = i
  · rw [heq, hi]
    simp
  · simp [heq]

/-- An exact index for fewer keys is exact for all of them iff every entry uses only
the fewer. -/
theorem Exact.iff_keys {keys' : α → List κ} (h : Exact keys s index)
    (hsub : ∀ a, ∀ k ∈ keys a, k ∈ keys' a) :
    Exact keys' s index ↔ ∀ i a, s.lookup i = some a → ∀ k ∈ keys' a, k ∈ keys a := by
  constructor
  · intro h' i a ha k hk
    have hmem := (h'.mem k i).mpr ⟨a, ha, hk⟩
    obtain ⟨a', ha', hk'⟩ := (h.mem k i).mp hmem
    rw [ha] at ha'
    cases ha'
    exact hk'
  · intro hall
    refine ⟨fun k i => ?_, h.noPhantoms⟩
    rw [h.mem]
    constructor
    · rintro ⟨a, ha, hk⟩
      exact ⟨a, ha, hsub a k hk⟩
    · rintro ⟨a, ha, hk⟩
      exact ⟨a, ha, hall i a ha k hk⟩

/-! ## Key sets -/

/-- The set has exactly the keys that the entries of the store use. -/
def Covers (keys : α → List κ) (s : FiniteStore ι α) (used : Finset κ) : Prop :=
  ∀ k, k ∈ used ↔ ∃ i a, s.lookup i = some a ∧ k ∈ keys a

omit [DecidableEq κ] in
theorem Covers.empty : Covers keys (∅ : FiniteStore ι α) (∅ : Finset κ) := by
  intro k
  constructor
  · intro hk
    cases hk
  · rintro ⟨i, a, ha, _⟩
    cases ha

omit [DecidableEq κ] in
/-- A set of no keys fits the empty store as well. -/
theorem Covers.empty_of_none {used : Finset κ} (h : Covers keys s used)
    (hnone : ∀ i a, s.lookup i = some a → keys a = []) :
    Covers keys (∅ : FiniteStore ι α) used := by
  intro k
  rw [h]
  constructor
  · rintro ⟨i, a, ha, hk⟩
    rw [hnone i a ha] at hk
    cases hk
  · rintro ⟨_, _, ha, _⟩
    cases ha

theorem Covers.insert {used : Finset κ} (h : Covers keys s used) {i : ι} {a : α}
    (hsame : ∀ a', s.lookup i = some a' → ∀ k ∈ keys a', k ∈ keys a) :
    Covers keys (s.insert i a) (used ∪ (keys a).toFinset) := by
  intro k
  rw [Finset.mem_union, List.mem_toFinset, h]
  constructor
  · rintro (⟨j, a', ha', hk⟩ | hk)
    · by_cases heq : j = i
      · rw [heq] at ha'
        exact ⟨i, a, by rw [lookup_insert_ite, if_pos rfl], hsame a' ha' k hk⟩
      · exact ⟨j, a', by rw [lookup_insert_ite, if_neg heq, ha'], hk⟩
    · exact ⟨i, a, by rw [lookup_insert_ite, if_pos rfl], hk⟩
  · rintro ⟨j, a', ha', hk⟩
    rw [lookup_insert_ite] at ha'
    split at ha'
    · cases ha'
      exact .inr hk
    · exact .inl ⟨j, a', ha', hk⟩

/-- When entries go with their keys, the set stays exact iff no entry that stays uses
one of these keys. -/
theorem Covers.restrict_iff {s' : FiniteStore ι α} {used gone : Finset κ} (h : Covers keys s used)
    (hsub : ∀ i a, s'.lookup i = some a → s.lookup i = some a)
    (hgone : ∀ k, k ∈ gone ↔ ∃ i a, s.lookup i = some a ∧ s'.lookup i = none ∧ k ∈ keys a) :
    Covers keys s' (used \ gone) ↔ ∀ i a, s'.lookup i = some a → ∀ k ∈ keys a, k ∉ gone := by
  constructor
  · intro h' i a ha k hk
    have hmem := (h' k).mpr ⟨i, a, ha, hk⟩
    exact (Finset.mem_sdiff.mp hmem).2
  · intro hall k
    rw [Finset.mem_sdiff, h]
    constructor
    · rintro ⟨⟨i, a, ha, hk⟩, hnot⟩
      cases hs' : s'.lookup i with
      | none => exact absurd ((hgone k).mpr ⟨i, a, ha, hs', hk⟩) hnot
      | some a' =>
          have heq := hsub i a' hs'
          rw [ha] at heq
          cases heq
          exact ⟨i, a, hs', hk⟩
    · rintro ⟨i, a, ha, hk⟩
      exact ⟨⟨i, a, hsub i a ha, hk⟩, hall i a ha k hk⟩

end ReverseIndex

end Chinet
