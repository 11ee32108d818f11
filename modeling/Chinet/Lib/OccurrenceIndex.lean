import Chinet.Lib.FiniteStore

/-!
# Indexes that count

An entry of a store uses some keys, possibly more than once.  An index of occurrences lists for each
key the entries that use it, once for each use; a counter only has the number of the entries.  Both
stay exact when an entry comes with its keys and goes with them.
-/

namespace OccurrenceIndex

open FiniteStore

variable {ι κ α : Type} [DecidableEq ι] [DecidableEq κ]

/-! ## Lists of occurrences -/

/-- The entries that the index lists for a key. -/
def entries (index : FiniteStore κ (List ι)) (k : κ) : List ι :=
  (index.lookup k).getD []

def append (i : ι) (index : FiniteStore κ (List ι)) (k : κ) : FiniteStore κ (List ι) :=
  index.insert k (entries index k ++ [i])

/-- One occurrence of an entry is taken out; a key without entries goes. -/
def remove (i : ι) (index : FiniteStore κ (List ι)) (k : κ) : FiniteStore κ (List ι) :=
  match index.lookup k with
  | none => index
  | some ids =>
      if !ids.contains i then index
      else if (ids.erase i).isEmpty then index.erase k
      else index.insert k (ids.erase i)

omit [DecidableEq ι] in
theorem entries_append {i : ι} {index : FiniteStore κ (List ι)} {k k' : κ} :
    entries (append i index k) k' =
      if k' = k then entries index k' ++ [i] else entries index k' := by
  rw [entries, append, lookup_insert_ite]
  split
  · rename_i heq
    rw [heq, Option.getD_some]
  · rfl

theorem entries_remove {i : ι} {index : FiniteStore κ (List ι)} {k k' : κ} :
    entries (remove i index k) k' =
      if k' = k then (entries index k').erase i else entries index k' := by
  unfold remove
  cases hids : index.lookup k with
  | none =>
      have hentries : entries index k = [] := by rw [entries, hids, Option.getD_none]
      dsimp only
      by_cases heq : k' = k
      · rw [if_pos heq, heq, hentries, List.erase_nil]
      · rw [if_neg heq]
  | some ids =>
      have hentries : entries index k = ids := by rw [entries, hids, Option.getD_some]
      dsimp only
      by_cases hi : i ∈ ids
      · rw [if_neg (by simpa using hi)]
        by_cases hempty : (ids.erase i).isEmpty = true
        · rw [if_pos hempty, entries, lookup_erase_ite]
          by_cases heq : k' = k
          · rw [if_pos heq, if_pos heq, heq, hentries, List.isEmpty_iff.mp hempty]
            rfl
          · rw [if_neg heq, if_neg heq, entries]
        · rw [if_neg hempty, entries, lookup_insert_ite]
          by_cases heq : k' = k
          · rw [if_pos heq, if_pos heq, heq, hentries, Option.getD_some]
          · rw [if_neg heq, if_neg heq, entries]
      · rw [if_pos (by simpa using hi)]
        by_cases heq : k' = k
        · rw [if_pos heq, heq, hentries, List.erase_of_not_mem hi]
        · rw [if_neg heq]

theorem count_appendAll {i j : ι} {ks : List κ} {index : FiniteStore κ (List ι)} {k : κ} :
    (entries (ks.foldl (append i) index) k).count j =
      (entries index k).count j + if j = i then ks.count k else 0 := by
  induction ks generalizing index with
  | nil =>
      rw [List.foldl_nil, List.count_nil]
      split <;> rfl
  | cons k' rest ih =>
      rw [List.foldl_cons, ih, entries_append]
      by_cases heq : k = k'
      · rw [if_pos heq, List.count_append, heq, List.count_cons_self]
        by_cases hj : j = i
        · rw [if_pos hj, if_pos hj, hj, List.count_singleton_self]
          omega
        · rw [if_neg hj, if_neg hj, List.count_singleton, if_neg (by simpa using Ne.symm hj)]
      · rw [if_neg heq, List.count_cons_of_ne (Ne.symm heq)]

theorem count_removeAll {i j : ι} {ks : List κ} {index : FiniteStore κ (List ι)} {k : κ} :
    (entries (ks.foldl (remove i) index) k).count j =
      (entries index k).count j - if j = i then ks.count k else 0 := by
  induction ks generalizing index with
  | nil =>
      rw [List.foldl_nil, List.count_nil]
      split <;> rfl
  | cons k' rest ih =>
      rw [List.foldl_cons, ih, entries_remove]
      by_cases heq : k = k'
      · rw [if_pos heq, List.count_erase, heq, List.count_cons_self]
        by_cases hj : j = i
        · rw [if_pos hj, if_pos hj, hj, if_pos (beq_self_eq_true i)]
          omega
        · rw [if_neg hj, if_neg hj, if_neg (by simpa using Ne.symm hj), Nat.sub_zero]
      · rw [if_neg heq, List.count_cons_of_ne (Ne.symm heq)]

/-- No key is kept without an entry. -/
def NoPhantoms (index : FiniteStore κ (List ι)) : Prop := ∀ k, index.lookup k ≠ some []

omit [DecidableEq ι] in
theorem NoPhantoms.appendAll {index : FiniteStore κ (List ι)} (h : NoPhantoms index) (i : ι)
    (ks : List κ) : NoPhantoms (ks.foldl (append i) index) := by
  induction ks generalizing index with
  | nil => exact h
  | cons k rest ih =>
      refine ih fun k' hids => ?_
      rw [append, lookup_insert_ite] at hids
      split at hids
      · exact List.append_ne_nil_of_right_ne_nil _ (List.cons_ne_nil i []) (Option.some.inj hids)
      · exact h k' hids

theorem NoPhantoms.removeAll {index : FiniteStore κ (List ι)} (h : NoPhantoms index) (i : ι)
    (ks : List κ) : NoPhantoms (ks.foldl (remove i) index) := by
  induction ks generalizing index with
  | nil => exact h
  | cons k rest ih =>
      refine ih fun k' hids => ?_
      unfold remove at hids
      split at hids
      · exact h k' hids
      · split at hids
        · exact h k' hids
        · split at hids
          · rw [lookup_erase_ite] at hids
            split at hids
            · cases hids
            · exact h k' hids
          · rename_i hne
            rw [lookup_insert_ite] at hids
            split at hids
            · rw [Option.some.inj hids] at hne
              exact hne rfl
            · exact h k' hids

/-- The index lists exactly the uses of each key. -/
structure Exact (keys : α → List κ) (s : FiniteStore ι α) (index : FiniteStore κ (List ι)) : Prop where
  count : ∀ k i, (entries index k).count i =
    ((s.lookup i).map fun a => (keys a).count k).getD 0
  noPhantoms : NoPhantoms index

variable {keys : α → List κ} {s : FiniteStore ι α} {index : FiniteStore κ (List ι)}

theorem Exact.empty : Exact keys (∅ : FiniteStore ι α) (∅ : FiniteStore κ (List ι)) :=
  ⟨fun _ _ => rfl, fun _ hids => by cases hids⟩

theorem Exact.insert (h : Exact keys s index) {i : ι} (hi : s.lookup i = none) (a : α) :
    Exact keys (s.insert i a) ((keys a).foldl (append i) index) := by
  refine ⟨fun k j => ?_, h.noPhantoms.appendAll i (keys a)⟩
  rw [count_appendAll, h.count, lookup_insert_ite]
  by_cases heq : j = i
  · rw [if_pos heq, if_pos heq, heq, hi]
    exact Nat.zero_add _
  · rw [if_neg heq, if_neg heq, Nat.add_zero]

/-- An entry is erased with a list of keys: the index stays exact when they are at least its own. -/
theorem Exact.erase_iff (h : Exact keys s index) {i : ι} {a : α} (ha : s.lookup i = some a)
    (ks : List κ) :
    Exact keys (s.erase i) (ks.foldl (remove i) index) ↔ ∀ k, (keys a).count k ≤ ks.count k := by
  constructor
  · intro hexact k
    have hcount := hexact.count k i
    rw [count_removeAll, h.count, lookup_erase_ite, if_pos rfl, if_pos rfl, ha] at hcount
    exact Nat.sub_eq_zero_iff_le.mp hcount
  · intro hks
    refine ⟨fun k j => ?_, h.noPhantoms.removeAll i ks⟩
    rw [count_removeAll, h.count, lookup_erase_ite]
    by_cases heq : j = i
    · rw [if_pos heq, if_pos heq, heq, ha]
      exact Nat.sub_eq_zero_iff_le.mpr (hks k)
    · rw [if_neg heq, if_neg heq, Nat.sub_zero]

/-! ## Counters -/

/-- The entries of the store that use a key. -/
def users (keys : α → List κ) (s : FiniteStore ι α) (k : κ) : Finset ι :=
  s.keys.filter fun i => (s.lookup i).any fun a => (keys a).contains k

theorem mem_users {k : κ} {i : ι} :
    i ∈ users keys s k ↔ ∃ a, s.lookup i = some a ∧ k ∈ keys a := by
  rw [users, Finset.mem_filter, Finmap.mem_keys, mem_iff_lookup_ne_none, Option.any_eq_true]
  constructor
  · rintro ⟨_, a, ha, hk⟩
    exact ⟨a, ha, by simpa using hk⟩
  · rintro ⟨a, ha, hk⟩
    exact ⟨by rw [ha]; exact Option.some_ne_none a, a, ha, by simpa using hk⟩

def increment (counts : FiniteStore κ Nat) (k : κ) : FiniteStore κ Nat :=
  counts.insert k ((counts.lookup k).getD 0 + 1)

/-- A counter that reaches zero goes. -/
def decrement (counts : FiniteStore κ Nat) (k : κ) : FiniteStore κ Nat :=
  match counts.lookup k with
  | none => counts
  | some n => if n - 1 = 0 then counts.erase k else counts.insert k (n - 1)

theorem lookup_incrementAll {ks : List κ} {counts : FiniteStore κ Nat} {k : κ} :
    ((ks.foldl increment counts).lookup k).getD 0 = (counts.lookup k).getD 0 + ks.count k := by
  induction ks generalizing counts with
  | nil => rfl
  | cons k' rest ih =>
      rw [List.foldl_cons, ih, increment, lookup_insert_ite]
      by_cases heq : k = k'
      · rw [if_pos heq, heq, List.count_cons_self, Option.getD_some]
        omega
      · rw [if_neg heq, List.count_cons_of_ne (Ne.symm heq)]

theorem lookup_decrementAll {ks : List κ} {counts : FiniteStore κ Nat} {k : κ} :
    ((ks.foldl decrement counts).lookup k).getD 0 = (counts.lookup k).getD 0 - ks.count k := by
  induction ks generalizing counts with
  | nil => rfl
  | cons k' rest ih =>
      have hstep : ((decrement counts k').lookup k).getD 0 =
          (counts.lookup k).getD 0 - if k = k' then 1 else 0 := by
        unfold decrement
        cases hn : counts.lookup k' with
        | none =>
            by_cases heq : k = k'
            · rw [heq, hn, if_pos rfl]
              rfl
            · rw [if_neg heq, Nat.sub_zero]
        | some n =>
            dsimp only
            by_cases heq : k = k'
            · rw [if_pos heq, heq, hn]
              split
              · rename_i hzero
                rw [lookup_erase_ite, if_pos rfl]
                exact hzero.symm
              · rw [lookup_insert_ite, if_pos rfl]
                rfl
            · rw [if_neg heq, Nat.sub_zero]
              split
              · rw [lookup_erase_ite, if_neg heq]
              · rw [lookup_insert_ite, if_neg heq]
      rw [List.foldl_cons, ih, hstep]
      by_cases heq : k = k'
      · rw [if_pos heq, heq, List.count_cons_self]
        omega
      · rw [if_neg heq, List.count_cons_of_ne (Ne.symm heq), Nat.sub_zero]

/-- No key is kept with a count of zero. -/
def NoZeros (counts : FiniteStore κ Nat) : Prop := ∀ k, counts.lookup k ≠ some 0

theorem NoZeros.incrementAll {counts : FiniteStore κ Nat} (h : NoZeros counts) (ks : List κ) :
    NoZeros (ks.foldl increment counts) := by
  induction ks generalizing counts with
  | nil => exact h
  | cons k rest ih =>
      refine ih fun k' hzero => ?_
      rw [increment, lookup_insert_ite] at hzero
      split at hzero
      · exact Nat.succ_ne_zero _ (Option.some.inj hzero)
      · exact h k' hzero

theorem NoZeros.decrementAll {counts : FiniteStore κ Nat} (h : NoZeros counts) (ks : List κ) :
    NoZeros (ks.foldl decrement counts) := by
  induction ks generalizing counts with
  | nil => exact h
  | cons k rest ih =>
      refine ih fun k' hzero => ?_
      unfold decrement at hzero
      split at hzero
      · exact h k' hzero
      · split at hzero
        · rw [lookup_erase_ite] at hzero
          split at hzero
          · cases hzero
          · exact h k' hzero
        · rename_i hne
          rw [lookup_insert_ite] at hzero
          split at hzero
          · exact hne (Option.some.inj hzero)
          · exact h k' hzero

/-- The counter has for each key the number of the entries that use it. -/
structure Counted (keys : α → List κ) (s : FiniteStore ι α) (counts : FiniteStore κ Nat) : Prop where
  count : ∀ k, (counts.lookup k).getD 0 = (users keys s k).card
  noZeros : NoZeros counts

variable {counts : FiniteStore κ Nat}

theorem Counted.empty : Counted keys (∅ : FiniteStore ι α) (∅ : FiniteStore κ Nat) :=
  ⟨fun _ => rfl, fun _ hzero => by cases hzero⟩

theorem users_insert {i : ι} {a : α} (hi : s.lookup i = none) (k : κ) :
    users keys (s.insert i a) k =
      if k ∈ keys a then insert i (users keys s k) else users keys s k := by
  ext j
  rw [mem_users, lookup_insert_ite]
  by_cases hk : k ∈ keys a
  · rw [if_pos hk, Finset.mem_insert, mem_users]
    by_cases heq : j = i
    · rw [if_pos heq]
      exact iff_of_true ⟨a, rfl, hk⟩ (.inl heq)
    · rw [if_neg heq]
      simp [heq]
  · rw [if_neg hk, mem_users]
    by_cases heq : j = i
    · rw [if_pos heq, heq, hi]
      refine iff_of_false ?_ ?_
      · rintro ⟨a', ha', hk'⟩
        cases ha'
        exact hk hk'
      · rintro ⟨a', ha', _⟩
        cases ha'
    · rw [if_neg heq]

theorem users_erase (i : ι) (k : κ) : users keys (s.erase i) k = (users keys s k).erase i := by
  ext j
  rw [Finset.mem_erase, mem_users, mem_users, lookup_erase_ite]
  by_cases heq : j = i
  · rw [if_pos heq]
    simp [heq]
  · rw [if_neg heq]
    simp [heq]

theorem Counted.insert (h : Counted keys s counts) {i : ι} (hi : s.lookup i = none) {a : α}
    (ha : (keys a).Nodup) : Counted keys (s.insert i a) ((keys a).foldl increment counts) := by
  refine ⟨fun k => ?_, h.noZeros.incrementAll (keys a)⟩
  rw [lookup_incrementAll, h.count, users_insert hi]
  by_cases hk : k ∈ keys a
  · have hfresh : i ∉ users keys s k := by
      rw [mem_users, hi]
      rintro ⟨a', ha', _⟩
      cases ha'
    rw [if_pos hk, List.count_eq_one_of_mem ha hk, Finset.card_insert_of_notMem hfresh]
  · rw [if_neg hk, List.count_eq_zero_of_not_mem hk, Nat.add_zero]

/-- An entry is erased with its keys. -/
theorem Counted.erase (h : Counted keys s counts) {i : ι} {a : α} (hi : s.lookup i = some a)
    (ha : (keys a).Nodup) : Counted keys (s.erase i) ((keys a).foldl decrement counts) := by
  refine ⟨fun k => ?_, h.noZeros.decrementAll (keys a)⟩
  rw [lookup_decrementAll, h.count, users_erase]
  by_cases hk : k ∈ keys a
  · rw [List.count_eq_one_of_mem ha hk, Finset.card_erase_of_mem (mem_users.mpr ⟨a, hi, hk⟩)]
  · have hunused : i ∉ users keys s k := by
      rw [mem_users, hi]
      rintro ⟨a', ha', hk'⟩
      cases ha'
      exact hk hk'
    rw [List.count_eq_zero_of_not_mem hk, Finset.erase_eq_of_notMem hunused, Nat.sub_zero]

end OccurrenceIndex
