import Mathlib.Data.Finmap

/-!
# Finite stores

A key-value container is a `Finmap` with one value type.  Two stores are equal
when they answer every lookup alike; `insert` and `erase` are described by what
they answer afterwards, and undo each other on a fresh or a present key.
-/

abbrev FiniteStore (κ ν : Type) := Finmap (fun _ : κ => ν)

namespace FiniteStore

variable {κ ν : Type} [DecidableEq κ]

def size (s : FiniteStore κ ν) : Nat := s.keys.card

theorem lookup_insert_ite (s : FiniteStore κ ν) (k k' : κ) (v : ν) :
    (s.insert k v).lookup k' = if k' = k then some v else s.lookup k' := by
  by_cases h : k' = k
  · subst h
    rw [if_pos rfl, Finmap.lookup_insert]
  · rw [if_neg h, Finmap.lookup_insert_of_ne s h]

theorem lookup_erase_ite (s : FiniteStore κ ν) (k k' : κ) :
    (s.erase k).lookup k' = if k' = k then none else s.lookup k' := by
  by_cases h : k' = k
  · subst h
    rw [if_pos rfl, Finmap.lookup_erase]
  · rw [if_neg h, Finmap.lookup_erase_ne h]

/-- What a smaller store holds was there before. -/
theorem lookup_of_erase {s : FiniteStore κ ν} {k k' : κ} {v : ν}
    (h : (s.erase k).lookup k' = some v) : s.lookup k' = some v := by
  rw [lookup_erase_ite] at h
  split at h
  · cases h
  · exact h

theorem mem_iff_lookup_ne_none {s : FiniteStore κ ν} {k : κ} : k ∈ s ↔ s.lookup k ≠ none := by
  rw [Ne, Finmap.lookup_eq_none, not_not]

/-- Erasing a key that was fresh before its insertion undoes the insertion. -/
theorem size_of_lookup {s : FiniteStore Nat ν} {n : Nat} (h : ∀ k, s.lookup k ≠ none ↔ k < n) :
    s.size = n := by
  have hkeys : s.keys = Finset.range n := by
    ext k
    rw [Finmap.mem_keys, mem_iff_lookup_ne_none, h, Finset.mem_range]
  rw [size, hkeys, Finset.card_range]

omit [DecidableEq κ] in
theorem all_of_forall (s : FiniteStore κ ν) {f : κ → ν → Bool} (h : ∀ k v, f k v = true) :
    s.all f = true := by
  induction s using Finmap.induction_on with
  | _ a =>
      show a.foldl (fun x y z => x && f y z) true = true
      simp [AList.foldl, h]

theorem any_of_lookup {s : FiniteStore κ ν} {f : κ → ν → Bool} {k : κ} {v : ν}
    (h : s.lookup k = some v) (hf : f k v = true) : s.any f = true := by
  induction s using Finmap.induction_on with
  | _ a =>
      have hfold : ∀ (l : List (Sigma fun _ => ν)) (found : Bool), found = true ∨ ⟨k, v⟩ ∈ l →
          l.foldl (fun r e => r || f e.1 e.2) found = true := by
        intro l
        induction l with
        | nil => simp
        | cons e rest ih =>
            rintro found (rfl | hmem)
            · exact ih _ (.inl rfl)
            · obtain rfl | hmem := List.mem_cons.mp hmem
              · exact ih _ (.inl (by simp [hf]))
              · exact ih _ (.inr hmem)
      exact hfold a.entries false (.inr (AList.mem_lookup_iff.mp h))

theorem erase_insert (s : FiniteStore κ ν) (k : κ) (v : ν) (h : s.lookup k = none) :
    (s.insert k v).erase k = s := by
  apply Finmap.ext_lookup
  intro k'
  rw [lookup_erase_ite, lookup_insert_ite]
  by_cases hk : k' = k
  · subst hk
    rw [if_pos rfl, h]
  · rw [if_neg hk, if_neg hk]

/-- Writing back the value a key already has changes nothing. -/
theorem insert_of_lookup_eq (s : FiniteStore κ ν) (k : κ) (v : ν) (h : s.lookup k = some v) :
    s.insert k v = s := by
  apply Finmap.ext_lookup
  intro k'
  rw [lookup_insert_ite]
  by_cases hk : k' = k
  · subst hk
    rw [if_pos rfl, h]
  · rw [if_neg hk]

theorem erase_of_lookup_eq_none (s : FiniteStore κ ν) (k : κ) (h : s.lookup k = none) :
    s.erase k = s := by
  apply Finmap.ext_lookup
  intro k'
  rw [lookup_erase_ite]
  by_cases hk : k' = k
  · subst hk
    rw [if_pos rfl, h]
  · rw [if_neg hk]

/-! ## Changing a value in place -/

/-- Change the value of a key, if it has one. -/
def modifyAt (k : κ) (f : ν → ν) (s : FiniteStore κ ν) : FiniteStore κ ν :=
  match s.lookup k with
  | none => s
  | some v => s.insert k (f v)

theorem lookup_modifyAt (k : κ) (f : ν → ν) (s : FiniteStore κ ν) (k' : κ) :
    (modifyAt k f s).lookup k' = if k' = k then (s.lookup k').map f else s.lookup k' := by
  unfold modifyAt
  cases hk : s.lookup k with
  | none =>
      by_cases h : k' = k
      · subst h
        simp [hk]
      · simp [h]
  | some v =>
      rw [lookup_insert_ite]
      by_cases h : k' = k
      · subst h
        simp [hk]
      · simp [h]

/-! ## Many keys at once -/

def insertMany (ks : List κ) (v : ν) (s : FiniteStore κ ν) : FiniteStore κ ν :=
  ks.foldl (fun s k => s.insert k v) s

def eraseMany (ks : List κ) (s : FiniteStore κ ν) : FiniteStore κ ν :=
  ks.foldl (fun s k => s.erase k) s

def modifyMany (ks : List κ) (f : ν → ν) (s : FiniteStore κ ν) : FiniteStore κ ν :=
  ks.foldl (fun s k => modifyAt k f s) s

/-- Insert pairs, later ones over earlier ones. -/
def insertPairs (pairs : List (κ × ν)) (s : FiniteStore κ ν) : FiniteStore κ ν :=
  pairs.foldl (fun s pair => s.insert pair.1 pair.2) s

theorem lookup_insertMany (ks : List κ) (v : ν) (s : FiniteStore κ ν) (k : κ) :
    (insertMany ks v s).lookup k = if k ∈ ks then some v else s.lookup k := by
  induction ks generalizing s with
  | nil => simp [insertMany]
  | cons k' rest ih =>
      have hstep : insertMany (k' :: rest) v s = insertMany rest v (s.insert k' v) := rfl
      rw [hstep, ih, lookup_insert_ite]
      by_cases hrest : k ∈ rest
      · simp [hrest]
      · by_cases hk : k = k'
        · simp [hk]
        · simp [hrest, hk]

theorem lookup_eraseMany (ks : List κ) (s : FiniteStore κ ν) (k : κ) :
    (eraseMany ks s).lookup k = if k ∈ ks then none else s.lookup k := by
  induction ks generalizing s with
  | nil => simp [eraseMany]
  | cons k' rest ih =>
      have hstep : eraseMany (k' :: rest) s = eraseMany rest (s.erase k') := rfl
      rw [hstep, ih, lookup_erase_ite]
      by_cases hrest : k ∈ rest
      · simp [hrest]
      · by_cases hk : k = k'
        · simp [hk]
        · simp [hrest, hk]

theorem keys_eraseMany (ks : List κ) (s : FiniteStore κ ν) :
    (eraseMany ks s).keys = s.keys \ ks.toFinset := by
  ext k
  rw [Finset.mem_sdiff, Finmap.mem_keys, Finmap.mem_keys, mem_iff_lookup_ne_none,
    mem_iff_lookup_ne_none, lookup_eraseMany, List.mem_toFinset]
  split <;> simp [*]

/-- Each key that is erased once makes the store smaller by one. -/
theorem size_eraseMany {ks : List κ} {s : FiniteStore κ ν} (hnodup : ks.Nodup)
    (hmem : ∀ k ∈ ks, k ∈ s) : size (eraseMany ks s) = size s - ks.length := by
  have hsub : ks.toFinset ⊆ s.keys := by
    intro k hk
    exact Finmap.mem_keys.mpr (hmem k (List.mem_toFinset.mp hk))
  rw [size, keys_eraseMany, Finset.card_sdiff_of_subset hsub, List.toFinset_card_of_nodup hnodup,
    size]

theorem eraseMany_append (ks ks' : List κ) (s : FiniteStore κ ν) :
    eraseMany (ks ++ ks') s = eraseMany ks' (eraseMany ks s) := by
  simp [eraseMany, List.foldl_append]

theorem eraseMany_comm (ks ks' : List κ) (s : FiniteStore κ ν) :
    eraseMany ks (eraseMany ks' s) = eraseMany ks' (eraseMany ks s) := by
  apply Finmap.ext_lookup
  intro k
  simp only [lookup_eraseMany]
  split <;> split <;> rfl

theorem lookup_modifyMany (ks : List κ) {f : ν → ν} (hf : ∀ v, f (f v) = f v) (s : FiniteStore κ ν)
    (k : κ) :
    (modifyMany ks f s).lookup k = if k ∈ ks then (s.lookup k).map f else s.lookup k := by
  induction ks generalizing s with
  | nil => simp [modifyMany]
  | cons k' rest ih =>
      have hstep : modifyMany (k' :: rest) f s = modifyMany rest f (modifyAt k' f s) := rfl
      rw [hstep, ih, lookup_modifyAt]
      by_cases hk : k = k'
      · subst hk
        cases s.lookup k with
        | none => simp
        | some v => simp [hf]
      · simp [hk]

theorem lookup_insertPairs_of_not_mem {pairs : List (κ × ν)} {k : κ} (s : FiniteStore κ ν)
    (h : k ∉ pairs.map Prod.fst) : (insertPairs pairs s).lookup k = s.lookup k := by
  induction pairs generalizing s with
  | nil => rfl
  | cons pair rest ih =>
      simp only [List.map_cons, List.mem_cons, not_or] at h
      have hstep : insertPairs (pair :: rest) s = insertPairs rest (s.insert pair.1 pair.2) := rfl
      rw [hstep, ih _ h.2, lookup_insert_ite, if_neg h.1]

theorem lookup_insertPairs_of_mem {pairs : List (κ × ν)} {k : κ} {v : ν} (s : FiniteStore κ ν)
    (hnodup : (pairs.map Prod.fst).Nodup) (h : (k, v) ∈ pairs) :
    (insertPairs pairs s).lookup k = some v := by
  induction pairs generalizing s with
  | nil => cases h
  | cons pair rest ih =>
      rw [List.map_cons, List.nodup_cons] at hnodup
      have hstep : insertPairs (pair :: rest) s = insertPairs rest (s.insert pair.1 pair.2) := rfl
      rw [hstep]
      rcases List.mem_cons.mp h with rfl | hrest
      · rw [lookup_insertPairs_of_not_mem _ hnodup.1, lookup_insert_ite, if_pos rfl]
      · exact ih _ hnodup.2 hrest

end FiniteStore
