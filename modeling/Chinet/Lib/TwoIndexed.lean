import Mathlib.Data.List.Sort
import Mathlib.Data.List.Nodup
import Mathlib.Order.Basic

/-!
# Containers with a key and a rank

A container whose elements are found by a key, which no two of them share, and are
walked through by a rank, which they may share.  An element that is inserted stands
behind those of its rank.
-/

/-- The elements stand in the order of their ranks. -/
structure TwoIndexed {α κ ρ : Type} [LinearOrder ρ] (key : α → κ) (rank : α → ρ) where
  entries : List α
  ordered : entries.Pairwise fun a b => rank a ≤ rank b
  distinct : (entries.map key).Nodup

namespace TwoIndexed

variable {α κ ρ : Type} [LinearOrder ρ] {key : α → κ} {rank : α → ρ}

instance : Membership α (TwoIndexed key rank) := ⟨fun c a => a ∈ c.entries⟩

theorem mem_def {c : TwoIndexed key rank} {a : α} : a ∈ c ↔ a ∈ c.entries := Iff.rfl

@[ext] theorem ext_entries {c d : TwoIndexed key rank} (h : c.entries = d.entries) : c = d := by
  cases c
  cases d
  congr

def size (c : TwoIndexed key rank) : Nat := c.entries.length

def empty : TwoIndexed key rank := ⟨[], List.Pairwise.nil, List.nodup_nil⟩

@[simp] theorem not_mem_empty {a : α} : ¬ a ∈ (empty : TwoIndexed key rank) := List.not_mem_nil

/-- A sublist of the elements is again such a container. -/
def restrict (c : TwoIndexed key rank) (l : List α) (h : l.Sublist c.entries) :
    TwoIndexed key rank :=
  ⟨l, c.ordered.sublist h, c.distinct.sublist (h.map key)⟩

def filter (p : α → Bool) (c : TwoIndexed key rank) : TwoIndexed key rank :=
  c.restrict (c.entries.filter p) List.filter_sublist

@[simp] theorem mem_filter {p : α → Bool} {c : TwoIndexed key rank} {a : α} :
    a ∈ c.filter p ↔ a ∈ c ∧ p a := List.mem_filter

theorem size_filter_le (p : α → Bool) (c : TwoIndexed key rank) : (c.filter p).size ≤ c.size :=
  List.length_filter_le p c.entries

/-- Elements are taken from the front while there are more than `limit` of them. -/
def trim (limit : Nat) (c : TwoIndexed key rank) : TwoIndexed key rank :=
  c.restrict (c.entries.drop (c.size - limit)) (List.drop_sublist _ _)

theorem mem_of_mem_trim {limit : Nat} {c : TwoIndexed key rank} {a : α} (h : a ∈ c.trim limit) :
    a ∈ c :=
  List.mem_of_mem_drop h

theorem trim_eq_self {limit : Nat} {c : TwoIndexed key rank} (h : c.size ≤ limit) :
    c.trim limit = c := by
  apply ext_entries
  show c.entries.drop (c.size - limit) = c.entries
  rw [Nat.sub_eq_zero_of_le h, List.drop_zero]

theorem eq_of_key {c : TwoIndexed key rank} {a b : α} (ha : a ∈ c) (hb : b ∈ c)
    (h : key a = key b) : a = b :=
  List.inj_on_of_nodup_map c.distinct ha hb h

/-- Elements are taken from the front as long as they meet a condition. -/
def dropWhile (p : α → Bool) (c : TwoIndexed key rank) : TwoIndexed key rank :=
  c.restrict (c.entries.dropWhile p) (List.dropWhile_sublist p)

/-- If lower ranks meet the condition as well, all that meet it are taken. -/
theorem dropWhile_eq_filter {p : α → Bool} (hp : ∀ a b, rank a ≤ rank b → p b = true → p a = true)
    (c : TwoIndexed key rank) : c.dropWhile p = c.filter fun a => !p a := by
  have hlist : ∀ l : List α, l.Pairwise (fun a b => rank a ≤ rank b) →
      l.dropWhile p = l.filter fun a => !p a := by
    intro l hl
    induction l with
    | nil => rfl
    | cons a l ih =>
        obtain ⟨ha, hl⟩ := List.pairwise_cons.mp hl
        by_cases hpa : p a = true
        · rw [List.dropWhile_cons_of_pos hpa, List.filter_cons_of_neg (by simp [hpa]), ih hl]
        · rw [List.dropWhile_cons_of_neg hpa]
          refine (List.filter_eq_self.mpr fun b hb => ?_).symm
          rcases List.mem_cons.mp hb with rfl | hb
          · simpa using hpa
          · cases hpb : p b with
            | false => rfl
            | true => exact absurd (hp a b (ha b hb) hpb) hpa
  exact ext_entries (hlist c.entries c.ordered)

section Lookup

variable [DecidableEq κ]

def find? (k : κ) (c : TwoIndexed key rank) : Option α := c.entries.find? fun a => key a = k

def contains (k : κ) (c : TwoIndexed key rank) : Bool := (c.find? k).isSome

theorem find?_eq_some {c : TwoIndexed key rank} {k : κ} {a : α} :
    c.find? k = some a ↔ a ∈ c ∧ key a = k := by
  constructor
  · intro h
    exact ⟨List.mem_of_find?_eq_some h, by simpa using List.find?_some h⟩
  · rintro ⟨ha, hk⟩
    cases hf : c.find? k with
    | none =>
        have hmiss := List.find?_eq_none.mp hf a ha
        simp [hk] at hmiss
    | some b =>
        have hb : b ∈ c ∧ key b = k := ⟨List.mem_of_find?_eq_some hf, by
          simpa using List.find?_some hf⟩
        rw [eq_of_key hb.1 ha (hb.2.trans hk.symm)]

theorem find?_eq_none {c : TwoIndexed key rank} {k : κ} :
    c.find? k = none ↔ ∀ a ∈ c, key a ≠ k := by
  simp [find?, mem_def]

theorem contains_iff {c : TwoIndexed key rank} {k : κ} :
    c.contains k = true ↔ ∃ a ∈ c, key a = k := by
  rw [contains, Option.isSome_iff_exists]
  exact exists_congr fun a => find?_eq_some

/-! ## Changes -/

theorem ordered_orderedInsert (a : α) {l : List α}
    (h : l.Pairwise fun a b => rank a ≤ rank b) :
    (l.orderedInsert (fun x y => rank x < rank y) a).Pairwise fun a b => rank a ≤ rank b := by
  induction l with
  | nil => exact List.pairwise_singleton _ _
  | cons b l ih =>
      obtain ⟨hb, hl⟩ := List.pairwise_cons.mp h
      rw [List.orderedInsert_cons]
      by_cases hlt : rank a < rank b
      · rw [if_pos hlt]
        refine List.pairwise_cons.mpr ⟨?_, h⟩
        intro x hx
        rcases List.mem_cons.mp hx with rfl | hx
        · exact hlt.le
        · exact hlt.le.trans (hb x hx)
      · rw [if_neg hlt]
        refine List.pairwise_cons.mpr ⟨?_, ih hl⟩
        intro x hx
        rcases (List.mem_orderedInsert _).mp hx with rfl | hx
        · exact not_lt.mp hlt
        · exact hb x hx

/-- The insertion of an element whose key is new. -/
def link (a : α) (c : TwoIndexed key rank) (h : c.find? (key a) = none) : TwoIndexed key rank where
  entries := c.entries.orderedInsert (fun x y => rank x < rank y) a
  ordered := ordered_orderedInsert a c.ordered
  distinct := by
    have hperm := (List.perm_orderedInsert (fun x y => rank x < rank y) a c.entries).map key
    refine hperm.nodup_iff.mpr (List.nodup_cons.mpr ⟨?_, c.distinct⟩)
    rintro hmem
    obtain ⟨b, hb, hkey⟩ := List.mem_map.mp hmem
    exact find?_eq_none.mp h b hb hkey

/-- An element whose key is there already is not inserted. -/
def insert (a : α) (c : TwoIndexed key rank) : TwoIndexed key rank :=
  if h : c.find? (key a) = none then c.link a h else c

theorem entries_insert_perm {a : α} {c : TwoIndexed key rank} (h : c.find? (key a) = none) :
    (c.insert a).entries.Perm (a :: c.entries) := by
  rw [insert, dif_pos h]
  exact List.perm_orderedInsert _ a c.entries

theorem insert_of_contains {a : α} {c : TwoIndexed key rank} (h : c.find? (key a) ≠ none) :
    c.insert a = c := dif_neg h

theorem mem_insert {a b : α} {c : TwoIndexed key rank} (h : c.find? (key a) = none) :
    b ∈ c.insert a ↔ b = a ∨ b ∈ c := by
  rw [mem_def, (entries_insert_perm h).mem_iff, List.mem_cons, mem_def]

theorem size_insert {a : α} {c : TwoIndexed key rank} (h : c.find? (key a) = none) :
    (c.insert a).size = c.size + 1 := (entries_insert_perm h).length_eq

def erase (k : κ) (c : TwoIndexed key rank) : TwoIndexed key rank :=
  c.filter fun a => key a ≠ k

theorem mem_erase {k : κ} {a : α} {c : TwoIndexed key rank} :
    a ∈ c.erase k ↔ a ∈ c ∧ key a ≠ k := by
  simp [erase]

/-- The elements are exchanged for others of the same keys and ranks. -/
def modify (f : α → α) (hkey : ∀ a, key (f a) = key a) (hrank : ∀ a, rank (f a) = rank a)
    (c : TwoIndexed key rank) : TwoIndexed key rank where
  entries := c.entries.map f
  ordered := by
    rw [List.pairwise_map]
    exact c.ordered.imp fun h => by rw [hrank, hrank]; exact h
  distinct := by
    have hsame : key ∘ f = key := funext hkey
    rw [List.map_map, hsame]
    exact c.distinct

/-- The element of a key that is there is exchanged for another one.  It keeps its
place where its rank allows it, else it moves behind those of its rank. -/
def replace (a : α) (c : TwoIndexed key rank) : TwoIndexed key rank :=
  let here := c.entries.map fun b => if key b = key a then a else b
  if h : here.Pairwise fun a b => rank a ≤ rank b then
    ⟨here, h, by
      have hsame : here.map key = c.entries.map key := by
        rw [List.map_map]
        refine List.map_congr_left fun b _ => ?_
        by_cases hb : key b = key a <;> simp [hb]
      rw [hsame]
      exact c.distinct⟩
  else (c.erase (key a)).insert a

theorem find?_erase_self {k : κ} (c : TwoIndexed key rank) : (c.erase k).find? k = none :=
  find?_eq_none.mpr fun _ ha => (mem_erase.mp ha).2

theorem mem_replace {a b : α} {c : TwoIndexed key rank} (h : c.contains (key a) = true) :
    b ∈ c.replace a ↔ b = a ∨ b ∈ c ∧ key b ≠ key a := by
  unfold replace
  by_cases hplace : (c.entries.map fun b => if key b = key a then a else b).Pairwise
      fun a b => rank a ≤ rank b
  · rw [dif_pos hplace]
    show b ∈ c.entries.map (fun b => if key b = key a then a else b) ↔ _
    rw [List.mem_map]
    constructor
    · rintro ⟨x, hx, rfl⟩
      by_cases hkey : key x = key a
      · exact Or.inl (if_pos hkey)
      · rw [if_neg hkey]
        exact Or.inr ⟨hx, hkey⟩
    · rintro (rfl | ⟨hb, hkey⟩)
      · obtain ⟨x, hx, hkey⟩ := contains_iff.mp h
        exact ⟨x, hx, if_pos hkey⟩
      · exact ⟨b, hb, if_neg hkey⟩
  · rw [dif_neg hplace, mem_insert (find?_erase_self c), mem_erase]

theorem size_erase_add_one {k : κ} {c : TwoIndexed key rank} (h : c.contains k = true) :
    (c.erase k).size + 1 = c.size := by
  obtain ⟨a, ha, hkey⟩ := contains_iff.mp h
  have hfresh : (c.erase k).find? (key a) = none := by
    rw [hkey]
    exact find?_erase_self c
  have hperm : ((c.erase k).insert a).entries.Perm c.entries := by
    refine (List.perm_ext_iff_of_nodup (List.Nodup.of_map key
      ((c.erase k).insert a).distinct) (List.Nodup.of_map key c.distinct)).mpr fun b => ?_
    rw [← mem_def, mem_insert hfresh, mem_erase, ← mem_def]
    constructor
    · rintro (rfl | ⟨hb, -⟩)
      · exact ha
      · exact hb
    · intro hb
      by_cases hb' : key b = k
      · exact Or.inl (eq_of_key hb ha (hb'.trans hkey.symm))
      · exact Or.inr ⟨hb, hb'⟩
  rw [← size_insert hfresh]
  exact hperm.length_eq

theorem size_replace {a : α} {c : TwoIndexed key rank} (h : c.contains (key a) = true) :
    (c.replace a).size = c.size := by
  unfold replace
  by_cases hplace : (c.entries.map fun b => if key b = key a then a else b).Pairwise
      fun a b => rank a ≤ rank b
  · rw [dif_pos hplace]
    exact List.length_map _
  · rw [dif_neg hplace, size_insert (find?_erase_self c), size_erase_add_one h]

/-! ## What is found afterwards -/

theorem find?_insert (a : α) (k : κ) (c : TwoIndexed key rank) :
    (c.insert a).find? k = if key a = k ∧ c.find? k = none then some a else c.find? k := by
  by_cases hfresh : c.find? (key a) = none
  · refine Option.ext fun b => ?_
    rw [find?_eq_some, mem_insert hfresh]
    by_cases hk : key a = k
    · subst hk
      rw [if_pos ⟨rfl, hfresh⟩, Option.some_inj]
      constructor
      · rintro ⟨rfl | hb, hkey⟩
        · rfl
        · exact absurd hkey (find?_eq_none.mp hfresh b hb)
      · rintro rfl
        exact ⟨Or.inl rfl, rfl⟩
    · rw [if_neg fun h => hk h.1, find?_eq_some]
      constructor
      · rintro ⟨rfl | hb, hkey⟩
        · exact absurd hkey hk
        · exact ⟨hb, hkey⟩
      · rintro ⟨hb, hkey⟩
        exact ⟨Or.inr hb, hkey⟩
  · rw [insert_of_contains hfresh, if_neg]
    rintro ⟨rfl, hnone⟩
    exact hfresh hnone

theorem find?_filter (p : α → Bool) (k : κ) (c : TwoIndexed key rank) :
    (c.filter p).find? k = (c.find? k).filter p := by
  refine Option.ext fun a => ?_
  rw [find?_eq_some, mem_filter, Option.filter_eq_some_iff, find?_eq_some]
  tauto

theorem find?_erase (k k' : κ) (c : TwoIndexed key rank) :
    (c.erase k).find? k' = if k' = k then none else c.find? k' := by
  rw [erase, find?_filter]
  by_cases hk : k' = k
  · rw [if_pos hk, Option.filter_eq_none_iff]
    intro a ha
    simp [(find?_eq_some.mp ha).2, hk]
  · rw [if_neg hk]
    cases ha : c.find? k' with
    | none => rfl
    | some a =>
        refine Option.filter_some_pos ?_
        simp [(find?_eq_some.mp ha).2, hk]

theorem find?_modify {f : α → α} {hkey : ∀ a, key (f a) = key a} {hrank : ∀ a, rank (f a) = rank a}
    (k : κ) (c : TwoIndexed key rank) : (c.modify f hkey hrank).find? k = (c.find? k).map f := by
  refine Option.ext fun b => ?_
  have hmem : ∀ b, b ∈ c.modify f hkey hrank ↔ ∃ a ∈ c, f a = b := fun b => List.mem_map
  rw [find?_eq_some, hmem, Option.map_eq_some_iff]
  constructor
  · rintro ⟨⟨a, ha, rfl⟩, hk⟩
    exact ⟨a, find?_eq_some.mpr ⟨ha, (hkey a).symm.trans hk⟩, rfl⟩
  · rintro ⟨a, ha, rfl⟩
    obtain ⟨ha, hk⟩ := find?_eq_some.mp ha
    exact ⟨⟨a, ha, rfl⟩, (hkey a).trans hk⟩

/-- What the lookups find tells the containers apart, up to the order of equal ranks. -/
theorem find?_eq_iff {c d : TwoIndexed key rank} :
    (∀ k, c.find? k = d.find? k) ↔ ∀ a, a ∈ c ↔ a ∈ d := by
  constructor
  · intro h a
    have hc := find?_eq_some (c := c) (k := key a) (a := a)
    have hd := find?_eq_some (c := d) (k := key a) (a := a)
    rw [and_iff_left rfl] at hc hd
    rw [← hc, ← hd, h]
  · intro h k
    refine Option.ext fun a => ?_
    rw [find?_eq_some, find?_eq_some, h]

theorem contains_insert {a : α} {k : κ} {c : TwoIndexed key rank}
    (h : c.find? (key a) = none) :
    (c.insert a).contains k = true ↔ key a = k ∨ c.contains k = true := by
  rw [contains_iff, contains_iff]
  constructor
  · rintro ⟨b, hb, hkey⟩
    rcases (mem_insert h).mp hb with rfl | hb
    · exact Or.inl hkey
    · exact Or.inr ⟨b, hb, hkey⟩
  · rintro (hkey | ⟨b, hb, hkey⟩)
    · exact ⟨a, (mem_insert h).mpr (Or.inl rfl), hkey⟩
    · exact ⟨b, (mem_insert h).mpr (Or.inr hb), hkey⟩

theorem contains_replace {a : α} {k : κ} {c : TwoIndexed key rank}
    (h : c.contains (key a) = true) :
    (c.replace a).contains k = true ↔ c.contains k = true := by
  rw [contains_iff, contains_iff]
  constructor
  · rintro ⟨b, hb, hkey⟩
    rcases (mem_replace h).mp hb with rfl | ⟨hb, -⟩
    · rw [← hkey]
      exact contains_iff.mp h
    · exact ⟨b, hb, hkey⟩
  · rintro ⟨b, hb, rfl⟩
    by_cases hkey : key b = key a
    · exact ⟨a, (mem_replace h).mpr (Or.inl rfl), hkey.symm⟩
    · exact ⟨b, (mem_replace h).mpr (Or.inr ⟨hb, hkey⟩), rfl⟩

end Lookup

end TwoIndexed
