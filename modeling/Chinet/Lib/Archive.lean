import Mathlib.Data.List.Nodup
import Mathlib.Data.Nat.Size
import Mathlib.Tactic.Common

/-!
# Archives of fields

A serializer lists the fields of an object one after the other, and the same list saves the
object and loads it.  Loading goes into an object that is there already: a field that the list
leaves out keeps what the memory held.

* `Format` is what an archive library does with a number and with a text.
* `Layout` is a list of fields, with what comes back when a saved object is loaded.
-/

namespace Archive

/-- The opening of an archive, its numbers and its texts. -/
structure Format where
  opening : List UInt8
  readOpening : List UInt8 → Option (List UInt8)
  writeNumber : Nat → List UInt8
  readNumber : List UInt8 → Option (Nat × List UInt8)
  writeText : List UInt8 → List UInt8
  readText : List UInt8 → Option (List UInt8 × List UInt8)
  opening_read : ∀ rest, readOpening (opening ++ rest) = some rest
  number_read : ∀ n rest, readNumber (writeNumber n ++ rest) = some (n, rest)
  text_read : ∀ s rest, readText (writeText s ++ rest) = some (s, rest)
  opening_size : opening.length ≤ 64
  number_size : ∀ n, (writeNumber n).length ≤ n.size + 64
  text_size : ∀ s, (writeText s).length ≤ s.length + s.length.size + 64

/-- `loaded memory x` is what an object that held `memory` holds after `x` was loaded into it. -/
structure Layout (α : Type) where
  save : α → List UInt8
  load : α → List UInt8 → Option (α × List UInt8)
  loaded : α → α → α
  load_save : ∀ memory x rest, load memory (save x ++ rest) = some (loaded memory x, rest)

namespace Layout

variable {α β γ : Type}

/-! ## Objects -/

/-- The list without a field. -/
def nothing : Layout α where
  save _ := []
  load memory s := some (memory, s)
  loaded memory _ := memory
  load_save _ _ _ := rfl

/-- One field more. -/
def field (l : Layout α) (get : α → β) (set : β → α → α) (f : Layout β) : Layout α where
  save x := l.save x ++ f.save (get x)
  load memory s :=
    (l.load memory s).bind fun first =>
      (f.load (get first.1) first.2).map fun second => (set second.1 first.1, second.2)
  loaded memory x :=
    set (f.loaded (get (l.loaded memory x)) (get x)) (l.loaded memory x)
  load_save memory x rest := by
    rw [List.append_assoc, l.load_save, Option.bind_some, f.load_save]
    rfl

/-- An object that is saved as another one. -/
def via (f : α → β) (g : β → α) (l : Layout β) : Layout α where
  save x := l.save (f x)
  load memory s := (l.load (f memory) s).map fun found => (g found.1, found.2)
  loaded memory x := g (l.loaded (f memory) (f x))
  load_save memory x rest := by
    rw [l.load_save]
    rfl

@[simp] theorem nothing_loaded (memory x : α) : (nothing : Layout α).loaded memory x = memory := rfl

@[simp] theorem field_loaded (l : Layout α) (get : α → β) (set : β → α → α) (f : Layout β)
    (memory x : α) : (l.field get set f).loaded memory x =
      set (f.loaded (get (l.loaded memory x)) (get x)) (l.loaded memory x) :=
  rfl

@[simp] theorem via_loaded (f : α → β) (g : β → α) (l : Layout β) (memory x : α) :
    (l.via f g).loaded memory x = g (l.loaded (f memory) (f x)) :=
  rfl

/-! ## Numbers, texts and alternatives -/

def number (a : Format) : Layout Nat where
  save := a.writeNumber
  load _ := a.readNumber
  loaded _ n := n
  load_save _ := a.number_read

def text (a : Format) : Layout (List UInt8) where
  save := a.writeText
  load _ := a.readText
  loaded _ s := s
  load_save _ := a.text_read

/-- One of two alternatives after its tag; each is loaded into a new object. -/
def sum (a : Format) (left : α) (right : β) (l : Layout α) (r : Layout β) : Layout (α ⊕ β) where
  save
    | .inl x => a.writeNumber 0 ++ l.save x
    | .inr y => a.writeNumber 1 ++ r.save y
  load _ s := (a.readNumber s).bind fun tag =>
    if tag.1 = 0 then (l.load left tag.2).map fun found => (.inl found.1, found.2)
    else (r.load right tag.2).map fun found => (.inr found.1, found.2)
  loaded _
    | .inl x => .inl (l.loaded left x)
    | .inr y => .inr (r.loaded right y)
  load_save memory x rest := by
    cases x with
    | inl x =>
        rw [List.append_assoc, a.number_read, Option.bind_some, if_pos rfl, l.load_save]
        rfl
    | inr y =>
        rw [List.append_assoc, a.number_read, Option.bind_some, if_neg Nat.one_ne_zero, r.load_save]
        rfl

@[simp] theorem number_loaded (a : Format) (memory n : Nat) : (number a).loaded memory n = n := by
  simp [number]

@[simp] theorem text_loaded (a : Format) (memory s : List UInt8) :
    (text a).loaded memory s = s := by
  simp [text]

@[simp] theorem sum_loaded_inl (a : Format) (left : α) (right : β) (l : Layout α) (r : Layout β)
    (memory : α ⊕ β) (x : α) :
    (sum a left right l r).loaded memory (.inl x) = .inl (l.loaded left x) := rfl

@[simp] theorem sum_loaded_inr (a : Format) (left : α) (right : β) (l : Layout α) (r : Layout β)
    (memory : α ⊕ β) (y : β) :
    (sum a left right l r).loaded memory (.inr y) = .inr (r.loaded right y) := rfl

/-! ## Containers -/

/-- `n` elements, each loaded into a new object. -/
def loadMany (l : Layout α) (new : α) : Nat → List UInt8 → Option (List α × List UInt8)
  | 0, s => some ([], s)
  | n + 1, s =>
      (l.load new s).bind fun first =>
        (loadMany l new n first.2).map fun others => (first.1 :: others.1, others.2)

theorem loadMany_save (l : Layout α) (new : α) (xs : List α) (rest : List UInt8) :
    l.loadMany new xs.length (xs.flatMap l.save ++ rest) = some (xs.map (l.loaded new), rest) := by
  induction xs with
  | nil => rfl
  | cons x xs ih =>
      rw [List.flatMap_cons, List.append_assoc, List.length_cons, loadMany, l.load_save,
        Option.bind_some, ih]
      rfl

/-- The number of elements, and the elements. -/
def list (a : Format) (new : α) (l : Layout α) : Layout (List α) where
  save xs := a.writeNumber xs.length ++ xs.flatMap l.save
  load _ s := (a.readNumber s).bind fun count => l.loadMany new count.1 count.2
  loaded _ xs := xs.map (l.loaded new)
  load_save memory xs rest := by
    rw [List.append_assoc, a.number_read, Option.bind_some, loadMany_save]

theorem list_loaded (a : Format) (new : α) (l : Layout α) (memory xs : List α) :
    (list a new l).loaded memory xs = xs.map (l.loaded new) := rfl

/-- A list whose elements come back comes back. -/
@[simp] theorem list_loaded_self (a : Format) (new : α) {l : Layout α} (memory : List α)
    {xs : List α} (h : ∀ x ∈ xs, l.loaded new x = x) : (list a new l).loaded memory xs = xs := by
  rw [list_loaded, List.map_congr_left h, List.map_id']

/-- Two objects, one after the other. -/
def pair (l : Layout α) (r : Layout β) : Layout (α × β) :=
  nothing |>.field Prod.fst (fun x p => (x, p.2)) l |>.field Prod.snd (fun y p => (p.1, y)) r

@[simp] theorem pair_loaded (l : Layout α) (r : Layout β) (memory x : α × β) :
    (pair l r).loaded memory x = (l.loaded memory.1 x.1, r.loaded memory.2 x.2) := rfl

end Layout

/-! ## Maps -/

/-- The entries of a map in the order in which it is walked through, one for each key. -/
structure Table (κ ν : Type) where
  entries : List (κ × ν)
  nodup : (entries.map Prod.fst).Nodup

namespace Table

variable {κ ν μ : Type} [DecidableEq κ]

instance [DecidableEq ν] : DecidableEq (Table κ ν) := fun t u =>
  decidable_of_iff (t.entries = u.entries) (by cases t; cases u; simp)

def empty : Table κ ν := ⟨[], List.nodup_nil⟩

def lookup (t : Table κ ν) (k : κ) : Option ν := (t.entries.find? fun e => e.1 = k).map Prod.snd

/-- A key that is there keeps its value. -/
def insert (t : Table κ ν) (e : κ × ν) : Table κ ν :=
  if h : e.1 ∈ t.entries.map Prod.fst then t
  else ⟨t.entries ++ [e], by
    rw [List.map_append, List.nodup_append]
    refine ⟨t.nodup, List.nodup_singleton _, fun a ha b hb hab => h ?_⟩
    rw [List.map_singleton, List.mem_singleton] at hb
    rwa [← hb, ← hab]⟩

/-- Entries that are put into a cleared map. -/
def ofEntries (l : List (κ × ν)) : Table κ ν := l.foldl insert empty

def size (t : Table κ ν) : Nat := t.entries.length

/-- Other values for the same keys. -/
def mapValues (t : Table κ ν) (f : ν → μ) : Table κ μ :=
  ⟨t.entries.map fun e => (e.1, f e.2), by
    rw [List.map_map]
    exact t.nodup⟩

omit [DecidableEq κ] in
@[ext] theorem ext {t u : Table κ ν} (h : t.entries = u.entries) : t = u := by
  cases t
  cases u
  cases h
  rfl

theorem entries_insert_of_notMem {t : Table κ ν} {e : κ × ν}
    (h : e.1 ∉ t.entries.map Prod.fst) : (t.insert e).entries = t.entries ++ [e] := by
  rw [insert, dif_neg h]

theorem entries_foldl_insert {l : List (κ × ν)} {t : Table κ ν}
    (h : ((t.entries ++ l).map Prod.fst).Nodup) :
    (l.foldl insert t).entries = t.entries ++ l := by
  induction l generalizing t with
  | nil => rw [List.foldl_nil, List.append_nil]
  | cons e l ih =>
      have hnew : e.1 ∉ t.entries.map Prod.fst := by
        intro hmem
        rw [List.map_append, List.nodup_append] at h
        exact h.2.2 _ hmem _ (List.mem_cons_self ..) rfl
      have hentries := entries_insert_of_notMem hnew
      rw [List.append_cons, ← hentries] at h
      rw [List.foldl_cons, ih h, hentries, List.append_assoc, List.singleton_append]

/-- A map that is filled from its own entries is the map again. -/
theorem ofEntries_entries {l : List (κ × ν)} (h : (l.map Prod.fst).Nodup) :
    (ofEntries l).entries = l :=
  entries_foldl_insert h

end Table

namespace Layout

variable {κ ν : Type} [DecidableEq κ]

/-- A map, entry by entry. -/
def table (a : Format) (newKey : κ) (newValue : ν) (k : Layout κ) (v : Layout ν) :
    Layout (Table κ ν) :=
  (list a (newKey, newValue) (pair k v)).via Table.entries Table.ofEntries

/-- Where the keys come back, the map comes back with the values as they are loaded. -/
theorem table_loaded (a : Format) (newKey : κ) (newValue : ν) {k : Layout κ} (v : Layout ν)
    (hk : ∀ memory x, k.loaded memory x = x) (memory t : Table κ ν) :
    (table a newKey newValue k v).loaded memory t = t.mapValues (v.loaded newValue) := by
  have hentries : t.entries.map ((pair k v).loaded (newKey, newValue)) =
      (t.mapValues (v.loaded newValue)).entries := by
    refine List.map_congr_left fun e _ => ?_
    rw [pair_loaded, hk]
  apply Table.ext
  rw [table, via_loaded, list_loaded, hentries]
  exact Table.ofEntries_entries (t.mapValues (v.loaded newValue)).nodup

end Layout

theorem Table.mapValues_id {κ ν : Type} {f : ν → ν} {t : Table κ ν}
    (h : ∀ e ∈ t.entries, f e.2 = e.2) : t.mapValues f = t := by
  apply Table.ext
  calc t.entries.map (fun e => (e.1, f e.2)) = t.entries.map id :=
        List.map_congr_left fun e he => by rw [h e he, id]
    _ = t.entries := List.map_id _

end Archive
