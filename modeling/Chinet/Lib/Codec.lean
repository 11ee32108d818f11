import Mathlib.Data.List.Basic
import Mathlib.Tactic.Common

/-!
# Codecs with a lax and a strict reader

A codec writes values as bytes and reads them from the front of a text of bytes.  It has two
readers: the strict one refuses every text that its writer does not write, and the lax one lets
some of them pass.  A value that the lax reader has found is written back as the bytes it was read
from exactly when the strict reader finds it too.
-/

/-- `read false` is the lax reader and `read true` the strict one. -/
structure Codec (α : Type) where
  read : Bool → List UInt8 → Option (α × List UInt8)
  write : α → List UInt8
  lax_of_strict : ∀ {s v rest}, read true s = some (v, rest) → read false s = some (v, rest)
  eq_of_strict : ∀ {s v rest}, read true s = some (v, rest) → s = write v ++ rest
  strict_of_eq : ∀ {s v rest after}, read false s = some (v, rest) → s = write v ++ after →
    read true s = some (v, rest)

namespace Codec

variable {α β : Type}

/-! ## Whole texts -/

/-- The value of a text that is read to its end. -/
def parse (c : Codec α) (strict : Bool) (s : List UInt8) : Option α :=
  match c.read strict s with
  | some (v, []) => some v
  | _ => none

theorem parse_eq_some {c : Codec α} {strict : Bool} {s : List UInt8} {v : α} :
    c.parse strict s = some v ↔ c.read strict s = some (v, []) := by
  rw [parse]
  cases c.read strict s with
  | none => simp
  | some found =>
      obtain ⟨w, rest⟩ := found
      cases rest <;> simp

/-- Exactly the texts that the strict reader accepts too are written back. -/
theorem write_eq_iff {c : Codec α} {s : List UInt8} {v : α} (h : c.parse false s = some v) :
    c.write v = s ↔ (c.parse true s).isSome = true := by
  have hlax := parse_eq_some.mp h
  constructor
  · intro hwrite
    have hs : s = c.write v ++ [] := by rw [hwrite, List.append_nil]
    rw [parse_eq_some.mpr (c.strict_of_eq hlax hs)]
    rfl
  · intro hsome
    obtain ⟨w, hw⟩ := Option.isSome_iff_exists.mp hsome
    have hstrict := parse_eq_some.mp hw
    have hboth := (c.lax_of_strict hstrict).symm.trans hlax
    rw [Option.some.injEq, Prod.mk.injEq] at hboth
    rw [c.eq_of_strict hstrict, List.append_nil, hboth.1]

/-! ## Codecs without lax texts -/

/-- A codec whose reader finds nothing but what its writer writes. -/
def exact (read : List UInt8 → Option (α × List UInt8)) (write : α → List UInt8)
    (h : ∀ {s v rest}, read s = some (v, rest) → s = write v ++ rest) : Codec α where
  read _ := read
  write := write
  lax_of_strict hread := hread
  eq_of_strict := h
  strict_of_eq hread _ := hread

def byte : Codec UInt8 :=
  exact (fun | [] => none | b :: rest => some (b, rest)) (fun b => [b]) fun {s} _ _ h => by
    cases s with
    | nil => cases h
    | cons b s =>
        simp only [Option.some.injEq, Prod.mk.injEq] at h
        rw [h.1, h.2, List.singleton_append]

/-! ## Combinators -/

/-- The values of a codec under other names; what is read has to come back. -/
def map (c : Codec α) (f : α → β) (g : β → α) (h : ∀ a, g (f a) = a) : Codec β where
  read strict s := (c.read strict s).map fun found => (f found.1, found.2)
  write b := c.write (g b)
  lax_of_strict hread := by
    obtain ⟨⟨a, rest⟩, ha, hfound⟩ := Option.map_eq_some_iff.mp hread
    rw [c.lax_of_strict ha, ← hfound]
    rfl
  eq_of_strict hread := by
    obtain ⟨⟨a, rest⟩, ha, hfound⟩ := Option.map_eq_some_iff.mp hread
    rw [Prod.mk.injEq] at hfound
    rw [← hfound.1, ← hfound.2, h]
    exact c.eq_of_strict ha
  strict_of_eq hread hs := by
    obtain ⟨⟨a, rest⟩, ha, hfound⟩ := Option.map_eq_some_iff.mp hread
    rw [Prod.mk.injEq] at hfound
    rw [← hfound.1, h] at hs
    rw [c.strict_of_eq ha hs, ← hfound.1, ← hfound.2]
    rfl

/-- One value after the other. -/
def pair (c : Codec α) (d : Codec β) : Codec (α × β) where
  read strict s :=
    (c.read strict s).bind fun first =>
      (d.read strict first.2).map fun second => ((first.1, second.1), second.2)
  write v := c.write v.1 ++ d.write v.2
  lax_of_strict hread := by
    obtain ⟨⟨a, middle⟩, ha, hrest⟩ := Option.bind_eq_some_iff.mp hread
    obtain ⟨⟨b, rest⟩, hb, hfound⟩ := Option.map_eq_some_iff.mp hrest
    rw [c.lax_of_strict ha, Option.bind_some, d.lax_of_strict hb, ← hfound]
    rfl
  eq_of_strict hread := by
    obtain ⟨⟨a, middle⟩, ha, hrest⟩ := Option.bind_eq_some_iff.mp hread
    obtain ⟨⟨b, rest⟩, hb, hfound⟩ := Option.map_eq_some_iff.mp hrest
    rw [Prod.mk.injEq] at hfound
    rw [← hfound.1, ← hfound.2, c.eq_of_strict ha, List.append_assoc]
    exact congrArg _ (d.eq_of_strict hb)
  strict_of_eq {s v rest after} hread hs := by
    obtain ⟨⟨a, middle⟩, ha, hrest⟩ := Option.bind_eq_some_iff.mp hread
    obtain ⟨⟨b, rest'⟩, hb, hfound⟩ := Option.map_eq_some_iff.mp hrest
    rw [Prod.mk.injEq] at hfound
    rw [← hfound.1, List.append_assoc] at hs
    have hstrict := c.strict_of_eq ha hs
    -- the first value leaves what the second was read from
    have hmiddle : middle = d.write b ++ after :=
      List.append_cancel_left ((c.eq_of_strict hstrict).symm.trans hs)
    rw [hstrict, Option.bind_some, d.strict_of_eq hb hmiddle, ← hfound.1, ← hfound.2]
    rfl

/-- A value that has to pass a check. -/
def check (c : Codec α) (p : α → Prop) [DecidablePred p] : Codec { v : α // p v } where
  read strict s :=
    (c.read strict s).bind fun found =>
      if h : p found.1 then some (⟨found.1, h⟩, found.2) else none
  write v := c.write v.1
  lax_of_strict hread := by
    obtain ⟨⟨a, rest⟩, ha, hrest⟩ := Option.bind_eq_some_iff.mp hread
    rw [c.lax_of_strict ha]
    exact hrest
  eq_of_strict hread := by
    obtain ⟨⟨a, rest⟩, ha, hrest⟩ := Option.bind_eq_some_iff.mp hread
    split at hrest
    · simp only [Option.some.injEq, Prod.mk.injEq] at hrest
      rw [← hrest.1, ← hrest.2]
      exact c.eq_of_strict ha
    · cases hrest
  strict_of_eq hread hs := by
    obtain ⟨⟨a, rest⟩, ha, hrest⟩ := Option.bind_eq_some_iff.mp hread
    have hsame := hrest
    split at hrest
    · simp only [Option.some.injEq, Prod.mk.injEq] at hrest
      rw [← hrest.1] at hs
      rw [c.strict_of_eq ha hs]
      exact hsame
    · cases hrest

/-! ## Lists -/

/-- `n` values, one after the other. -/
def readMany (c : Codec α) (strict : Bool) : Nat → List UInt8 → Option (List α × List UInt8)
  | 0, s => some ([], s)
  | n + 1, s =>
      (c.read strict s).bind fun first =>
        (readMany c strict n first.2).map fun others => (first.1 :: others.1, others.2)

def writeMany (c : Codec α) (l : List α) : List UInt8 := l.flatMap c.write

theorem writeMany_cons (c : Codec α) (v : α) (l : List α) :
    c.writeMany (v :: l) = c.write v ++ c.writeMany l :=
  List.flatMap_cons

variable {c : Codec α}

theorem readMany_succ_eq_some {strict : Bool} {n : Nat} {s rest : List UInt8} {l : List α}
    (h : c.readMany strict (n + 1) s = some (l, rest)) :
    ∃ v middle l', l = v :: l' ∧ c.read strict s = some (v, middle) ∧
      c.readMany strict n middle = some (l', rest) := by
  obtain ⟨⟨v, middle⟩, hv, hrest⟩ := Option.bind_eq_some_iff.mp h
  obtain ⟨⟨l', rest'⟩, hl, hfound⟩ := Option.map_eq_some_iff.mp hrest
  cases hfound
  exact ⟨v, middle, l', rfl, hv, hl⟩

theorem length_of_readMany {strict : Bool} {n : Nat} {s rest : List UInt8} {l : List α}
    (h : c.readMany strict n s = some (l, rest)) : l.length = n := by
  induction n generalizing s l with
  | zero =>
      simp only [readMany, Option.some.injEq, Prod.mk.injEq] at h
      rw [← h.1]
      rfl
  | succ n ih =>
      obtain ⟨v, middle, l', rfl, -, hl⟩ := readMany_succ_eq_some h
      rw [List.length_cons, ih hl]

theorem readMany_lax {n : Nat} {s rest : List UInt8} {l : List α}
    (h : c.readMany true n s = some (l, rest)) : c.readMany false n s = some (l, rest) := by
  induction n generalizing s l with
  | zero => exact h
  | succ n ih =>
      obtain ⟨v, middle, l', rfl, hv, hl⟩ := readMany_succ_eq_some h
      rw [readMany, c.lax_of_strict hv, Option.bind_some, ih hl]
      rfl

theorem eq_of_readMany {n : Nat} {s rest : List UInt8} {l : List α}
    (h : c.readMany true n s = some (l, rest)) : s = c.writeMany l ++ rest := by
  induction n generalizing s l with
  | zero =>
      simp only [readMany, Option.some.injEq, Prod.mk.injEq] at h
      rw [← h.1, h.2]
      rfl
  | succ n ih =>
      obtain ⟨v, middle, l', rfl, hv, hl⟩ := readMany_succ_eq_some h
      rw [writeMany_cons, List.append_assoc, ← ih hl]
      exact c.eq_of_strict hv

theorem readMany_strict {n : Nat} {s rest after : List UInt8} {l : List α}
    (h : c.readMany false n s = some (l, rest)) (hs : s = c.writeMany l ++ after) :
    c.readMany true n s = some (l, rest) := by
  induction n generalizing s l with
  | zero => exact h
  | succ n ih =>
      obtain ⟨v, middle, l', rfl, hv, hl⟩ := readMany_succ_eq_some h
      rw [writeMany_cons, List.append_assoc] at hs
      have hstrict := c.strict_of_eq hv hs
      have hmiddle : middle = c.writeMany l' ++ after :=
        List.append_cancel_left ((c.eq_of_strict hstrict).symm.trans hs)
      rw [readMany, hstrict, Option.bind_some, ih hl hmiddle]
      rfl

/-- A list with its length before it, which may not exceed the number of bytes that follow. -/
def list (count : Codec Nat) (c : Codec α) : Codec (List α) where
  read strict s :=
    (count.read strict s).bind fun n =>
      if n.2.length < n.1 then none else c.readMany strict n.1 n.2
  write l := count.write l.length ++ c.writeMany l
  lax_of_strict hread := by
    obtain ⟨⟨n, middle⟩, hn, hrest⟩ := Option.bind_eq_some_iff.mp hread
    rw [count.lax_of_strict hn, Option.bind_some]
    split at hrest
    · cases hrest
    · rename_i hshort
      rw [if_neg hshort]
      exact readMany_lax hrest
  eq_of_strict hread := by
    obtain ⟨⟨n, middle⟩, hn, hrest⟩ := Option.bind_eq_some_iff.mp hread
    split at hrest
    · cases hrest
    · rw [length_of_readMany hrest, List.append_assoc, ← eq_of_readMany hrest]
      exact count.eq_of_strict hn
  strict_of_eq hread hs := by
    obtain ⟨⟨n, middle⟩, hn, hrest⟩ := Option.bind_eq_some_iff.mp hread
    split at hrest
    · cases hrest
    · rename_i hshort
      rw [length_of_readMany hrest, List.append_assoc] at hs
      have hstrict := count.strict_of_eq hn hs
      have hmiddle := List.append_cancel_left ((count.eq_of_strict hstrict).symm.trans hs)
      rw [hstrict, Option.bind_some, if_neg hshort]
      exact readMany_strict hrest hmiddle

/-! ## Tagged alternatives -/

/-- An alternative of a variant, with its tag, its codec and its place among the values. -/
structure Alternative (α : Type) where
  tag : UInt8
  Content : Type
  codec : Codec Content
  wrap : Content → α
  unwrap : α → Option Content
  unwrap_wrap : ∀ v, unwrap (wrap v) = some v

/-- The first alternative with the tag reads the content. -/
def readAlternative (strict : Bool) (tag : UInt8) (s : List UInt8) :
    List (Alternative α) → Option (α × List UInt8)
  | [] => none
  | a :: others =>
      if a.tag = tag then (a.codec.read strict s).map fun found => (a.wrap found.1, found.2)
      else readAlternative strict tag s others

def writeAlternative (v : α) : List (Alternative α) → List UInt8
  | [] => []
  | a :: others =>
      match a.unwrap v with
      | some content => a.tag :: a.codec.write content
      | none => writeAlternative v others

/-- No alternative takes a value of a later one. -/
def Disjoint (alternatives : List (Alternative α)) : Prop :=
  alternatives.Pairwise fun a b => ∀ v, a.unwrap (b.wrap v) = none

theorem writeAlternative_of_mem {alternatives : List (Alternative α)}
    (hdisjoint : Disjoint alternatives) {a : Alternative α} (ha : a ∈ alternatives)
    (v : a.Content) : writeAlternative (a.wrap v) alternatives = a.tag :: a.codec.write v := by
  induction alternatives with
  | nil => exact absurd ha List.not_mem_nil
  | cons b others ih =>
      obtain ⟨hfirst, hothers⟩ := List.pairwise_cons.mp hdisjoint
      rw [writeAlternative]
      rcases List.mem_cons.mp ha with rfl | ha
      · rw [a.unwrap_wrap]
      · rw [hfirst a ha v]
        exact ih hothers ha

/-- A tag has one alternative, or none. -/
theorem readAlternative_eq (alternatives : List (Alternative α)) (tag : UInt8) :
    (∀ strict s, readAlternative strict tag s alternatives = none) ∨
      ∃ a ∈ alternatives, a.tag = tag ∧ ∀ strict s, readAlternative strict tag s alternatives =
        (a.codec.read strict s).map fun found => (a.wrap found.1, found.2) := by
  induction alternatives with
  | nil => exact Or.inl fun _ _ => rfl
  | cons a others ih =>
      by_cases htag : a.tag = tag
      · exact Or.inr ⟨a, List.mem_cons_self, htag, fun strict s => by
          rw [readAlternative, if_pos htag]⟩
      · rcases ih with hnone | ⟨b, hb, hbtag, hread⟩
        · exact Or.inl fun strict s => by rw [readAlternative, if_neg htag, hnone]
        · exact Or.inr ⟨b, List.mem_cons_of_mem a hb, hbtag, fun strict s => by
            rw [readAlternative, if_neg htag, hread]⟩

/-- A tag and the content of its alternative. -/
def variant (alternatives : List (Alternative α)) (hdisjoint : Disjoint alternatives) :
    Codec α where
  read strict s :=
    (byte.read strict s).bind fun tag => readAlternative strict tag.1 tag.2 alternatives
  write v := writeAlternative v alternatives
  lax_of_strict hread := by
    obtain ⟨⟨tag, s'⟩, htag, hrest⟩ := Option.bind_eq_some_iff.mp hread
    rw [byte.lax_of_strict htag, Option.bind_some]
    rcases readAlternative_eq alternatives tag with hnone | ⟨a, -, -, heq⟩
    · rw [hnone] at hrest
      cases hrest
    · rw [heq] at hrest ⊢
      obtain ⟨⟨v, rest⟩, hv, hfound⟩ := Option.map_eq_some_iff.mp hrest
      rw [a.codec.lax_of_strict hv, ← hfound]
      rfl
  eq_of_strict hread := by
    obtain ⟨⟨tag, s'⟩, htag, hrest⟩ := Option.bind_eq_some_iff.mp hread
    rcases readAlternative_eq alternatives tag with hnone | ⟨a, ha, hatag, heq⟩
    · rw [hnone] at hrest
      cases hrest
    · rw [heq] at hrest
      obtain ⟨⟨v, rest⟩, hv, hfound⟩ := Option.map_eq_some_iff.mp hrest
      rw [Prod.mk.injEq] at hfound
      rw [← hfound.1, ← hfound.2, writeAlternative_of_mem hdisjoint ha, hatag, List.cons_append,
        byte.eq_of_strict htag]
      exact congrArg _ (a.codec.eq_of_strict hv)
  strict_of_eq {s v rest after} hread hs := by
    obtain ⟨⟨tag, s'⟩, htag, hrest⟩ := Option.bind_eq_some_iff.mp hread
    have hstrict : byte.read true s = some (tag, s') := htag
    rcases readAlternative_eq alternatives tag with hnone | ⟨a, ha, hatag, heq⟩
    · rw [hnone] at hrest
      cases hrest
    · rw [heq] at hrest
      obtain ⟨⟨content, rest'⟩, hv, hfound⟩ := Option.map_eq_some_iff.mp hrest
      rw [Prod.mk.injEq] at hfound
      rw [← hfound.1, writeAlternative_of_mem hdisjoint ha, hatag, byte.eq_of_strict hstrict] at hs
      have hs' : s' = a.codec.write content ++ after := List.tail_eq_of_cons_eq hs
      rw [hstrict, Option.bind_some, heq, a.codec.strict_of_eq hv hs', ← hfound.1, ← hfound.2]
      rfl

end Codec
