import Chinet.Lib.Codec

/-!
# What a codec writes ends by itself

A codec delimits the values of a set if what it writes for one of them, with anything behind it,
tells the value and where it ends.  Then no two of these values are written alike, and the codecs
that are put together from such codecs delimit their values too.

A codec may write values outside the set alike: the length of a list is written in a fixed number
of bits, for example.
-/

namespace Codec

variable {α β : Type}

/-- The text of a value in `P` is not the start of another's. -/
def Delimits (c : Codec α) (P : α → Prop) : Prop :=
  ∀ ⦃v w : α⦄, P v → P w → ∀ ⦃s t⦄, c.write v ++ s = c.write w ++ t → v = w ∧ s = t

theorem Delimits.write_inj {c : Codec α} {P : α → Prop} (h : c.Delimits P) {v w : α} (hv : P v)
    (hw : P w) : c.write v = c.write w ↔ v = w := by
  constructor
  · intro heq
    have happend : c.write v ++ [] = c.write w ++ [] := by rw [heq]
    exact (h hv hw happend).1
  · rintro rfl
    rfl

theorem Delimits.mono {c : Codec α} {P Q : α → Prop} (h : c.Delimits P) (hle : ∀ v, Q v → P v) :
    c.Delimits Q :=
  fun v w hv hw => h (hle v hv) (hle w hw)

/-- All texts have one length. -/
theorem delimits_of_length {c : Codec α} {n : Nat} (hlength : ∀ v, (c.write v).length = n)
    (hinj : ∀ v w, c.write v = c.write w → v = w) : c.Delimits fun _ => True := by
  intro v w _ _ s t heq
  have hsame : (c.write v).length = (c.write w).length := by rw [hlength, hlength]
  obtain ⟨hwrite, hrest⟩ := List.append_inj heq hsame
  exact ⟨hinj v w hwrite, hrest⟩

theorem delimits_byte : byte.Delimits fun _ => True :=
  delimits_of_length (n := 1) (fun _ => rfl) fun _ _ h => (List.cons.inj h).1

theorem Delimits.map {c : Codec α} {P : α → Prop} {Q : β → Prop} (h : c.Delimits P) {f : α → β}
    {g : β → α} (hback : ∀ a, g (f a) = a) (hP : ∀ b, Q b → P (g b))
    (hinj : ∀ b b', Q b → Q b' → g b = g b' → b = b') : (c.map f g hback).Delimits Q := by
  intro b b' hb hb' s t heq
  obtain ⟨hg, hrest⟩ := h (hP b hb) (hP b' hb') heq
  exact ⟨hinj b b' hb hb' hg, hrest⟩

theorem Delimits.check {c : Codec α} {P : α → Prop} (h : c.Delimits P) (p : α → Prop)
    [DecidablePred p] : (c.check p).Delimits fun v => P v.1 := by
  intro v w hv hw s t heq
  obtain ⟨hvalue, hrest⟩ := h hv hw heq
  exact ⟨Subtype.ext hvalue, hrest⟩

theorem Delimits.pair {c : Codec α} {d : Codec β} {P : α → Prop} {Q : β → Prop} (hc : c.Delimits P)
    (hd : d.Delimits Q) : (c.pair d).Delimits fun v => P v.1 ∧ Q v.2 := by
  rintro ⟨a, b⟩ ⟨a', b'⟩ ⟨ha, hb⟩ ⟨ha', hb'⟩ s t heq
  change (c.write a ++ d.write b) ++ s = (c.write a' ++ d.write b') ++ t at heq
  rw [List.append_assoc, List.append_assoc] at heq
  obtain ⟨rfl, hsecond⟩ := hc ha ha' heq
  obtain ⟨rfl, hrest⟩ := hd hb hb' hsecond
  exact ⟨rfl, hrest⟩

/-- Lists of one length. -/
theorem Delimits.writeMany {c : Codec α} {P : α → Prop} (h : c.Delimits P) {l m : List α}
    (hlength : l.length = m.length) (hl : ∀ v ∈ l, P v) (hm : ∀ v ∈ m, P v) {s t : List UInt8}
    (heq : c.writeMany l ++ s = c.writeMany m ++ t) : l = m ∧ s = t := by
  induction l generalizing m with
  | nil =>
      cases m with
      | nil => exact ⟨rfl, heq⟩
      | cons w m => cases hlength
  | cons v l ih =>
      cases m with
      | nil => cases hlength
      | cons w m =>
          rw [writeMany_cons, writeMany_cons, List.append_assoc, List.append_assoc] at heq
          obtain ⟨rfl, hothers⟩ := h (hl v List.mem_cons_self) (hm w List.mem_cons_self) heq
          obtain ⟨rfl, hrest⟩ := ih (Nat.succ.inj hlength)
            (fun x hx => hl x (List.mem_cons_of_mem v hx))
            (fun x hx => hm x (List.mem_cons_of_mem v hx)) hothers
          exact ⟨rfl, hrest⟩

theorem Delimits.list {count : Codec Nat} {N : Nat → Prop} {c : Codec α} {P : α → Prop}
    (hcount : count.Delimits N) (hc : c.Delimits P) :
    (Codec.list count c).Delimits fun l => N l.length ∧ ∀ v ∈ l, P v := by
  rintro l m ⟨hn, hl⟩ ⟨hn', hm⟩ s t heq
  change (count.write l.length ++ c.writeMany l) ++ s =
    (count.write m.length ++ c.writeMany m) ++ t at heq
  rw [List.append_assoc, List.append_assoc] at heq
  obtain ⟨hlength, hrest⟩ := hcount hn hn' heq
  exact hc.writeMany hlength hl hm hrest

/-! ## Pods -/

/-- The values are the texts of one length. -/
structure IsPod (c : Codec α) (n : Nat) : Prop where
  delimits : c.Delimits fun _ => True
  length_write : ∀ v, (c.write v).length = n
  exists_read : ∀ s rest, s.length = n → ∃ v, c.read true (s ++ rest) = some (v, rest)

theorem IsPod.exists_parse {c : Codec α} {n : Nat} (h : c.IsPod n) {s : List UInt8}
    (hs : s.length = n) : ∃ v, c.parse false s = some v ∧ c.write v = s := by
  obtain ⟨v, hread⟩ := h.exists_read s [] hs
  rw [List.append_nil] at hread
  have hwrite := c.eq_of_strict hread
  rw [List.append_nil] at hwrite
  exact ⟨v, parse_eq_some.mpr (c.lax_of_strict hread), hwrite.symm⟩

theorem IsPod.parse_write {c : Codec α} {n : Nat} (h : c.IsPod n) (v : α) :
    c.parse false (c.write v) = some v := by
  obtain ⟨w, hparse, hwrite⟩ := h.exists_parse (h.length_write v)
  rwa [(h.delimits.write_inj trivial trivial).mp hwrite] at hparse

theorem isPod_byte : byte.IsPod 1 where
  delimits := delimits_byte
  length_write := fun _ => rfl
  exists_read := fun s rest hs => by
    obtain ⟨b, rfl⟩ := List.length_eq_one_iff.mp hs
    exact ⟨b, rfl⟩

theorem IsPod.map {c : Codec α} {n : Nat} (h : c.IsPod n) {f : α → β} {g : β → α}
    (hback : ∀ a, g (f a) = a) (hforth : ∀ b, f (g b) = b) : (c.map f g hback).IsPod n where
  delimits := h.delimits.map hback (fun _ _ => trivial) fun b b' _ _ hg => by
    rw [← hforth b, hg, hforth]
  length_write := fun b => h.length_write (g b)
  exists_read := fun s rest hs => by
    obtain ⟨a, hread⟩ := h.exists_read s rest hs
    exact ⟨f a, by simp [Codec.map, hread]⟩

theorem IsPod.pair {c : Codec α} {d : Codec β} {n m : Nat} (hc : c.IsPod n) (hd : d.IsPod m) :
    (c.pair d).IsPod (n + m) where
  delimits := (hc.delimits.pair hd.delimits).mono fun _ _ => ⟨trivial, trivial⟩
  length_write := fun v => by
    simp [Codec.pair, hc.length_write, hd.length_write]
  exists_read := fun s rest hs => by
    have hfirst : (s.take n).length = n := by
      rw [List.length_take]
      omega
    have hsecond : (s.drop n).length = m := by
      rw [List.length_drop]
      omega
    obtain ⟨a, ha⟩ := hc.exists_read (s.take n) (s.drop n ++ rest) hfirst
    obtain ⟨b, hb⟩ := hd.exists_read (s.drop n) rest hsecond
    rw [← List.append_assoc, List.take_append_drop] at ha
    exact ⟨(a, b), by simp [Codec.pair, ha, hb]⟩

end Codec
