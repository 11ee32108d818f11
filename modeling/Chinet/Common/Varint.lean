import Chinet.CurrencyBasic
import Mathlib.Tactic.Ring

/-!
# Variable-length integers

`write_varint` and `read_varint`: seven bits a byte, the lowest first, and a
continuation bit on all bytes but the last.
-/

namespace Chinet

/-- `write_varint`. -/
def writeVarint (i : Nat) : ByteString :=
  if i < 0x80 then [UInt8.ofNat i]
  else UInt8.ofNat (i % 0x80 + 0x80) :: writeVarint (i / 0x80)
termination_by i
decreasing_by omega

/-- What `read_varint` returns, the integer it has assembled and the bytes it leaves. -/
structure VarintRead where
  read : Int
  i : Nat
  rest : ByteString
deriving DecidableEq

/-- The loop of `read_varint` for an integer of `bits` bits.  The seven new bits lie
above those of `i`, so `|=` is an addition. -/
def readVarintLoop (bits : Nat) : (shift read i : Nat) → ByteString → VarintRead
  | _, read, i, [] => { read, i, rest := [] }
  | shift, read, i, byte :: rest =>
      if shift + 7 ≥ bits ∧ byte.toNat ≥ 2 ^ (bits - shift) then { read := -1, i, rest }
      else if byte = 0 ∧ shift ≠ 0 then { read := -2, i, rest }
      else
        let i := i + byte.toNat % 0x80 * 2 ^ shift
        if byte.toNat < 0x80 then { read := (read + 1 : Nat), i, rest }
        else readVarintLoop bits (shift + 7) (read + 1) i rest

/-- `read_varint`. -/
def readVarint (bits : Nat) (s : ByteString) : VarintRead := readVarintLoop bits 0 0 0 s

/-- `get_varint_packed_size`. -/
def getVarintPackedSize (v : Nat) : Nat :=
  if v ≤ 127 then 1
  else if v ≤ 16383 then 2
  else if v ≤ 2097151 then 3
  else if v ≤ 268435455 then 4
  else if v ≤ 34359738367 then 5
  else if v ≤ 4398046511103 then 6
  else if v ≤ 562949953421311 then 7
  else 8

/-! ## Reading what was written -/

theorem writeVarint_of_lt {i : Nat} (h : i < 0x80) : writeVarint i = [UInt8.ofNat i] := by
  rw [writeVarint, if_pos h]

theorem writeVarint_of_ge {i : Nat} (h : 0x80 ≤ i) :
    writeVarint i = UInt8.ofNat (i % 0x80 + 0x80) :: writeVarint (i / 0x80) := by
  rw [writeVarint, if_neg (by omega)]

theorem toNat_lastByte {i : Nat} (h : i < 0x80) : (UInt8.ofNat i).toNat = i :=
  UInt8.toNat_ofNat_of_lt' (by change i < 256; omega)

theorem toNat_continuedByte (i : Nat) :
    (UInt8.ofNat (i % 0x80 + 0x80)).toNat = i % 0x80 + 0x80 :=
  UInt8.toNat_ofNat_of_lt' (by change i % 0x80 + 0x80 < 256; omega)

theorem length_writeVarint_pos (i : Nat) : 0 < (writeVarint i).length := by
  rw [writeVarint]
  split <;> simp

/-- A written integer is read to its end, whatever follows. -/
theorem readVarintLoop_writeVarint {bits shift v : Nat} (read i : Nat) (rest : ByteString)
    (hbits : shift < bits) (hv : v < 2 ^ (bits - shift)) (hne : shift ≠ 0 → v ≠ 0) :
    readVarintLoop bits shift read i (writeVarint v ++ rest) =
      { read := (read + (writeVarint v).length : Nat), i := i + v * 2 ^ shift, rest } := by
  induction v using Nat.strongRecOn generalizing shift read i with
  | ind v ih =>
      rcases lt_or_ge v 0x80 with hlt | hge
      · have hzero : UInt8.ofNat v = 0 ↔ v = 0 := by
          rw [← UInt8.toNat_inj, toNat_lastByte hlt]
          rfl
        rw [writeVarint_of_lt hlt, List.singleton_append, readVarintLoop, toNat_lastByte hlt,
          if_neg (by omega), if_neg (by rw [hzero]; tauto), if_pos hlt, Nat.mod_eq_of_lt hlt]
        rfl
      · have hbyte := toNat_continuedByte v
        have hroom : shift + 7 < bits := by
          by_contra hle
          have hpow : 2 ^ (bits - shift) ≤ 2 ^ 7 := Nat.pow_le_pow_right (by omega) (by omega)
          omega
        have hdiv : v / 0x80 < 2 ^ (bits - (shift + 7)) := by
          rw [show bits - shift = bits - (shift + 7) + 7 by omega, pow_add] at hv
          omega
        have hzero : UInt8.ofNat (v % 0x80 + 0x80) ≠ 0 := by
          intro heq
          rw [heq] at hbyte
          change 0 = v % 0x80 + 0x80 at hbyte
          omega
        have hrest := ih (v / 0x80) (by omega) (read + 1) (i + v % 0x80 * 2 ^ shift) hroom hdiv
          (by omega)
        have hvalue : i + v % 0x80 * 2 ^ shift + v / 0x80 * 2 ^ (shift + 7) = i + v * 2 ^ shift := by
          have hsplit := Nat.div_add_mod v 0x80
          calc i + v % 0x80 * 2 ^ shift + v / 0x80 * 2 ^ (shift + 7)
              = i + (0x80 * (v / 0x80) + v % 0x80) * 2 ^ shift := by rw [pow_add]; ring
            _ = i + v * 2 ^ shift := by rw [hsplit]
        rw [writeVarint_of_ge hge, List.cons_append, readVarintLoop, hbyte, if_neg (by omega),
          if_neg (by tauto), if_neg (by omega), Nat.add_mod_right, Nat.mod_mod, hrest, hvalue,
          List.length_cons]
        congr 2
        omega

theorem readVarint_writeVarint {bits v : Nat} (rest : ByteString) (hbits : 0 < bits)
    (hv : v < 2 ^ bits) :
    readVarint bits (writeVarint v ++ rest) =
      { read := (writeVarint v).length, i := v, rest } := by
  rw [readVarint, readVarintLoop_writeVarint 0 0 rest hbits hv (by omega)]
  simp

/-! ## What can be read -/

/-- A varint that the end of the input cuts off: `read_varint` returns the number of its
bytes as if it were complete. -/
def TruncatedVarint (bits : Nat) (s : ByteString) : Prop :=
  (∀ byte ∈ s, 0x80 ≤ byte.toNat) ∧ s.length * 7 < bits

instance (bits : Nat) (s : ByteString) : Decidable (TruncatedVarint bits s) :=
  @instDecidableAnd _ _ (List.decidableBAll _ s) inferInstance

/-- A read without an error found a written integer, or ran into the end of the input. -/
theorem readVarintLoop_cases {bits shift read i : Nat} {s : ByteString} (hbits : shift < bits)
    (h : 0 ≤ (readVarintLoop bits shift read i s).read) :
    (∃ v rest, s = writeVarint v ++ rest ∧ v < 2 ^ (bits - shift) ∧ (shift ≠ 0 → v ≠ 0)) ∨
      (∀ byte ∈ s, 0x80 ≤ byte.toNat) ∧ shift + s.length * 7 < bits := by
  induction s generalizing shift read i with
  | nil => exact .inr ⟨nofun, by simpa using hbits⟩
  | cons byte s ih =>
      rw [readVarintLoop] at h
      split at h
      · exact absurd h (Int.negSucc_not_nonneg 0).mp
      · rename_i hfits
        split at h
        · exact absurd h (Int.negSucc_not_nonneg 1).mp
        · rename_i hcanonical
          have hbyte := byte.toNat_lt
          split at h
          · rename_i hlast
            refine .inl ⟨byte.toNat, s, ?_, ?_, fun hshift hzero => ?_⟩
            · rw [writeVarint_of_lt hlast, UInt8.ofNat_toNat, List.singleton_append]
            · rcases lt_or_ge (shift + 7) bits with hlt | hge
              · calc byte.toNat < 2 ^ 7 := hlast
                  _ ≤ 2 ^ (bits - shift) := Nat.pow_le_pow_right (by omega) (by omega)
              · have hsmall := not_and.mp hfits hge
                omega
            · exact hcanonical ⟨UInt8.toNat_inj.mp hzero, hshift⟩
          · rename_i hcontinued
            have hroom : shift + 7 < bits := by
              by_contra hle
              have hsmall := not_and.mp hfits (by omega)
              have hpow : 2 ^ (bits - shift) ≤ 2 ^ 7 := Nat.pow_le_pow_right (by omega) (by omega)
              omega
            rcases ih hroom h with ⟨v, rest, hs, hv, hne⟩ | ⟨hall, hlength⟩
            · have hv0 := hne (by omega)
              refine .inl ⟨v * 0x80 + byte.toNat % 0x80, rest, ?_, ?_, by omega⟩
              · have hge : 0x80 ≤ v * 0x80 + byte.toNat % 0x80 := by omega
                have hdiv : (v * 0x80 + byte.toNat % 0x80) / 0x80 = v := by omega
                have hmod : (v * 0x80 + byte.toNat % 0x80) % 0x80 + 0x80 = byte.toNat := by omega
                rw [writeVarint_of_ge hge, hdiv, hmod, UInt8.ofNat_toNat, List.cons_append, hs]
              · rw [show bits - shift = bits - (shift + 7) + 7 by omega, pow_add]
                omega
            · refine .inr ⟨?_, ?_⟩
              · intro b hb
                rcases List.mem_cons.mp hb with rfl | hb
                · omega
                · exact hall b hb
              · rw [List.length_cons]
                omega

theorem readVarint_cases {bits : Nat} {s : ByteString} (hbits : 0 < bits)
    (h : 0 ≤ (readVarint bits s).read) :
    (∃ v rest, s = writeVarint v ++ rest ∧ v < 2 ^ bits) ∨ TruncatedVarint bits s := by
  rcases readVarintLoop_cases hbits h with ⟨v, rest, hs, hv, _⟩ | ⟨hall, hlength⟩
  · exact .inl ⟨v, rest, hs, hv⟩
  · exact .inr ⟨hall, by omega⟩

/-- A truncated integer is read without an error. -/
theorem readVarintLoop_truncated {bits shift : Nat} (read i : Nat) {s : ByteString}
    (hall : ∀ byte ∈ s, 0x80 ≤ byte.toNat) (hlength : shift + s.length * 7 < bits) :
    (readVarintLoop bits shift read i s).read = (read + s.length : Nat) := by
  induction s generalizing shift read i with
  | nil => rfl
  | cons byte s ih =>
      have hbyte := hall byte List.mem_cons_self
      rw [List.length_cons] at hlength ⊢
      have hne : byte ≠ 0 := by
        rintro rfl
        exact absurd hbyte (by decide)
      rw [readVarintLoop, if_neg (by omega), if_neg (by tauto), if_neg (by omega)]
      rw [ih (read + 1) _ (fun b hb => hall b (List.mem_cons_of_mem _ hb)) (by omega)]
      congr 1
      omega

theorem readVarint_truncated {bits : Nat} {s : ByteString} (h : TruncatedVarint bits s) :
    (readVarint bits s).read = s.length := by
  rw [readVarint, readVarintLoop_truncated 0 0 h.1 (by have := h.2; omega)]
  simp

/-- A written integer ends with a byte that has no continuation bit. -/
theorem exists_lastByte_mem_writeVarint (v : Nat) : ∃ byte ∈ writeVarint v, byte.toNat < 0x80 := by
  induction v using Nat.strongRecOn with
  | ind v ih =>
      rcases lt_or_ge v 0x80 with hlt | hge
      · rw [writeVarint_of_lt hlt]
        exact ⟨_, List.mem_singleton_self _, by rw [toNat_lastByte hlt]; exact hlt⟩
      · rw [writeVarint_of_ge hge]
        obtain ⟨byte, hmem, hbyte⟩ := ih (v / 0x80) (by omega)
        exact ⟨byte, List.mem_cons_of_mem _ hmem, hbyte⟩

/-! ## The size of what is written -/

theorem length_writeVarint_le {n v : Nat} (h : v < 128 ^ (n + 1)) :
    (writeVarint v).length ≤ n + 1 := by
  induction n generalizing v with
  | zero =>
      rw [writeVarint_of_lt (by omega)]
      rfl
  | succ n ih =>
      rcases lt_or_ge v 0x80 with hlt | hge
      · rw [writeVarint_of_lt hlt, List.length_singleton]
        omega
      · rw [pow_succ] at h
        rw [writeVarint_of_ge hge, List.length_cons]
        have hrest := ih (show v / 0x80 < 128 ^ (n + 1) by omega)
        omega

theorem length_writeVarint {n v : Nat} (hlow : n = 0 ∨ 128 ^ n ≤ v) (hhigh : v < 128 ^ (n + 1)) :
    (writeVarint v).length = n + 1 := by
  induction n generalizing v with
  | zero =>
      rw [writeVarint_of_lt (by omega)]
      rfl
  | succ n ih =>
      have hge : 128 ^ (n + 1) ≤ v := by
        rcases hlow with hzero | hge
        · omega
        · exact hge
      have hpow : 128 ^ (n + 1) = 128 ^ n * 128 := pow_succ _ _
      have hpow' : 128 ^ (n + 2) = 128 ^ (n + 1) * 128 := pow_succ _ _
      have hpos : 0 < 128 ^ n := Nat.pow_pos (by decide)
      rw [writeVarint_of_ge (by omega), List.length_cons, ih (Or.inr (by omega)) (by omega)]

/-- Below `2 ^ 56` the table gives the number of bytes that are written. -/
theorem getVarintPackedSize_eq {v : Nat} (h : v < 2 ^ 56) :
    getVarintPackedSize v = (writeVarint v).length := by
  unfold getVarintPackedSize
  split
  · rw [@length_writeVarint 0 v (by omega) (by omega)]
  split
  · rw [@length_writeVarint 1 v (by omega) (by omega)]
  split
  · rw [@length_writeVarint 2 v (by omega) (by omega)]
  split
  · rw [@length_writeVarint 3 v (by omega) (by omega)]
  split
  · rw [@length_writeVarint 4 v (by omega) (by omega)]
  split
  · rw [@length_writeVarint 5 v (by omega) (by omega)]
  split
  · rw [@length_writeVarint 6 v (by omega) (by omega)]
  · rw [@length_writeVarint 7 v (by omega) (by omega)]

/-- From `2 ^ 56` on nine or ten bytes are written, and the table stops at eight. -/
theorem getVarintPackedSize_lt {v : Nat} (h : 2 ^ 56 ≤ v) (h64 : v < 2 ^ 64) :
    getVarintPackedSize v < (writeVarint v).length := by
  have hsize : getVarintPackedSize v ≤ 8 := by
    unfold getVarintPackedSize
    repeat' split
    all_goals omega
  have hlength : 9 ≤ (writeVarint v).length := by
    rcases Nat.lt_or_ge v (128 ^ 9) with hlt | hge
    · rw [@length_writeVarint 8 v (by omega) hlt]
    · rw [@length_writeVarint 9 v (by omega) (by omega)]
      decide
  omega

theorem getVarintPackedSize_eq_iff (n : UInt64) :
    getVarintPackedSize n.toNat = (writeVarint n.toNat).length ↔ n.toNat < 2 ^ 56 := by
  constructor
  · intro hsize
    by_contra hge
    have hlt := getVarintPackedSize_lt (Nat.le_of_not_lt hge) n.toNat_lt
    omega
  · exact getVarintPackedSize_eq

/-! ## The codec as a whole -/

/-- An input that begins with a written integer of at most `bits` bits. -/
def StartsWithVarint (bits : Nat) (s : ByteString) : Prop :=
  ∃ v rest, v < 2 ^ bits ∧ s = writeVarint v ++ rest

/-- No bits are enough for zero, and for nothing else. -/
theorem startsWithVarint_of_zero_bits {s : ByteString} (h : 0 < (readVarint 0 s).read) :
    StartsWithVarint 0 s := by
  cases s with
  | nil => exact absurd h (by decide)
  | cons byte rest =>
      rw [readVarint, readVarintLoop] at h
      split at h
      · exact absurd h (Int.negSucc_not_pos 0).mp
      · rename_i hsmall
        have hzero : byte = 0 := UInt8.toNat_inj.mp (by simpa using hsmall)
        rw [hzero]
        exact ⟨0, rest, by decide, by rw [writeVarint_of_lt (by decide)]; rfl⟩

/-- A truncated integer does not begin with a written one. -/
theorem not_startsWithVarint_of_truncated {bits : Nat} {s : ByteString} (h : TruncatedVarint bits s) :
    ¬ StartsWithVarint bits s := by
  rintro ⟨v, rest, _, rfl⟩
  obtain ⟨byte, hmem, hbyte⟩ := exists_lastByte_mem_writeVarint v
  have hcontinued := h.1 byte (List.mem_append_left rest hmem)
  omega

/-- A positive length says that an integer was read, unless the end of the input cut it off. -/
theorem positive_read_iff (bits : Nat) (s : ByteString) :
    (0 < (readVarint bits s).read → StartsWithVarint bits s) ↔ ¬ (TruncatedVarint bits s ∧ s ≠ []) := by
  constructor
  · rintro hread ⟨htruncated, hne⟩
    refine not_startsWithVarint_of_truncated htruncated (hread ?_)
    rw [readVarint_truncated htruncated]
    exact Int.natCast_pos.mpr (List.length_pos_iff.mpr hne)
  · intro hwhole hread
    rcases Nat.eq_zero_or_pos bits with rfl | hbits
    · exact startsWithVarint_of_zero_bits hread
    · rcases readVarint_cases hbits hread.le with ⟨v, rest, hs, hv⟩ | htruncated
      · exact ⟨v, rest, hv, hs⟩
      · have hnil : s = [] := by
          by_contra hne
          exact hwhole ⟨htruncated, hne⟩
        rw [hnil] at hread
        exact absurd hread (lt_irrefl 0)

/-- What the codec promises about an integer, about the bytes behind it and about an input. -/
structure VarintExact (n : UInt64) (rest : ByteString) (bits : Nat) (s : ByteString) : Prop where
  written : readVarint 64 (writeVarint n.toNat ++ rest) =
    { read := (writeVarint n.toNat).length, i := n.toNat, rest }
  complete : 0 < (readVarint bits s).read → StartsWithVarint bits s
  size : getVarintPackedSize n.toNat = (writeVarint n.toNat).length

/-- The codec is exact for integers of at most eight bytes and inputs that do not end inside of an
integer. -/
theorem varintExact_iff (n : UInt64) (rest : ByteString) (bits : Nat) (s : ByteString) :
    VarintExact n rest bits s ↔ n.toNat < 2 ^ 56 ∧ ¬ (TruncatedVarint bits s ∧ s ≠ []) := by
  rw [← getVarintPackedSize_eq_iff, ← positive_read_iff]
  constructor
  · intro h
    exact ⟨h.size, h.complete⟩
  · rintro ⟨hsize, hcomplete⟩
    exact ⟨readVarint_writeVarint rest (by decide) n.toNat_lt, hcomplete, hsize⟩

/-- `2 ^ 56` takes nine bytes; the single byte `80` is read as if an integer ended there. -/
theorem varint_not_exact : ¬ VarintExact (2 ^ 56) [] 64 [] ∧ ¬ VarintExact 0 [] 64 [0x80] := by
  refine ⟨fun h => ?_, fun h => ?_⟩
  · have hsize := h.size
    have hlength : (writeVarint (2 ^ 56)).length = 9 := @length_writeVarint 8 _ (by decide) (by decide)
    have hvalue : (2 ^ 56 : UInt64).toNat = 2 ^ 56 := by decide
    rw [hvalue, hlength] at hsize
    exact absurd hsize (by decide)
  · exact not_startsWithVarint_of_truncated (by decide) (h.complete (by decide))

end Chinet
