import Chinet.Common.Varint
import Chinet.Lib.Delimited

/-!
# The binary archive

The reader of `binary_archive.h` ignores what `read_varint` returns: the integer goes on with the
bits that were assembled before an error, or before the end of the input.  Its strict reader takes
a varint only as `write_varint` writes it.  A read that leaves the stream bad ends every
serialization with `false`, so it has no result here.
-/

namespace Chinet

/-! ## Integers and pods -/

def natOfBytes : ByteString → Nat
  | [] => 0
  | byte :: rest => byte.toNat + 256 * natOfBytes rest

def bytesOfNat : Nat → Nat → ByteString
  | 0, _ => []
  | n + 1, v => UInt8.ofNat (v % 256) :: bytesOfNat n (v / 256)

theorem bytesOfNat_natOfBytes (s : ByteString) : bytesOfNat s.length (natOfBytes s) = s := by
  induction s with
  | nil => rfl
  | cons byte rest ih =>
      have hbyte := byte.toNat_lt
      have hmod : (byte.toNat + 256 * natOfBytes rest) % 256 = byte.toNat := by omega
      have hdiv : (byte.toNat + 256 * natOfBytes rest) / 256 = natOfBytes rest := by omega
      rw [List.length_cons, natOfBytes, bytesOfNat, hmod, hdiv, UInt8.ofNat_toNat, ih]

theorem length_bytesOfNat (n v : Nat) : (bytesOfNat n v).length = n := by
  induction n generalizing v with
  | zero => rfl
  | succ n ih => rw [bytesOfNat, List.length_cons, ih]

theorem natOfBytes_bytesOfNat (n v : Nat) : natOfBytes (bytesOfNat n v) = v % 2 ^ (8 * n) := by
  induction n generalizing v with
  | zero => simp [bytesOfNat, natOfBytes, Nat.mod_one]
  | succ n ih =>
      have hbyte : (UInt8.ofNat (v % 256)).toNat = v % 256 :=
        UInt8.toNat_ofNat_of_lt (Nat.mod_lt v (by decide))
      have hpow : 2 ^ (8 * (n + 1)) = 256 * 2 ^ (8 * n) := by
        rw [Nat.mul_succ, Nat.pow_add, Nat.mul_comm]
      rw [bytesOfNat, natOfBytes, hbyte, ih, hpow, Nat.mod_mul]

theorem natOfBytes_lt (s : ByteString) : natOfBytes s < 2 ^ (8 * s.length) := by
  induction s with
  | nil => exact Nat.one_pos
  | cons byte rest ih =>
      have hbyte := byte.toNat_lt
      rw [natOfBytes, List.length_cons, Nat.mul_succ, Nat.pow_add]
      omega

/-- The bytes of an integer, lowest first, are those it was read from. -/
theorem bytesOfNat_toNat_ofNat {n : Nat} {s : ByteString} (hn : s.length = n) :
    bytesOfNat n (BitVec.ofNat (8 * n) (natOfBytes s)).toNat = s := by
  subst hn
  rw [BitVec.toNat_ofNat, Nat.mod_eq_of_lt (natOfBytes_lt s), bytesOfNat_natOfBytes]

/-- `serialize_uint` for an integer of `n` bytes, the lowest first. -/
def serializeUint (n : Nat) : Codec (BitVec (8 * n)) :=
  Codec.exact
    (fun s =>
      if s.length < n then none
      else some (BitVec.ofNat (8 * n) (natOfBytes (s.take n)), s.drop n))
    (fun v => bytesOfNat n v.toNat)
    fun {s} _ _ h => by
      split at h
      · cases h
      · rename_i hlength
        simp only [Option.some.injEq, Prod.mk.injEq] at h
        have htake : (s.take n).length = n := by
          rw [List.length_take]
          omega
        rw [← h.1, ← h.2, bytesOfNat_toNat_ofNat htake, List.take_append_drop]

/-- `serialize_blob` for a pod of `n` bytes. -/
def serializeBlob (n : Nat) : Codec (BitVec (8 * n)) :=
  Codec.exact
    (fun s =>
      if s.length < n then none
      else some (BitVec.ofNat (8 * n) (natOfBytes (s.take n).reverse), s.drop n))
    (fun v => (bytesOfNat n v.toNat).reverse)
    fun {s} _ _ h => by
      split at h
      · cases h
      · rename_i hlength
        simp only [Option.some.injEq, Prod.mk.injEq] at h
        have htake : (s.take n).reverse.length = n := by
          rw [List.length_reverse, List.length_take]
          omega
        rw [← h.1, ← h.2, bytesOfNat_toNat_ofNat htake, List.reverse_reverse,
          List.take_append_drop]

/-! ## Varints -/

theorem not_truncatedVarint (bits v : Nat) (rest : ByteString) :
    ¬ TruncatedVarint bits (writeVarint v ++ rest) := by
  intro h
  obtain ⟨byte, hmem, hbyte⟩ := exists_lastByte_mem_writeVarint v
  have hge := h.1 byte (List.mem_append_left rest hmem)
  omega

/-- `serialize_uvarint` for an unsigned type of `bits` bits. -/
def serializeUvarint (bits : Nat) (hbits : 0 < bits) : Codec (BitVec bits) where
  read strict s :=
    if strict = true ∧ ((readVarint bits s).read < 0 ∨ TruncatedVarint bits s) then none
    else some (BitVec.ofNat bits (readVarint bits s).i, (readVarint bits s).rest)
  write v := writeVarint v.toNat
  lax_of_strict h := by
    split at h
    · cases h
    · rwa [if_neg fun hstrict => absurd hstrict.1 Bool.noConfusion]
  eq_of_strict {s _ _} h := by
    split at h
    · cases h
    · rename_i hsound
      have hread : 0 ≤ (readVarint bits s).read := by
        by_contra hneg
        exact hsound ⟨rfl, Or.inl (by omega)⟩
      rcases readVarint_cases hbits hread with ⟨v, rest, hs, hv⟩ | htruncated
      · rw [hs, readVarint_writeVarint rest hbits hv] at h
        simp only [Option.some.injEq, Prod.mk.injEq] at h
        rw [hs, ← h.1, ← h.2, BitVec.toNat_ofNat, Nat.mod_eq_of_lt hv]
      · exact absurd ⟨rfl, Or.inr htruncated⟩ hsound
  strict_of_eq {s v _ after} h hs := by
    rw [if_neg fun hstrict => absurd hstrict.1 Bool.noConfusion] at h
    rw [if_neg]
    · exact h
    · rintro ⟨-, hneg | htruncated⟩
      · rw [hs, readVarint_writeVarint after hbits v.isLt] at hneg
        exact absurd hneg (by simp)
      · rw [hs] at htruncated
        exact not_truncatedVarint bits v.toNat after htruncated

/-- A varint of a field that the model keeps as a number. -/
def varintField (bits : Nat) (hbits : 0 < bits) : Codec Nat :=
  (serializeUvarint bits hbits).map BitVec.toNat (BitVec.ofNat bits) fun v => by
    rw [BitVec.ofNat_toNat, BitVec.setWidth_eq]

def uint64Field : Codec Nat := varintField 64 (Nat.zero_lt_succ 63)

def uint64Varint : Codec UInt64 :=
  (serializeUvarint 64 (Nat.zero_lt_succ 63)).map UInt64.ofBitVec UInt64.toBitVec fun _ => rfl

/-! ## Containers -/

/-- `do_serialize` of a `std::vector`, with the check of the remaining bytes. -/
def serializeVector {α : Type} (element : Codec α) : Codec (List α) :=
  uint64Field.list element

/-- `do_serialize` of a `std::string`. -/
def serializeString : Codec ByteString := serializeVector Codec.byte

/-! ## Where a text ends -/

theorem bytesOfNat_inj {n : Nat} {v w : BitVec (8 * n)}
    (h : bytesOfNat n v.toNat = bytesOfNat n w.toNat) : v = w := by
  have hnat := congrArg natOfBytes h
  rw [natOfBytes_bytesOfNat, natOfBytes_bytesOfNat, Nat.mod_eq_of_lt v.isLt,
    Nat.mod_eq_of_lt w.isLt] at hnat
  exact BitVec.eq_of_toNat_eq hnat

theorem delimits_serializeBlob (n : Nat) : (serializeBlob n).Delimits fun _ => True := by
  refine Codec.delimits_of_length (n := n) (fun v => ?_) fun v w h => ?_
  · change (bytesOfNat n v.toNat).reverse.length = n
    rw [List.length_reverse, length_bytesOfNat]
  · exact bytesOfNat_inj (List.reverse_injective h)

theorem isPod_serializeBlob (n : Nat) : (serializeBlob n).IsPod n where
  delimits := delimits_serializeBlob n
  length_write := fun v => by
    change (bytesOfNat n v.toNat).reverse.length = n
    rw [List.length_reverse, length_bytesOfNat]
  exists_read := fun s rest hs => by
    have hlength : ¬ (s ++ rest).length < n := by
      rw [List.length_append]
      omega
    exact ⟨_, by
      change (if (s ++ rest).length < n then none else some (_, (s ++ rest).drop n)) = _
      rw [if_neg hlength, List.drop_left' hs]⟩

theorem delimits_serializeUint (n : Nat) : (serializeUint n).Delimits fun _ => True := by
  refine Codec.delimits_of_length (n := n) (fun v => ?_) fun v w h => bytesOfNat_inj h
  change (bytesOfNat n v.toNat).length = n
  rw [length_bytesOfNat]

theorem delimits_serializeUvarint (bits : Nat) (hbits : 0 < bits) :
    (serializeUvarint bits hbits).Delimits fun _ => True := by
  intro v w _ _ s t heq
  change writeVarint v.toNat ++ s = writeVarint w.toNat ++ t at heq
  have hread := readVarint_writeVarint s hbits v.isLt
  rw [heq, readVarint_writeVarint t hbits w.isLt] at hread
  simp only [VarintRead.mk.injEq] at hread
  exact ⟨BitVec.eq_of_toNat_eq hread.2.1.symm, hread.2.2.symm⟩

/-- A number of a varint field is one of its type. -/
theorem delimits_varintField (bits : Nat) (hbits : 0 < bits) :
    (varintField bits hbits).Delimits (· < 2 ^ bits) := by
  refine (delimits_serializeUvarint bits hbits).map _ (fun _ _ => trivial) fun v w hv hw heq => ?_
  have hnat := congrArg BitVec.toNat heq
  rwa [BitVec.toNat_ofNat, BitVec.toNat_ofNat, Nat.mod_eq_of_lt hv, Nat.mod_eq_of_lt hw] at hnat

theorem delimits_serializeVector {α : Type} {element : Codec α} {P : α → Prop}
    (h : element.Delimits P) :
    (serializeVector element).Delimits fun l => l.length < 2 ^ 64 ∧ ∀ v ∈ l, P v :=
  (delimits_varintField 64 _).list h

theorem delimits_serializeString : serializeString.Delimits fun s => s.length < 2 ^ 64 :=
  (delimits_serializeVector Codec.delimits_byte).mono fun _ h => ⟨h, fun _ _ => trivial⟩

/-! ## Objects -/

/-- `t_unserializable_object_from_blob`: no byte may be left. -/
def tUnserializableObjectFromBlob {α : Type} (object : Codec α) (blob : ByteString) : Option α :=
  object.parse false blob

/-- `t_serializable_object_to_blob`. -/
def tSerializableObjectToBlob {α : Type} (object : Codec α) (v : α) : ByteString := object.write v

/-- Each varint of the object is there as `write_varint` writes it: complete, minimal and within
its type. -/
def VarintsWellFormed {α : Type} (object : Codec α) (blob : ByteString) : Prop :=
  (object.parse true blob).isSome = true

instance {α : Type} (object : Codec α) (blob : ByteString) :
    Decidable (VarintsWellFormed object blob) :=
  inferInstanceAs (Decidable (_ = true))

end Chinet
