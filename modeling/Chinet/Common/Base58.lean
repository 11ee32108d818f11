import Chinet.Common.Varint
import Chinet.Lib.FixedDigits

/-!
# Base58

`tools::base58`: blocks of eight bytes become eleven letters, and the bytes that are left
become as many letters as they need.  An address is a tag, the data and a checksum.
-/

namespace Chinet.Base58

open FixedDigits

/-! ## The alphabet -/

def alphabet : ByteString :=
  ['1', '2', '3', '4', '5', '6', '7', '8', '9', 'A', 'B', 'C', 'D', 'E', 'F', 'G', 'H', 'J', 'K',
    'L', 'M', 'N', 'P', 'Q', 'R', 'S', 'T', 'U', 'V', 'W', 'X', 'Y', 'Z', 'a', 'b', 'c', 'd', 'e',
    'f', 'g', 'h', 'i', 'j', 'k', 'm', 'n', 'o', 'p', 'q', 'r', 's', 't', 'u', 'v', 'w', 'x', 'y',
    'z'].map fun c => UInt8.ofNat c.toNat

def alphabetSize : Nat := 58

def encodedBlockSizes : List Nat := [0, 2, 3, 5, 6, 7, 9, 10, 11]

def fullBlockSize : Nat := 8

def fullEncodedBlockSize : Nat := 11

def addrChecksumSize : Nat := 4

/-- `reverse_alphabet`; none for a foreign symbol. -/
def reverseAlphabet (letter : UInt8) : Option Nat := alphabet.idxOf? letter

/-- `decoded_block_sizes`; none for an invalid size. -/
def decodedBlockSizes (encodedBlockSize : Nat) : Option Nat := encodedBlockSizes.idxOf? encodedBlockSize

/-! ## Blocks -/

/-- `uint_8be_to_64`. -/
def uint8beTo64 (data : ByteString) : Nat := ofDigits 256 (data.map UInt8.toNat)

/-- `uint_64_to_8be`. -/
def uint64To8be (num size : Nat) : ByteString := (toDigits 256 size num).map UInt8.ofNat

/-- `encode_block`.  The loop of the source stops at zero and the letters in front keep
the value they were filled with, the one for zero. -/
def encodeBlock (block : ByteString) : ByteString :=
  (toDigits alphabetSize (encodedBlockSizes.getD block.length 0) (uint8beTo64 block)).map
    fun digit => alphabet.getD digit 0

/-- The loop of `decode_block`, given the letters from the last one down. -/
def decodeBlockLoop : ByteString → (resNum order : Nat) → Option Nat
  | [], resNum, _ => some resNum
  | letter :: rest, resNum, order =>
      match reverseAlphabet letter with
      | none => none
      | some digit =>
          let tmp := resNum + order * digit
          if tmp ≥ 2 ^ 64 then none
          else decodeBlockLoop rest tmp (order * alphabetSize % 2 ^ 64)

/-- `decode_block`. -/
def decodeBlock (block : ByteString) : Option ByteString :=
  match decodedBlockSizes block.length with
  | none => none
  | some resSize =>
      if resSize = 0 then none
      else
        match decodeBlockLoop block.reverse 0 1 with
        | none => none
        | some resNum =>
            if resSize < fullBlockSize ∧ 2 ^ (8 * resSize) ≤ resNum then none
            else some (uint64To8be resNum resSize)

/-! ## Texts -/

/-- `encode`. -/
def encode (data : ByteString) : ByteString :=
  let fullBlockCount := data.length / fullBlockSize
  let lastBlockSize := data.length % fullBlockSize
  ((List.range fullBlockCount).flatMap fun i =>
    encodeBlock ((data.drop (i * fullBlockSize)).take fullBlockSize)) ++
  if 0 < lastBlockSize then encodeBlock (data.drop (fullBlockCount * fullBlockSize)) else []

/-- The full blocks of `decode`, from number `i` on. -/
def decodeFullBlocks (enc : ByteString) : (count i : Nat) → Option ByteString
  | 0, _ => some []
  | count + 1, i => do
      let block ← decodeBlock ((enc.drop (i * fullEncodedBlockSize)).take fullEncodedBlockSize)
      let rest ← decodeFullBlocks enc count (i + 1)
      return block ++ rest

/-- `decode`. -/
def decode (enc : ByteString) : Option ByteString :=
  let fullBlockCount := enc.length / fullEncodedBlockSize
  let lastBlockSize := enc.length % fullEncodedBlockSize
  match decodedBlockSizes lastBlockSize with
  | none => none
  | some _ => do
      let full ← decodeFullBlocks enc fullBlockCount 0
      let last ←
        if 0 < lastBlockSize then decodeBlock (enc.drop (fullBlockCount * fullEncodedBlockSize))
        else some []
      return full ++ last

/-! ## Addresses -/

section

variable (cnFastHash : ByteString → Vector UInt8 32)

/-- The first bytes of `cn_fast_hash`. -/
def checksum (buf : ByteString) : ByteString := (cnFastHash buf).toList.take addrChecksumSize

/-- `encode_addr`. -/
def encodeAddr (tag : UInt64) (data : ByteString) : ByteString :=
  let buf := writeVarint tag.toNat ++ data
  encode (buf ++ checksum cnFastHash buf)

/-- `decode_addr`. -/
def decodeAddr (addr : ByteString) : Option (UInt64 × ByteString) :=
  match decode addr with
  | none => none
  | some addrData =>
      if addrData.length ≤ addrChecksumSize then none
      else
        let buf := addrData.take (addrData.length - addrChecksumSize)
        if checksum cnFastHash buf ≠ addrData.drop (addrData.length - addrChecksumSize) then none
        else
          let tag := readVarint 64 buf
          if tag.read ≤ 0 then none
          else some (UInt64.ofNat tag.i, buf.drop tag.read.toNat)

end

/-! ## Letters and digits -/

theorem reverseAlphabet_alphabet : ∀ digit < alphabetSize,
    reverseAlphabet (alphabet.getD digit 0) = some digit := by
  decide

theorem reverseAlphabet_eq_some {letter : UInt8} {digit : Nat} (h : reverseAlphabet letter = some digit) :
    digit < alphabetSize ∧ alphabet.getD digit 0 = letter := by
  rw [reverseAlphabet, List.idxOf?_eq_some_iff] at h
  obtain ⟨hlt, hletter, _⟩ := h
  refine ⟨hlt, ?_⟩
  rw [List.getD_eq_getElem?_getD, List.getElem?_eq_getElem hlt, Option.getD_some]
  simpa using hletter

/-- The sizes: a block fits into its letters, and the letters are not fewer than it needs. -/
theorem blockSizes : ∀ size ≤ fullBlockSize, 256 ^ size ≤ alphabetSize ^ encodedBlockSizes.getD size 0 ∧
    decodedBlockSizes (encodedBlockSizes.getD size 0) = some size ∧
    encodedBlockSizes.getD size 0 ≤ fullEncodedBlockSize := by
  decide

theorem decodedBlockSizes_eq_some {n size : Nat} (h : decodedBlockSizes n = some size) :
    size ≤ fullBlockSize ∧ n = encodedBlockSizes.getD size 0 := by
  rw [decodedBlockSizes, List.idxOf?_eq_some_iff] at h
  obtain ⟨hlt, hn, _⟩ := h
  refine ⟨Nat.le_of_lt_succ hlt, ?_⟩
  rw [List.getD_eq_getElem?_getD, List.getElem?_eq_getElem hlt, Option.getD_some]
  simpa using hn.symm

/-! ## One block -/

/-- The loop computes the value of the numeral, unless a letter is foreign or the value
does not fit into 64 bits. -/
theorem decodeBlockLoop_eq_some {letters : ByteString} {k resNum value : Nat}
    (hk : letters.length + k ≤ fullEncodedBlockSize) (hres : resNum < 2 ^ 64) :
    decodeBlockLoop letters resNum (alphabetSize ^ k % 2 ^ 64) = some value ↔
      ∃ digits : List Nat, (∀ digit ∈ digits, digit < alphabetSize) ∧
        letters = (digits.map fun digit => alphabet.getD digit 0).reverse ∧
        value = resNum + ofDigits alphabetSize digits * alphabetSize ^ k ∧ value < 2 ^ 64 := by
  induction letters generalizing k resNum with
  | nil =>
      rw [decodeBlockLoop, Option.some.injEq]
      constructor
      · rintro rfl
        exact ⟨[], nofun, rfl, by simp, hres⟩
      · rintro ⟨digits, _, hnil, hvalue, _⟩
        have hdigits : digits = [] := by simpa using hnil.symm
        rw [hdigits] at hvalue
        simpa using hvalue.symm
  | cons letter rest ih =>
      rw [List.length_cons, fullEncodedBlockSize] at hk
      have horder : alphabetSize ^ k % 2 ^ 64 = alphabetSize ^ k := by
        refine Nat.mod_eq_of_lt (lt_of_le_of_lt (Nat.pow_le_pow_right (by decide) (?_ : k ≤ 10)) ?_)
        · omega
        · decide
      have hnext : alphabetSize ^ k % 2 ^ 64 * alphabetSize % 2 ^ 64 =
          alphabetSize ^ (k + 1) % 2 ^ 64 := by
        rw [pow_succ alphabetSize k, Nat.mod_mul_mod]
      -- a numeral with this last digit
      have hconcat : ∀ digits digit, ofDigits alphabetSize (digits ++ [digit]) * alphabetSize ^ k =
          alphabetSize ^ k * digit + ofDigits alphabetSize digits * alphabetSize ^ (k + 1) := by
        intro digits digit
        rw [ofDigits_concat, pow_succ]
        ring
      rw [decodeBlockLoop]
      cases hletter : reverseAlphabet letter with
      | none =>
          refine ⟨nofun, ?_⟩
          rintro ⟨digits, hdigits, hletters, _⟩
          rcases List.eq_nil_or_concat digits with rfl | ⟨init, last, rfl⟩
          · cases hletters
          · rw [List.concat_eq_append, List.map_append, List.reverse_append] at hletters
            obtain ⟨hhead, _⟩ := List.cons.inj hletters
            have hlast := hdigits last (by simp)
            rw [hhead, reverseAlphabet_alphabet last hlast] at hletter
            cases hletter
      | some digit =>
          obtain ⟨hdigit, hback⟩ := reverseAlphabet_eq_some hletter
          dsimp only
          rw [hnext, horder]
          constructor
          · intro h
            split at h
            · cases h
            · rename_i hfits
              obtain ⟨digits, hdigits, hrest, hvalue, hlt⟩ :=
                (ih (by rw [fullEncodedBlockSize]; omega) (Nat.not_le.mp hfits)).mp h
              refine ⟨digits ++ [digit], ?_, ?_, ?_, hlt⟩
              · intro d hd
                rcases List.mem_append.mp hd with hd | hd
                · exact hdigits d hd
                · rw [List.mem_singleton.mp hd]
                  exact hdigit
              · rw [List.map_append, List.reverse_append, hrest, List.map_singleton, hback]
                rfl
              · rw [hconcat, hvalue]
                omega
          · rintro ⟨digits, hdigits, hletters, hvalue, hlt⟩
            rcases List.eq_nil_or_concat digits with rfl | ⟨init, last, rfl⟩
            · cases hletters
            · rw [List.concat_eq_append] at hdigits hletters hvalue
              rw [List.map_append, List.reverse_append] at hletters
              obtain ⟨hhead, hrest⟩ := List.cons.inj hletters
              have hlast := hdigits last (by simp)
              rw [hhead, reverseAlphabet_alphabet last hlast] at hletter
              obtain rfl := Option.some.inj hletter
              rw [hconcat] at hvalue
              have hfits : ¬ resNum + alphabetSize ^ k * last ≥ 2 ^ 64 := by omega
              rw [if_neg hfits, ih (by rw [fullEncodedBlockSize]; omega) (Nat.not_le.mp hfits)]
              exact ⟨init, fun d hd => hdigits d (List.mem_append_left _ hd), hrest, by omega, hlt⟩

theorem uint8beTo64_lt (block : ByteString) : uint8beTo64 block < 256 ^ block.length := by
  have hlt := ofDigits_lt (b := 256) (show ∀ d ∈ block.map UInt8.toNat, d < 256 by
    intro d hd
    obtain ⟨byte, _, rfl⟩ := List.mem_map.mp hd
    exact byte.toNat_lt)
  rw [List.length_map] at hlt
  exact hlt

theorem uint64To8be_uint8beTo64 (block : ByteString) :
    uint64To8be (uint8beTo64 block) block.length = block := by
  have hdigits := toDigits_ofDigits (b := 256) (show ∀ d ∈ block.map UInt8.toNat, d < 256 by
    intro d hd
    obtain ⟨byte, _, rfl⟩ := List.mem_map.mp hd
    exact byte.toNat_lt)
  rw [List.length_map] at hdigits
  rw [uint64To8be, uint8beTo64, hdigits, List.map_map]
  exact List.map_id'' (fun byte => UInt8.ofNat_toNat) block

theorem uint8beTo64_uint64To8be {num size : Nat} (h : num < 256 ^ size) :
    uint8beTo64 (uint64To8be num size) = num := by
  have hbytes : (toDigits 256 size num).map (fun d => (UInt8.ofNat d).toNat) = toDigits 256 size num := by
    refine (List.map_congr_left fun d hd => ?_).trans (List.map_id _)
    exact UInt8.toNat_ofNat_of_lt' (toDigits_lt (by decide) size num d hd)
  have hcomp : (toDigits 256 size num).map (UInt8.toNat ∘ UInt8.ofNat) = toDigits 256 size num := hbytes
  rw [uint8beTo64, uint64To8be, List.map_map, hcomp, ofDigits_toDigits h]

theorem length_encodeBlock (block : ByteString) :
    (encodeBlock block).length = encodedBlockSizes.getD block.length 0 := by
  rw [encodeBlock, List.length_map, length_toDigits]

theorem encodedBlockSizes_pos : ∀ size ≤ fullBlockSize, 0 < size →
    0 < encodedBlockSizes.getD size 0 := by
  decide

/-- A block is accepted exactly when it is the encoding of a block. -/
theorem decodeBlock_eq_some_iff {letters block : ByteString} (hblock : 0 < block.length)
    (hsize : block.length ≤ fullBlockSize) :
    decodeBlock letters = some block ↔ letters = encodeBlock block := by
  obtain ⟨hpow, hdecoded, hle⟩ := blockSizes block.length hsize
  have hvalue := uint8beTo64_lt block
  have hbound : (256 : Nat) ^ block.length ≤ 2 ^ 64 := by
    rw [show (2 : Nat) ^ 64 = 256 ^ 8 by decide]
    exact Nat.pow_le_pow_right (by decide) hsize
  constructor
  · intro h
    rw [decodeBlock] at h
    cases hsizes : decodedBlockSizes letters.length with
    | none =>
        rw [hsizes] at h
        cases h
    | some resSize =>
        obtain ⟨hresSize, hletters⟩ := decodedBlockSizes_eq_some hsizes
        rw [hsizes] at h
        dsimp only at h
        split at h
        · cases h
        · cases hloop : decodeBlockLoop letters.reverse 0 1 with
          | none =>
              rw [hloop] at h
              cases h
          | some resNum =>
              rw [hloop] at h
              dsimp only at h
              split at h
              · cases h
              · rename_i hfits
                have hblockEq := Option.some.inj h
                have hlength : block.length = resSize := by
                  rw [← hblockEq, uint64To8be, List.length_map, length_toDigits]
                obtain ⟨digits, hdigits, hreverse, hnum, hlt⟩ :=
                  (decodeBlockLoop_eq_some (k := 0) (by
                    rw [List.length_reverse, hletters, Nat.add_zero]
                    exact (blockSizes resSize hresSize).2.2) (by decide)).mp hloop
                rw [pow_zero, Nat.mul_one, Nat.zero_add] at hnum
                -- a full block has no check of its own; there the value fits into the word
                have hfits' : resNum < 256 ^ resSize := by
                  rcases lt_or_ge resSize fullBlockSize with hsmall | hfull
                  · have hnot := not_and.mp hfits hsmall
                    rw [pow_mul] at hnot
                    exact Nat.not_le.mp hnot
                  · rw [show resSize = 8 from le_antisymm hresSize hfull]
                    exact hlt
                have hmap : letters = digits.map fun digit => alphabet.getD digit 0 :=
                  List.reverse_injective hreverse
                -- as many digits as the block needs, so they are the digits of its value
                have hdigitsLength : digits.length = encodedBlockSizes.getD block.length 0 := by
                  have hlen := congrArg List.length hmap
                  rw [List.length_map, hletters, ← hlength] at hlen
                  exact hlen.symm
                rw [encodeBlock, ← hblockEq, uint8beTo64_uint64To8be hfits', hblockEq,
                  ← hdigitsLength, hnum, toDigits_ofDigits hdigits, hmap]
  · rintro rfl
    have hloop : decodeBlockLoop (encodeBlock block).reverse 0 1 = some (uint8beTo64 block) := by
      have hshort : (encodeBlock block).reverse.length + 0 ≤ fullEncodedBlockSize := by
        rw [List.length_reverse, length_encodeBlock, Nat.add_zero]
        exact hle
      refine (decodeBlockLoop_eq_some hshort (by decide)).mpr ⟨toDigits alphabetSize (encodedBlockSizes.getD block.length 0)
        (uint8beTo64 block), toDigits_lt (by decide) _ _, rfl, ?_, by omega⟩
      rw [ofDigits_toDigits (lt_of_lt_of_le hvalue hpow), pow_zero]
      omega
    rw [decodeBlock, length_encodeBlock, hdecoded]
    dsimp only
    have hfits : ¬ (block.length < fullBlockSize ∧ 2 ^ (8 * block.length) ≤ uint8beTo64 block) := by
      rw [pow_mul]
      exact fun hboth => absurd hvalue (Nat.not_lt.mpr hboth.2)
    rw [if_neg (by omega), hloop]
    dsimp only
    rw [if_neg hfits, uint64To8be_uint8beTo64]

/-- What a decoded block looks like. -/
theorem length_of_decodeBlock {letters block : ByteString} (h : decodeBlock letters = some block) :
    0 < block.length ∧ block.length ≤ fullBlockSize ∧
      decodedBlockSizes letters.length = some block.length := by
  rw [decodeBlock] at h
  cases hsizes : decodedBlockSizes letters.length with
  | none =>
      rw [hsizes] at h
      cases h
  | some resSize =>
      obtain ⟨hresSize, _⟩ := decodedBlockSizes_eq_some hsizes
      rw [hsizes] at h
      dsimp only at h
      split at h
      · cases h
      · rename_i hne
        cases hloop : decodeBlockLoop letters.reverse 0 1 with
        | none =>
            rw [hloop] at h
            cases h
        | some resNum =>
            rw [hloop] at h
            dsimp only at h
            split at h
            · cases h
            · have hlength : block.length = resSize := by
                rw [← Option.some.inj h, uint64To8be, List.length_map, length_toDigits]
              rw [hlength]
              exact ⟨Nat.pos_of_ne_zero hne, hresSize, rfl⟩

/-! ## Texts block by block -/

theorem encode_of_length_lt {data : ByteString} (h : data.length < fullBlockSize) :
    encode data = if 0 < data.length then encodeBlock data else [] := by
  have hdiv : data.length / fullBlockSize = 0 := Nat.div_eq_of_lt h
  have hmod : data.length % fullBlockSize = data.length := Nat.mod_eq_of_lt h
  rw [encode, hdiv, hmod, Nat.zero_mul, List.drop_zero]
  rfl

theorem encode_append {block : ByteString} (hblock : block.length = fullBlockSize)
    (rest : ByteString) : encode (block ++ rest) = encodeBlock block ++ encode rest := by
  have hlength : (block ++ rest).length = rest.length + fullBlockSize := by
    rw [List.length_append, hblock, Nat.add_comm]
  have hdiv : (block ++ rest).length / fullBlockSize = rest.length / fullBlockSize + 1 := by
    rw [hlength, Nat.add_div_right _ (by decide)]
  have hmod : (block ++ rest).length % fullBlockSize = rest.length % fullBlockSize := by
    rw [hlength, Nat.add_mod_right]
  have hdrop : ∀ i, (block ++ rest).drop ((i + 1) * fullBlockSize) = rest.drop (i * fullBlockSize) := by
    intro i
    rw [Nat.succ_mul, Nat.add_comm, ← hblock, List.drop_length_add_append]
  have hfirst : ((block ++ rest).drop (0 * fullBlockSize)).take fullBlockSize = block := by
    rw [Nat.zero_mul, List.drop_zero, ← hblock, List.take_left]
  rw [encode, hdiv, hmod, hdrop, List.range_succ_eq_map, List.flatMap_cons, List.flatMap_map, hfirst,
    encode]
  simp only [Nat.succ_eq_add_one, hdrop, List.append_assoc]

theorem decodeFullBlocks_append {block : ByteString} (hblock : block.length = fullEncodedBlockSize)
    (rest : ByteString) (count i : Nat) :
    decodeFullBlocks (block ++ rest) count (i + 1) = decodeFullBlocks rest count i := by
  induction count generalizing i with
  | zero => rfl
  | succ count ih =>
      have hdrop : (block ++ rest).drop ((i + 1) * fullEncodedBlockSize) =
          rest.drop (i * fullEncodedBlockSize) := by
        rw [Nat.succ_mul, Nat.add_comm, ← hblock, List.drop_length_add_append]
      rw [decodeFullBlocks, decodeFullBlocks, hdrop, ih]

theorem decode_of_length_lt {enc : ByteString} (h : enc.length < fullEncodedBlockSize) :
    decode enc = if 0 < enc.length then decodeBlock enc else some [] := by
  have hdiv : enc.length / fullEncodedBlockSize = 0 := Nat.div_eq_of_lt h
  have hmod : enc.length % fullEncodedBlockSize = enc.length := Nat.mod_eq_of_lt h
  rw [decode, hdiv, hmod, Nat.zero_mul, List.drop_zero]
  cases hsizes : decodedBlockSizes enc.length with
  | none =>
      have hpos : 0 < enc.length := by
        by_contra hzero
        rw [Nat.eq_zero_of_not_pos hzero] at hsizes
        exact absurd hsizes (by decide)
      rw [if_pos hpos, decodeBlock, hsizes]
  | some size =>
      dsimp only [decodeFullBlocks]
      split
      · cases hblock : decodeBlock enc <;> rfl
      · rfl

theorem decode_append {block : ByteString} (hblock : block.length = fullEncodedBlockSize)
    (rest : ByteString) : decode (block ++ rest) = do
      let first ← decodeBlock block
      let others ← decode rest
      return first ++ others := by
  have hlength : (block ++ rest).length = rest.length + fullEncodedBlockSize := by
    rw [List.length_append, hblock, Nat.add_comm]
  have hdiv : (block ++ rest).length / fullEncodedBlockSize =
      rest.length / fullEncodedBlockSize + 1 := by
    rw [hlength, Nat.add_div_right _ (by decide)]
  have hmod : (block ++ rest).length % fullEncodedBlockSize =
      rest.length % fullEncodedBlockSize := by
    rw [hlength, Nat.add_mod_right]
  have hdrop : (block ++ rest).drop ((rest.length / fullEncodedBlockSize + 1) * fullEncodedBlockSize) =
      rest.drop (rest.length / fullEncodedBlockSize * fullEncodedBlockSize) := by
    rw [Nat.succ_mul, Nat.add_comm, ← hblock, List.drop_length_add_append]
  have hfirst : ((block ++ rest).drop (0 * fullEncodedBlockSize)).take fullEncodedBlockSize = block := by
    rw [Nat.zero_mul, List.drop_zero, ← hblock, List.take_left]
  rw [decode, hdiv, hmod, hdrop, decodeFullBlocks, hfirst, decodeFullBlocks_append hblock, decode]
  cases decodedBlockSizes (rest.length % fullEncodedBlockSize) with
  | none => cases decodeBlock block <;> rfl
  | some size =>
      cases decodeBlock block with
      | none => rfl
      | some first =>
          cases decodeFullBlocks rest (rest.length / fullEncodedBlockSize) 0 with
          | none => rfl
          | some full =>
              by_cases hlast : 0 < rest.length % fullEncodedBlockSize
              · cases decodeBlock
                  (rest.drop (rest.length / fullEncodedBlockSize * fullEncodedBlockSize)) <;>
                  simp [hlast]
              · simp [hlast]

/-- A text is split after its first full block. -/
theorem exists_full_block {n : Nat} {text : ByteString} (h : n ≤ text.length) :
    ∃ block rest, text = block ++ rest ∧ block.length = n :=
  ⟨text.take n, text.drop n, (List.take_append_drop n text).symm, List.length_take_of_le h⟩

theorem decode_encode (data : ByteString) : decode (encode data) = some data := by
  induction hn : data.length using Nat.strongRecOn generalizing data with
  | ind n ih =>
      rcases lt_or_ge data.length fullBlockSize with hlt | hge
      · rw [encode_of_length_lt hlt]
        rcases Nat.eq_zero_or_pos data.length with hzero | hpos
        · rw [List.length_eq_zero_iff.mp hzero]
          rfl
        · have hsize := length_encodeBlock data
          have hpos' := encodedBlockSizes_pos data.length hlt.le hpos
          have hshort : ∀ size < fullBlockSize,
              encodedBlockSizes.getD size 0 < fullEncodedBlockSize := by decide
          have hlt' := hshort data.length hlt
          rw [if_pos hpos, decode_of_length_lt (by rw [hsize]; exact hlt'), if_pos (by omega)]
          exact (decodeBlock_eq_some_iff hpos hlt.le).mpr rfl
      · obtain ⟨block, rest, rfl, hblock⟩ := exists_full_block hge
        have hfull : (encodeBlock block).length = fullEncodedBlockSize := by
          rw [length_encodeBlock, hblock]
          rfl
        have hpos : 0 < block.length := by
          rw [hblock]
          decide
        have hdecoded : decodeBlock (encodeBlock block) = some block :=
          (decodeBlock_eq_some_iff hpos hblock.le).mpr rfl
        have hrest : rest.length < n := by
          rw [← hn, List.length_append]
          omega
        rw [encode_append hblock, decode_append hfull, hdecoded, ih rest.length hrest rest rfl]
        rfl

theorem eq_encode_of_decode {enc data : ByteString} (h : decode enc = some data) :
    enc = encode data := by
  induction hn : enc.length using Nat.strongRecOn generalizing enc data with
  | ind n ih =>
      rcases lt_or_ge enc.length fullEncodedBlockSize with hlt | hge
      · rw [decode_of_length_lt hlt] at h
        split at h
        · obtain ⟨hpos, hsize, hsizes⟩ := length_of_decodeBlock h
          have hshort : data.length < fullBlockSize := by
            refine lt_of_le_of_ne hsize fun heq => ?_
            obtain ⟨_, hletters⟩ := decodedBlockSizes_eq_some hsizes
            rw [heq] at hletters
            exact absurd hlt (Nat.not_lt.mpr (Nat.le_of_eq hletters.symm))
          rw [encode_of_length_lt hshort, if_pos hpos]
          exact (decodeBlock_eq_some_iff hpos hsize).mp h
        · rename_i hzero
          cases h
          rw [List.length_eq_zero_iff.mp (Nat.eq_zero_of_not_pos hzero)]
          rfl
      · obtain ⟨letters, rest, rfl, hletters⟩ := exists_full_block hge
        rw [decode_append hletters] at h
        cases hfirst : decodeBlock letters with
        | none =>
            rw [hfirst] at h
            cases h
        | some block =>
            cases hothers : decode rest with
            | none =>
                rw [hfirst, hothers] at h
                cases h
            | some others =>
                rw [hfirst, hothers] at h
                cases h
                obtain ⟨hpos, hsize, hsizes⟩ := length_of_decodeBlock hfirst
                have hfull : block.length = fullBlockSize := by
                  rw [hletters] at hsizes
                  exact (Option.some.inj hsizes).symm
                have hrest : rest.length < n := by
                  rw [← hn, List.length_append]
                  have hpos' : 0 < fullEncodedBlockSize := by decide
                  omega
                rw [encode_append hfull, ← ih rest.length hrest hothers rfl,
                  ← (decodeBlock_eq_some_iff hpos hsize).mp hfirst]

/-- Texts and bytes correspond one to one. -/
theorem decode_eq_some_iff {enc data : ByteString} : decode enc = some data ↔ enc = encode data :=
  ⟨eq_encode_of_decode, fun h => by rw [h, decode_encode]⟩

/-! ## Addresses -/

section

variable {cnFastHash : ByteString → Vector UInt8 32}

theorem length_checksum (buf : ByteString) : (checksum cnFastHash buf).length = addrChecksumSize := by
  rw [checksum, List.length_take, Vector.length_toList]
  rfl

/-- What `decode_addr` makes of an address with the bytes `buf` under its checksum. -/
theorem decodeAddr_encode (cnFastHash : ByteString → Vector UInt8 32) (buf : ByteString) :
    decodeAddr cnFastHash (encode (buf ++ checksum cnFastHash buf)) =
      if (readVarint 64 buf).read ≤ 0 then none
      else some (UInt64.ofNat (readVarint 64 buf).i, buf.drop (readVarint 64 buf).read.toNat) := by
  have hlength : (buf ++ checksum cnFastHash buf).length - addrChecksumSize = buf.length := by
    rw [List.length_append, length_checksum, Nat.add_sub_cancel]
  rw [decodeAddr, decode_encode]
  dsimp only
  rw [hlength, List.take_left, List.drop_left, if_neg (not_not.mpr rfl)]
  rcases Nat.eq_zero_or_pos buf.length with hzero | hpos
  · rw [List.length_eq_zero_iff.mp hzero]
    split <;> rfl
  · rw [if_neg]
    rw [List.length_append, length_checksum]
    omega

/-- An accepted address has its checksum. -/
theorem exists_of_decodeAddr {addr data : ByteString} {tag : UInt64}
    (h : decodeAddr cnFastHash addr = some (tag, data)) :
    ∃ buf, addr = encode (buf ++ checksum cnFastHash buf) := by
  rw [decodeAddr] at h
  cases hdecode : decode addr with
  | none =>
      rw [hdecode] at h
      cases h
  | some addrData =>
      rw [hdecode] at h
      dsimp only at h
      split at h
      · cases h
      · split at h
        · cases h
        · rename_i hchecksum
          refine ⟨addrData.take (addrData.length - addrChecksumSize), ?_⟩
          rw [not_not.mp hchecksum, List.take_append_drop]
          exact eq_encode_of_decode hdecode

/-- The address has a tag that the end of its bytes cuts off. -/
def TruncatedAddress (cnFastHash : ByteString → Vector UInt8 32) (addr : ByteString) : Prop :=
  ∃ buf, buf ≠ [] ∧ TruncatedVarint 64 buf ∧ addr = encode (buf ++ checksum cnFastHash buf)

theorem encode_injective {data data' : ByteString} (h : encode data = encode data') : data = data' := by
  have hdecode := decode_encode data
  rw [h, decode_encode] at hdecode
  exact (Option.some.inj hdecode).symm

theorem encodeChecked_injective {buf buf' : ByteString}
    (h : encode (buf ++ checksum cnFastHash buf) = encode (buf' ++ checksum cnFastHash buf')) :
    buf = buf' :=
  (List.append_inj' (encode_injective h) (by rw [length_checksum, length_checksum])).1

theorem decodeAddr_encodeAddr (tag : UInt64) (data : ByteString) :
    decodeAddr cnFastHash (encodeAddr cnFastHash tag data) = some (tag, data) := by
  have hread := readVarint_writeVarint data (show 0 < 64 by decide) tag.toNat_lt
  have hpos := length_writeVarint_pos tag.toNat
  rw [encodeAddr, decodeAddr_encode, hread]
  dsimp only
  rw [if_neg (by omega), Int.toNat_natCast, List.drop_left, UInt64.ofNat_toNat]

/-- Except for truncated tags, an address has exactly one textual form. -/
theorem decodeAddr_iff (addr : ByteString) :
    (∀ tag data, decodeAddr cnFastHash addr = some (tag, data) ↔
        addr = encodeAddr cnFastHash tag data) ↔ ¬ TruncatedAddress cnFastHash addr := by
  constructor
  · rintro hall ⟨buf, hne, htruncated, rfl⟩
    have hread := readVarint_truncated htruncated
    have hpos := List.length_pos_iff.mpr hne
    have haccepted := decodeAddr_encode cnFastHash buf
    rw [if_neg (by omega)] at haccepted
    have haddr := encodeChecked_injective ((hall _ _).mp haccepted)
    -- the written tag has a last byte
    obtain ⟨byte, hmem, hbyte⟩ := exists_lastByte_mem_writeVarint
      (UInt64.ofNat (readVarint 64 buf).i).toNat
    have hge := htruncated.1 byte (by rw [haddr]; exact List.mem_append_left _ hmem)
    omega
  · intro hnot tag data
    refine ⟨fun h => ?_, fun h => by rw [h, decodeAddr_encodeAddr]⟩
    obtain ⟨buf, rfl⟩ := exists_of_decodeAddr h
    rw [decodeAddr_encode] at h
    split at h
    · cases h
    · rename_i hread
      rcases readVarint_cases (show 0 < 64 by decide) (by omega : 0 ≤ (readVarint 64 buf).read) with
        ⟨v, rest, rfl, hv⟩ | htruncated
      · have hwritten := readVarint_writeVarint rest (show 0 < 64 by decide) hv
        rw [hwritten] at h
        dsimp only at h
        rw [Int.toNat_natCast, List.drop_left] at h
        cases h
        rw [encodeAddr, UInt64.toNat_ofNat_of_lt' hv]
      · refine absurd ⟨buf, ?_, htruncated, rfl⟩ hnot
        rintro rfl
        exact hread (by decide)

/-- A truncated tag leaves no data, so an address with data has one textual form. -/
theorem eq_encodeAddr_of_decodeAddr {addr data : ByteString} {tag : UInt64}
    (h : decodeAddr cnFastHash addr = some (tag, data)) (hdata : data ≠ []) :
    addr = encodeAddr cnFastHash tag data := by
  by_cases htruncated : TruncatedAddress cnFastHash addr
  · obtain ⟨buf, hne, hbuf, rfl⟩ := htruncated
    have hread := readVarint_truncated hbuf
    rw [decodeAddr_encode, hread] at h
    split at h
    · cases h
    · rw [Option.some.injEq, Prod.mk.injEq, Int.toNat_natCast, List.drop_length] at h
      exact absurd h.2.symm hdata
  · exact ((decodeAddr_iff addr).mpr htruncated tag data).mp h

/-- What base58 texts and addresses promise: the bytes under a text are unique, and an
address is accepted only in its one textual form, unless its tag is truncated. -/
theorem base58_one_to_one (cnFastHash : ByteString → Vector UInt8 32) :
    (∀ data, decode (encode data) = some data) ∧
      (∀ enc data, decode enc = some data ↔ enc = encode data) ∧
      ∀ addr, (∀ tag data, decodeAddr cnFastHash addr = some (tag, data) ↔
        addr = encodeAddr cnFastHash tag data) ↔ ¬ TruncatedAddress cnFastHash addr :=
  ⟨decode_encode, fun _ _ => decode_eq_some_iff, decodeAddr_iff⟩

/-- The address of the single byte `0x80`, with an all-zero hash: accepted as the tag zero
without data, which is written otherwise. -/
theorem truncated_tag_accepted :
    decodeAddr (fun _ => Vector.replicate 32 0) (encode [0x80, 0, 0, 0, 0]) = some (0, []) ∧
      encode [0x80, 0, 0, 0, 0] ≠ encodeAddr (fun _ => Vector.replicate 32 0) 0 [] ∧
      ¬ ∀ (cnFastHash : ByteString → Vector UInt8 32) (addr : ByteString) (tag : UInt64)
        (data : ByteString), decodeAddr cnFastHash addr = some (tag, data) ↔
          addr = encodeAddr cnFastHash tag data := by
  have haccepted : decodeAddr (fun _ => Vector.replicate 32 0) (encode [0x80, 0, 0, 0, 0]) =
      some (0, []) := by
    decide
  have hother : encode [0x80, 0, 0, 0, 0] ≠ encodeAddr (fun _ => Vector.replicate 32 0) 0 [] := by
    rw [encodeAddr, writeVarint_of_lt (by decide)]
    decide
  exact ⟨haccepted, hother, fun hclaim => hother ((hclaim _ _ _ _).mp haccepted)⟩

end

end Chinet.Base58
