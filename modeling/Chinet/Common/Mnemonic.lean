import Chinet.CurrencyBasic
import Chinet.Lib.SplitJoin

/-!
# Mnemonic encoding

`mnemonic-encoding.cpp`: four bytes are three words of a dictionary with 1626 words.
The second and the third word are shifted by the word before them.
-/

namespace Chinet

def numWords : Nat := 1626

def space : UInt8 := 32

/-- `wordsArray` and `wordsMap`, with what holds of the two tables. -/
structure MnemonicDictionary where
  wordsArray : Nat → ByteString
  wordsMap : ByteString → Option Nat
  map_array : ∀ n < numWords, wordsMap (wordsArray n) = some n
  map_lt : ∀ word n, wordsMap word = some n → n < numWords
  array_ne_nil : ∀ n < numWords, wordsArray n ≠ []
  array_not_space : ∀ n < numWords, ∀ c ∈ wordsArray n, isSpace c = false

namespace Mnemonic

variable (dict : MnemonicDictionary)

/-! ## Chunks -/

/-- A `uint32_t` in the memory. -/
def uint32OfBytes (b0 b1 b2 b3 : UInt8) : Nat :=
  b0.toNat + 256 * b1.toNat + 65536 * b2.toNat + 16777216 * b3.toNat

def bytesOfUint32 (val : Nat) : ByteString :=
  [UInt8.ofNat val, UInt8.ofNat (val / 256), UInt8.ofNat (val / 65536), UInt8.ofNat (val / 16777216)]

def word1 (val : Nat) : Nat := val % numWords

def word2 (val : Nat) : Nat := (val / numWords + word1 val) % numWords

def word3 (val : Nat) : Nat := (val / numWords / numWords + word2 val) % numWords

/-- The words are below `numWords`, so that the differences are not negative. -/
def chunkOfWords (w1 w2 w3 : Nat) : Nat :=
  (w1 + numWords * (((numWords - w1) + w2) % numWords) +
    numWords * numWords * (((numWords - w2) + w3) % numWords)) % 2 ^ 32

theorem word_lt (val : Nat) : word1 val < numWords ∧ word2 val < numWords ∧ word3 val < numWords :=
  ⟨Nat.mod_lt _ (by decide), Nat.mod_lt _ (by decide), Nat.mod_lt _ (by decide)⟩

/-- Undoing the shift by the word before. -/
theorem unshift (a w : Nat) (hw : w < numWords) :
    ((numWords - w) + (a + w) % numWords) % numWords = a % numWords := by
  unfold numWords at hw ⊢
  omega

/-- Three words hold all 32 bits, as `1626 ^ 3` is above `2 ^ 32`. -/
theorem chunkOfWords_words {val : Nat} (h : val < 2 ^ 32) :
    chunkOfWords (word1 val) (word2 val) (word3 val) = val := by
  obtain ⟨h1, h2, -⟩ := word_lt val
  have hsecond := unshift (val / numWords) (word1 val) h1
  have hthird := unshift (val / numWords / numWords) (word2 val) h2
  have hsmall : val / numWords / numWords < numWords := by
    unfold numWords
    omega
  rw [chunkOfWords, word3, hthird, Nat.mod_eq_of_lt hsmall]
  have hsecond' : ((numWords - word1 val) + word2 val) % numWords = val / numWords % numWords :=
    hsecond
  rw [hsecond', word1]
  have hval : val % numWords + numWords * (val / numWords % numWords) +
      numWords * numWords * (val / numWords / numWords) = val := by
    unfold numWords
    omega
  rw [hval, Nat.mod_eq_of_lt h]

theorem uint32OfBytes_lt (b0 b1 b2 b3 : UInt8) : uint32OfBytes b0 b1 b2 b3 < 2 ^ 32 := by
  have h0 := b0.toNat_lt
  have h1 := b1.toNat_lt
  have h2 := b2.toNat_lt
  have h3 := b3.toNat_lt
  unfold uint32OfBytes
  omega

theorem bytesOfUint32_uint32OfBytes (b0 b1 b2 b3 : UInt8) :
    bytesOfUint32 (uint32OfBytes b0 b1 b2 b3) = [b0, b1, b2, b3] := by
  have h0 := b0.toNat_lt
  have h1 := b1.toNat_lt
  have h2 := b2.toNat_lt
  have h3 := b3.toNat_lt
  have hbyte : ∀ (n : Nat) (b : UInt8), n % 256 = b.toNat → UInt8.ofNat n = b := by
    intro n b hn
    exact UInt8.toNat_inj.mp ((UInt8.toNat_ofNat).trans hn)
  unfold bytesOfUint32 uint32OfBytes
  rw [hbyte _ b0 (by omega), hbyte _ b1 (by omega), hbyte _ b2 (by omega), hbyte _ b3 (by omega)]

/-! ## Texts -/

/-- The words of `binary2text`; nothing if the size is no multiple of four. -/
def wordsOfBinary : ByteString → Option (List ByteString)
  | [] => some []
  | b0 :: b1 :: b2 :: b3 :: rest =>
      let val := uint32OfBytes b0 b1 b2 b3
      (wordsOfBinary rest).map fun words =>
        dict.wordsArray (word1 val) :: dict.wordsArray (word2 val) ::
          dict.wordsArray (word3 val) :: words
  | _ => none

def binary2text (binary : ByteString) : Option ByteString :=
  (wordsOfBinary dict binary).map (SplitJoin.join space)

/-- The loop of `text2binary_throw`; nothing if a word is not in the dictionary or the
number of words is no multiple of three. -/
def binaryOfWords : List ByteString → Option ByteString
  | [] => some []
  | t1 :: t2 :: t3 :: rest =>
      match dict.wordsMap t1, dict.wordsMap t2, dict.wordsMap t3 with
      | some w1, some w2, some w3 =>
          (binaryOfWords rest).map fun res => bytesOfUint32 (chunkOfWords w1 w2 w3) ++ res
      | _, _, _ => none
  | _ => none

def text2binaryThrow (text : ByteString) : Option ByteString :=
  binaryOfWords dict (SplitJoin.split (· == space) (SplitJoin.trim isSpace text))

/-- An exception gives an empty result. -/
def text2binary (text : ByteString) : ByteString := (text2binaryThrow dict text).getD []

/-- Empty for a number without a word. -/
def wordByNum (n : Nat) : ByteString := if n ≥ numWords then [] else dict.wordsArray n

/-- An exception is `none`. -/
def numByWord (word : ByteString) : Option Nat := dict.wordsMap word

variable {dict}

theorem isSpace_of_eq_space {c : UInt8} (h : isSpace c = false) : (c == space) = false := by
  cases hc : c == space with
  | false => rfl
  | true =>
      rw [beq_iff_eq.mp hc] at h
      exact absurd h (by decide)

/-- The words of a binary: three for four bytes, each one from the dictionary. -/
theorem wordsOfBinary_spec {n : Nat} : ∀ {binary : ByteString}, binary.length = 4 * n →
    ∃ words, wordsOfBinary dict binary = some words ∧ words.length = 3 * n ∧
      (∀ word ∈ words, ∃ k < numWords, word = dict.wordsArray k) ∧
        binaryOfWords dict words = some binary := by
  induction n with
  | zero =>
      intro binary hlength
      obtain rfl := List.length_eq_zero_iff.mp hlength
      exact ⟨[], rfl, rfl, fun _ h => absurd h List.not_mem_nil, rfl⟩
  | succ n ih =>
      intro binary hlength
      match binary, hlength with
      | b0 :: b1 :: b2 :: b3 :: rest, hlength =>
          have hrest : rest.length = 4 * n := by
            simp only [List.length_cons] at hlength
            omega
          obtain ⟨words, hwords, hcount, hdict, hback⟩ := ih hrest
          have hval := uint32OfBytes_lt b0 b1 b2 b3
          have hbytes := bytesOfUint32_uint32OfBytes b0 b1 b2 b3
          generalize hv : uint32OfBytes b0 b1 b2 b3 = val at hval hbytes
          obtain ⟨h1, h2, h3⟩ := word_lt val
          refine ⟨dict.wordsArray (word1 val) :: dict.wordsArray (word2 val) ::
            dict.wordsArray (word3 val) :: words, ?_, ?_, ?_, ?_⟩
          · simp only [wordsOfBinary, hwords, hv, Option.map_some]
          · simp only [List.length_cons, hcount]
            omega
          · intro word hword
            rcases List.mem_cons.mp hword with rfl | hword
            · exact ⟨_, h1, rfl⟩
            rcases List.mem_cons.mp hword with rfl | hword
            · exact ⟨_, h2, rfl⟩
            rcases List.mem_cons.mp hword with rfl | hword
            · exact ⟨_, h3, rfl⟩
            · exact hdict word hword
          · simp only [binaryOfWords, dict.map_array _ h1, dict.map_array _ h2,
              dict.map_array _ h3, hback, Option.map_some, chunkOfWords_words hval, hbytes]
            rfl
      | [], h => simp at h
      | [_], h => simp only [List.length_cons, List.length_nil] at h; omega
      | [_, _], h => simp only [List.length_cons, List.length_nil] at h; omega
      | [_, _, _], h => simp only [List.length_cons, List.length_nil] at h; omega

/-- A text of words from the dictionary is read word by word. -/
theorem text2binary_join {words : List ByteString} {binary : ByteString} (hne : words ≠ [])
    (hdict : ∀ word ∈ words, ∃ k < numWords, word = dict.wordsArray k)
    (h : binaryOfWords dict words = some binary) :
    text2binary dict (SplitJoin.join space words) = binary := by
  have hwords : ∀ word ∈ words, word ≠ [] ∧ ∀ c ∈ word, isSpace c = false := by
    intro word hword
    obtain ⟨k, hk, rfl⟩ := hdict word hword
    exact ⟨dict.array_ne_nil k hk, dict.array_not_space k hk⟩
  have hsplit : SplitJoin.split (· == space) (SplitJoin.join space words) = words :=
    SplitJoin.split_join rfl hne fun word hword c hc =>
      isSpace_of_eq_space ((hwords word hword).2 c hc)
  rw [text2binary, text2binaryThrow, SplitJoin.trim_join hwords, hsplit, h]
  rfl

theorem numByWord_wordByNum {n : Nat} (h : n < numWords) :
    numByWord dict (wordByNum dict n) = some n := by
  rw [wordByNum, if_neg (Nat.not_le.mpr h)]
  exact dict.map_array n h

end Mnemonic

end Chinet
