import Mathlib.Data.Nat.Digits.Lemmas
import Mathlib.Tactic.NormNum
import Chinet.Difficulty

/-!
# The proof-of-work target

`check_hash` multiplies the hash by the difficulty word by word and only looks
for a carry out of 256 bits; `difficulty_to_boundary_long` divides instead.
Both stand for one inequality, `v * d < 2 ^ 256`, where `v` is the number that
the bytes of the hash make when they are read big-endian: `check_hash` reverts
them before it loads its little-endian words.

* `cadd_iff`, `cadc_iff`: the two carry tests tell whether the sum passes a word.
* `checkHashNarrow_iff`: the branch for small difficulties, with its fast check.
* `checkHash_iff`: both branches, for each difficulty but `max64bit`.
* `checkHash_max64bit`: at `max64bit` the fast check of the wide branch decides,
  a word too early for the hashes from `2 ^ 192` on.
-/

namespace Chinet

/-! ## The words of the number -/

theorem hashWord_lt (hash : Hash) (i : Nat) : hashWord hash i < 2 ^ 64 :=
  Nat.mod_lt _ (by decide)

/-- A hash is its four words. -/
theorem toNat_eq_words (hash : Hash) :
    hash.toNat = hashWord hash 0 + 2 ^ 64 * hashWord hash 1 + 2 ^ 128 * hashWord hash 2 +
      2 ^ 192 * hashWord hash 3 := by
  have hlt := hash.isLt
  simp only [hashWord]
  norm_num
  omega

theorem hashWord_three_eq_zero_iff (hash : Hash) :
    hashWord hash 3 = 0 ↔ hash.toNat < 2 ^ 192 := by
  have hsum := toNat_eq_words hash
  have h0 := hashWord_lt hash 0
  have h1 := hashWord_lt hash 1
  have h2 := hashWord_lt hash 2
  constructor
  · intro h3
    rw [h3] at hsum
    omega
  · intro hlt
    omega

/-! ## Carries -/

theorem cadd_iff {a b : Nat} (ha : a < 2 ^ 64) (hb : b < 2 ^ 64) :
    cadd a b = true ↔ 2 ^ 64 ≤ a + b := by
  rw [cadd, decide_eq_true_iff]
  omega

theorem cadc_iff {a b : Nat} (ha : a < 2 ^ 64) (hb : b < 2 ^ 64) (c : Bool) :
    cadc a b c = true ↔ 2 ^ 64 ≤ a + b + c.toNat := by
  -- the largest sum without the carry is 2 ^ 65 - 2, so it wraps to 2 ^ 64 - 1 only from there
  simp only [cadc, Bool.or_eq_true, Bool.and_eq_true, decide_eq_true_iff, beq_iff_eq]
  cases c <;> simp <;> omega

/-- Three words of a sum passed from one to the next leave a carry exactly when the sum with its
lowest word does not fit. -/
theorem carries_iff {l₀ a₁ b₁ a₂ b₂ a₃ b₃ : Nat} (hl : l₀ < 2 ^ 64) (ha₁ : a₁ < 2 ^ 64)
    (hb₁ : b₁ < 2 ^ 64) (ha₂ : a₂ < 2 ^ 64) (hb₂ : b₂ < 2 ^ 64) (ha₃ : a₃ < 2 ^ 64)
    (hb₃ : b₃ < 2 ^ 64) :
    cadc a₃ b₃ (cadc a₂ b₂ (cadd a₁ b₁)) = true ↔
      2 ^ 256 ≤ l₀ + 2 ^ 64 * (a₁ + b₁) + 2 ^ 128 * (a₂ + b₂) + 2 ^ 192 * (a₃ + b₃) := by
  have h₁ := cadd_iff ha₁ hb₁
  have h₂ := cadc_iff ha₂ hb₂ (cadd a₁ b₁)
  rw [cadc_iff ha₃ hb₃]
  cases hc₁ : cadd a₁ b₁ <;> rw [hc₁] at h₁ h₂ <;>
    cases hc₂ : cadc a₂ b₂ _ <;> rw [hc₂] at h₂ <;>
    simp only [Bool.toNat_true, Bool.toNat_false, Bool.false_eq_true, false_iff, true_iff,
      not_le] at h₁ h₂ ⊢ <;> omega

/-! ## `check_hash` -/

theorem checkHashNarrow_iff (hash : Hash) {dl : Nat} (hdl : dl < 2 ^ 64) :
    checkHashNarrow hash dl = true ↔ hash.toNat * dl < 2 ^ 256 := by
  have hhigh (i : Nat) : hashWord hash i * dl / 2 ^ 64 < 2 ^ 64 := by
    apply Nat.div_lt_of_lt_mul
    exact Nat.mul_lt_mul'' (hashWord_lt hash i) hdl
  have hlow (i : Nat) : hashWord hash i * dl % 2 ^ 64 < 2 ^ 64 := Nat.mod_lt _ (by decide)
  have hparts (i : Nat) : hashWord hash i * dl =
      hashWord hash i * dl % 2 ^ 64 + 2 ^ 64 * (hashWord hash i * dl / 2 ^ 64) :=
    (Nat.mod_add_div _ _).symm
  have hproduct : hash.toNat * dl =
      hashWord hash 0 * dl % 2 ^ 64 +
        2 ^ 64 * (hashWord hash 0 * dl / 2 ^ 64 + hashWord hash 1 * dl % 2 ^ 64) +
        2 ^ 128 * (hashWord hash 1 * dl / 2 ^ 64 + hashWord hash 2 * dl % 2 ^ 64) +
        2 ^ 192 * (hashWord hash 2 * dl / 2 ^ 64 + hashWord hash 3 * dl % 2 ^ 64) +
        2 ^ 256 * (hashWord hash 3 * dl / 2 ^ 64) := by
    calc hash.toNat * dl
      _ = hashWord hash 0 * dl + 2 ^ 64 * (hashWord hash 1 * dl) +
            2 ^ 128 * (hashWord hash 2 * dl) + 2 ^ 192 * (hashWord hash 3 * dl) := by
          rw [toNat_eq_words hash]
          ring
      _ = _ := by
          have h0 := hparts 0
          have h1 := hparts 1
          have h2 := hparts 2
          have h3 := hparts 3
          omega
  have hcarries := carries_iff (hlow 0) (hhigh 0) (hlow 1) (hhigh 1) (hlow 2) (hhigh 2) (hlow 3)
  rw [hproduct]
  simp only [checkHashNarrow]
  split
  · rename_i htop
    -- the fast check: the highest word of the product is not zero
    simp only [Bool.false_eq_true, false_iff, not_lt]
    omega
  · rename_i htop
    simp only [ne_eq, not_not] at htop
    rw [Bool.not_eq_true', ← Bool.not_eq_true, hcarries, htop]
    omega

/-- The comparison of both branches is that of the product with `2 ^ 256`, for each difficulty but
the largest number of 64 bits. -/
theorem checkHash_iff (hash : Hash) {difficulty : WideDifficulty}
    (hne : difficulty.toNat ≠ 2 ^ 64 - 1) :
    checkHash hash difficulty = true ↔ hash.toNat * difficulty.toNat < 2 ^ 256 := by
  rw [checkHash]
  split
  · rename_i hlt
    exact checkHashNarrow_iff hash (by omega)
  · rename_i hge
    split
    · rename_i hword
      have hlarge : 2 ^ 192 ≤ hash.toNat := by
        have hiff := hashWord_three_eq_zero_iff hash
        omega
      have hproduct : 2 ^ 192 * 2 ^ 64 ≤ hash.toNat * difficulty.toNat :=
        Nat.mul_le_mul hlarge (by omega)
      simp only [Bool.false_eq_true, false_iff, not_lt]
      omega
    · rw [decide_eq_true_iff]
      omega

/-- `max64bit` itself takes the wide branch, and its fast check refuses each hash whose highest
word is not zero, although the product still fits for the first of them. -/
theorem checkHash_max64bit (hash : Hash) {difficulty : WideDifficulty}
    (hd : difficulty.toNat = 2 ^ 64 - 1) :
    checkHash hash difficulty = true ↔ hash.toNat < 2 ^ 192 := by
  rw [checkHash, if_neg (by omega), ← hashWord_three_eq_zero_iff]
  split
  · rename_i hword
    simp only [Bool.false_eq_true, false_iff]
    omega
  · rename_i hword
    have hzero : hashWord hash 3 = 0 := by omega
    have hsmall := (hashWord_three_eq_zero_iff hash).mp hzero
    have hproduct : hash.toNat * difficulty.toNat ≤ 2 ^ 192 * (2 ^ 64 - 1) :=
      Nat.mul_le_mul hsmall.le (by omega)
    rw [decide_eq_true_iff]
    simp only [hzero, iff_true]
    omega

/-! ## On the bytes of a hash -/

/-- `crypto::hash` as it stands in memory. -/
abbrev HashBytes := Vector UInt8 32

/-- Word `i` of a hash, `swap64le` of the eight bytes from `8 * i` on. -/
def loadWord (h : HashBytes) (i : Nat) : Nat :=
  Nat.ofDigits 256 (((h.toList.drop (8 * i)).take 8).map UInt8.toNat)

/-- The number of a hash whose bytes are read little-endian. -/
def littleEndian (h : HashBytes) : Nat := Nat.ofDigits 256 (h.toList.map UInt8.toNat)

/-- The number of a hash whose bytes are read big-endian. -/
def bigEndian (h : HashBytes) : Nat := Nat.ofDigits 256 (h.toList.reverse.map UInt8.toNat)

/-- "revert byte order". -/
def revertBytes (h : HashBytes) : HashBytes := h.reverse

/-- The four words of a hash as one number, shifted in from the highest down. -/
def hashOfWords (h : HashBytes) : Hash :=
  BitVec.ofNat 256 (((loadWord h 3 * 2 ^ 64 + loadWord h 2) * 2 ^ 64 + loadWord h 1) * 2 ^ 64 +
    loadWord h 0)

/-- `check_hash` from the bytes on. -/
def checkHashBytes (hash : HashBytes) (difficulty : WideDifficulty) : Bool :=
  checkHash (hashOfWords (revertBytes hash)) difficulty

/-- The four words of a number, the lowest first, each stored little-endian. -/
def storeWords (n : Nat) : HashBytes :=
  Vector.ofFn fun k : Fin 32 =>
    UInt8.ofNat (n / 2 ^ (64 * (k.val / 8)) % 2 ^ 64 / 256 ^ (k.val % 8))

/-- `difficulty_to_boundary_long`.  The division throws on a difficulty of zero. -/
def difficultyToBoundaryLong (difficulty : WideDifficulty) : Option HashBytes :=
  if difficulty = 0 then none
  else some (storeWords ((2 ^ 256 - 1) / difficulty.toNat))

theorem loadWord_lt (h : HashBytes) (i : Nat) : loadWord h i < 2 ^ 64 := by
  have hlt := Nat.ofDigits_lt_base_pow_length' (b := 254)
    (l := ((h.toList.drop (8 * i)).take 8).map UInt8.toNat) (by
      intro byte hbyte
      obtain ⟨b, -, rfl⟩ := List.mem_map.mp hbyte
      exact b.toNat_lt)
  calc loadWord h i < 256 ^ (((h.toList.drop (8 * i)).take 8).map UInt8.toNat).length := hlt
    _ ≤ 256 ^ 8 := by
      apply Nat.pow_le_pow_right (by decide)
      rw [List.length_map]
      exact List.length_take_le _ _
    _ = 2 ^ 64 := by norm_num

/-- The digits of a list of numbers in two parts. -/
theorem ofDigits_split (n : Nat) (ds : List Nat) (hn : n ≤ ds.length) :
    Nat.ofDigits 256 ds = Nat.ofDigits 256 (ds.take n) + 256 ^ n * Nat.ofDigits 256 (ds.drop n) := by
  conv_lhs => rw [← List.take_append_drop n ds, Nat.ofDigits_append, List.length_take_of_le hn]

theorem littleEndian_eq_words (h : HashBytes) :
    littleEndian h = loadWord h 0 + 2 ^ 64 * loadWord h 1 + 2 ^ 128 * loadWord h 2 +
      2 ^ 192 * loadWord h 3 := by
  have hlength : (h.toList.map UInt8.toNat).length = 32 := by simp
  have hword (i : Nat) : loadWord h i =
      Nat.ofDigits 256 (((h.toList.map UInt8.toNat).drop (8 * i)).take 8) := by
    rw [loadWord, List.map_take, List.map_drop]
  have h0 := ofDigits_split 8 (h.toList.map UInt8.toNat) (by omega)
  have h1 := ofDigits_split 8 ((h.toList.map UInt8.toNat).drop 8) (by rw [List.length_drop]; omega)
  have h2 := ofDigits_split 8 ((h.toList.map UInt8.toNat).drop 16) (by rw [List.length_drop]; omega)
  have h3 := ofDigits_split 8 ((h.toList.map UInt8.toNat).drop 24) (by rw [List.length_drop]; omega)
  rw [List.drop_drop] at h1 h2 h3
  rw [List.drop_of_length_le (i := 8 + 24) (by omega), Nat.ofDigits_nil] at h3
  rw [littleEndian, hword, hword, hword, hword, h0, h1, h2, h3]
  simp only [Nat.mul_zero, List.drop_zero, Nat.reduceMul, Nat.add_zero]
  ring

theorem toNat_hashOfWords (h : HashBytes) : (hashOfWords h).toNat = littleEndian h := by
  have hsum := littleEndian_eq_words h
  have h0 := loadWord_lt h 0
  have h1 := loadWord_lt h 1
  have h2 := loadWord_lt h 2
  have h3 := loadWord_lt h 3
  rw [hashOfWords, BitVec.toNat_ofNat, Nat.mod_eq_of_lt (by omega)]
  omega

/-- Reverting the bytes turns one reading into the other. -/
theorem littleEndian_revertBytes (h : HashBytes) : littleEndian (revertBytes h) = bigEndian h := by
  rw [littleEndian, bigEndian, revertBytes, Vector.toList_reverse]

/-- The `w` lowest digits of a number. -/
theorem ofDigits_ofFn (w n : Nat) :
    Nat.ofDigits 256 (List.ofFn fun k : Fin w => n / 256 ^ k.val % 256) = n % 256 ^ w := by
  induction w generalizing n with
  | zero => simp [Nat.mod_one]
  | succ w ih =>
      have htail : (List.ofFn fun k : Fin w => n / 256 ^ (k.val + 1) % 256) =
          List.ofFn fun k : Fin w => n / 256 / 256 ^ k.val % 256 := by
        congr 1
        funext k
        rw [Nat.div_div_eq_div_mul, pow_succ, Nat.mul_comm]
      rw [List.ofFn_succ, Nat.ofDigits_cons]
      simp only [Fin.val_zero, pow_zero, Nat.div_one, Fin.val_succ]
      rw [htail, ih, pow_succ, Nat.mul_comm (256 ^ w), Nat.mod_mul]

/-- Byte `k` of the words of a number is its byte `k`. -/
theorem byteOfWords (n k : Nat) :
    n / 2 ^ (64 * (k / 8)) % 2 ^ 64 / 256 ^ (k % 8) % 256 = n / 256 ^ k % 256 := by
  have hword (x : Nat) {r : Nat} (hr : r < 8) : x % 2 ^ 64 / 256 ^ r % 256 = x / 256 ^ r % 256 := by
    interval_cases r <;> omega
  have hpow : 2 ^ (64 * (k / 8)) * 256 ^ (k % 8) = 256 ^ k := by
    calc 2 ^ (64 * (k / 8)) * 256 ^ (k % 8)
      _ = (2 ^ 8) ^ (8 * (k / 8)) * 256 ^ (k % 8) := by
          rw [← pow_mul, ← Nat.mul_assoc]
      _ = 256 ^ (8 * (k / 8) + k % 8) := by rw [pow_add]; rfl
      _ = 256 ^ k := by rw [Nat.div_add_mod]
  rw [hword _ (Nat.mod_lt k (by decide)), Nat.div_div_eq_div_mul, hpow]

theorem littleEndian_storeWords {n : Nat} (hn : n < 2 ^ 256) : littleEndian (storeWords n) = n := by
  rw [littleEndian, storeWords, Vector.toList_ofFn, List.map_ofFn]
  calc Nat.ofDigits 256 _
    _ = Nat.ofDigits 256 (List.ofFn fun k : Fin 32 => n / 256 ^ k.val % 256) := by
        congr 2
        funext k
        rw [Function.comp_apply, UInt8.toNat_ofNat']
        exact byteOfWords n k.val
    _ = n % 256 ^ 32 := ofDigits_ofFn 32 n
    _ = n := Nat.mod_eq_of_lt (by norm_num; omega)

theorem littleEndian_difficultyToBoundaryLong {difficulty : WideDifficulty} {boundary : HashBytes}
    (h : difficultyToBoundaryLong difficulty = some boundary) :
    littleEndian boundary = (2 ^ 256 - 1) / difficulty.toNat := by
  rw [difficultyToBoundaryLong] at h
  split at h
  · cases h
  · obtain rfl := Option.some.inj h
    apply littleEndian_storeWords
    calc (2 ^ 256 - 1) / difficulty.toNat ≤ 2 ^ 256 - 1 := Nat.div_le_self _ _
      _ < 2 ^ 256 := by decide

/-- A difficulty has a boundary unless it is zero. -/
theorem difficultyToBoundaryLong_isSome {difficulty : WideDifficulty}
    (hd : 1 ≤ difficulty.toNat) : ∃ boundary, difficultyToBoundaryLong difficulty = some boundary := by
  have hne : difficulty ≠ 0 := by
    rintro rfl
    exact absurd hd (by decide)
  rw [difficultyToBoundaryLong, if_neg hne]
  exact ⟨_, rfl⟩

/-- The slip of the fast check: the difficulty is `max64bit`, and the product of a hash with a
fourth word still fits. -/
def RefusedTooEarly (v d : Nat) : Prop :=
  d = 2 ^ 64 - 1 ∧ 2 ^ 192 ≤ v ∧ v * d < 2 ^ 256

/-- For every hash, read big-endian, and every difficulty from one on, `check_hash` accepts when
the product is below `2 ^ 256`, that is when the hash is at most the boundary. -/
theorem checkHash_means_target (hash : HashBytes) (difficulty : WideDifficulty)
    (hd : 1 ≤ difficulty.toNat) (hslip : ¬ RefusedTooEarly (bigEndian hash) difficulty.toNat) :
    (checkHashBytes hash difficulty = true ↔ bigEndian hash * difficulty.toNat < 2 ^ 256) ∧
    ∃ boundary, difficultyToBoundaryLong difficulty = some boundary ∧
      (checkHashBytes hash difficulty = true ↔ bigEndian hash ≤ littleEndian boundary) := by
  have hproduct :
      checkHashBytes hash difficulty = true ↔ bigEndian hash * difficulty.toNat < 2 ^ 256 := by
    rw [checkHashBytes]
    by_cases hmax : difficulty.toNat = 2 ^ 64 - 1
    · rw [checkHash_max64bit _ hmax, toNat_hashOfWords, littleEndian_revertBytes]
      constructor
      · intro hlt
        rw [hmax]
        omega
      · intro hlt
        by_contra hge
        exact hslip ⟨hmax, not_lt.mp hge, hlt⟩
    · rw [checkHash_iff _ hmax, toNat_hashOfWords, littleEndian_revertBytes]
  obtain ⟨boundary, hboundary⟩ := difficultyToBoundaryLong_isSome hd
  refine ⟨hproduct, boundary, hboundary, ?_⟩
  rw [hproduct, littleEndian_difficultyToBoundaryLong hboundary, Nat.le_div_iff_mul_le hd]
  omega

/-- The hash whose first byte is one. -/
def sampleHash : HashBytes := Vector.ofFn fun k : Fin 32 => if k.val = 0 then 1 else 0

theorem checkHash_means_target_sample :
    (checkHashBytes sampleHash 100 = true ↔ bigEndian sampleHash * 100 < 2 ^ 256) ∧
    ∃ boundary, difficultyToBoundaryLong 100 = some boundary ∧
      (checkHashBytes sampleHash 100 = true ↔ bigEndian sampleHash ≤ littleEndian boundary) :=
  checkHash_means_target sampleHash 100 (by decide) (fun h => absurd h.1 (by decide))

/-- The little-endian number of the hash itself does not decide: it is one here, but the bytes are
reverted first. -/
theorem checkHash_reads_bigEndian :
    ¬ (checkHashBytes sampleHash 1024 = true ↔ littleEndian sampleHash * 1024 < 2 ^ 256) := by
  decide +kernel

end Chinet
