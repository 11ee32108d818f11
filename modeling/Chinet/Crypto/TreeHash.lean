import Chinet.Lib.MerkleTree
import Chinet.Lib.PartialSteps
import Mathlib.Data.BitVec

/-!
# The tree hash

`tree_hash` of `tree-hash.c`.  The largest power of two below the number of hashes is found with
shifts.  As many of the last hashes are paired first as it takes to have that many, and the rest is
a full binary tree that is hashed in place, on the stack.

An access outside of the hashes or of the stack buffer ends the run, and so does the assertion
behind the first pass.  The sizes are `size_t` and wrap.
-/

namespace Chinet

open PartialSteps

abbrev SizeT := BitVec 64

/-- `HASH_SIZE` -/
def hashSize : SizeT := 32

/-- The shifts of `tree_hash`: of the bits of `cnt` the highest is left. -/
def highestBit (cnt : SizeT) : SizeT :=
  let cnt := [1, 2, 4, 8, 16, 32].foldl (fun cnt i => cnt ||| cnt >>> i) cnt
  cnt &&& ~~~(cnt >>> 1)

section

variable {H : Type} (cnFastHash : H → H → H)

/-- `cn_fast_hash` of the 64 bytes at `hashes[i]`. -/
def hashPair (hashes : List H) (i : Nat) : Defined H := do
  let first ← readAt hashes i
  let second ← readAt hashes (i + 1)
  return cnFastHash first second

def writeAt (hashes : List H) (i : Nat) (h : H) : Defined (List H) :=
  if i < hashes.length then .ok (hashes.set i h) else .error .indexOutOfRange

/-- `memcpy` of the first `n` hashes. -/
def copyHashes (ints hashes : List H) (n : Nat) : Defined (List H) :=
  if n ≤ hashes.length ∧ n ≤ ints.length then .ok (hashes.take n ++ ints.drop n)
  else .error .indexOutOfRange

/-- The first pass, from the hashes into the buffer. -/
def firstPass (hashes : List H) (cnt i j : Nat) (ints : List H) : Defined (Nat × List H) :=
  if j < cnt then do
    let h ← hashPair cnFastHash hashes i
    let ints ← writeAt ints j h
    firstPass hashes cnt (i + 2) (j + 1) ints
  else return (i, ints)
termination_by cnt - j

/-- A later pass, in the buffer. -/
def nextPass (cnt i j : Nat) (ints : List H) : Defined (List H) :=
  if j < cnt then do
    let h ← hashPair cnFastHash ints i
    let ints ← writeAt ints j h
    nextPass cnt (i + 2) (j + 1) ints
  else return ints
termination_by cnt - j

/-- The passes until two hashes are left. -/
def nextPasses (cnt : Nat) (ints : List H) : Defined (List H) :=
  if 2 < cnt then do
    let ints ← nextPass cnFastHash (cnt / 2) 0 0 ints
    nextPasses (cnt / 2) ints
  else return ints
termination_by cnt

/-- `tree_hash`, with what is on the stack before. -/
def treeHash (stack : Nat → H) (hashes : List H) : Defined H := do
  let count : SizeT := BitVec.ofNat 64 hashes.length
  assert (count > 0)
  if count = 1 then readAt hashes 0
  else if count = 2 then hashPair cnFastHash hashes 0
  else
    let cnt := highestBit (count - 1)
    let ints := (List.range ((cnt * hashSize).toNat / 32)).map stack
    let ints ← copyHashes ints hashes (((2 * cnt - count) * hashSize).toNat / 32)
    let (i, ints) ←
      firstPass cnFastHash hashes cnt.toNat (2 * cnt - count).toNat (2 * cnt - count).toNat ints
    assert (i = count.toNat)
    let ints ← nextPasses cnFastHash cnt.toNat ints
    hashPair cnFastHash ints 0

end

/-- An array of hashes is an object in memory: its size in bytes is a `size_t`. -/
def FitsMemory {H : Type} (hashes : List H) : Prop := hashes.length * 32 < 2 ^ 64

/-! ## The highest bit -/

/-- A bit of `cnt` is set when one of the `m` bits of `x` from there on is. -/
def Smeared (x cnt : SizeT) (m : Nat) : Prop :=
  ∀ j, cnt.getLsbD j = true ↔ ∃ t < m, x.getLsbD (j + t) = true

/-- A shift by `m` doubles the number of bits. -/
theorem Smeared.or_shift {x cnt : SizeT} {m : Nat} (h : Smeared x cnt m) :
    Smeared x (cnt ||| cnt >>> m) (2 * m) := by
  intro j
  rw [BitVec.getLsbD_or, BitVec.getLsbD_ushiftRight, Bool.or_eq_true, h j, h (m + j)]
  constructor
  · rintro (⟨t, ht, hbit⟩ | ⟨t, ht, hbit⟩)
    · exact ⟨t, by omega, hbit⟩
    · exact ⟨m + t, by omega, by rwa [show j + (m + t) = m + j + t by omega]⟩
  · rintro ⟨t, ht, hbit⟩
    rcases Nat.lt_or_ge t m with hlow | hhigh
    · exact .inl ⟨t, hlow, hbit⟩
    · exact .inr ⟨t - m, by omega, by rwa [show m + j + (t - m) = j + t by omega]⟩

theorem Smeared.refl (x : SizeT) : Smeared x x 1 := by
  intro j
  constructor
  · intro hbit
    exact ⟨0, Nat.one_pos, hbit⟩
  · rintro ⟨t, ht, hbit⟩
    rwa [show j + t = j by omega] at hbit

/-- All bits from a place on, together, tell whether the number reaches the place's power. -/
theorem Smeared.getLsbD_iff {x cnt : SizeT} (h : Smeared x cnt 64) (j : Nat) :
    cnt.getLsbD j = true ↔ 2 ^ j ≤ x.toNat := by
  rw [h j]
  constructor
  · rintro ⟨t, -, hbit⟩
    calc 2 ^ j ≤ 2 ^ (j + t) := Nat.pow_le_pow_right (by omega) (by omega)
      _ ≤ x.toNat := Nat.ge_two_pow_of_testBit hbit
  · intro hpow
    obtain ⟨i, hi, hbit⟩ := Nat.exists_ge_and_testBit_of_ge_two_pow hpow
    have hwidth : i < 64 := by
      by_contra hge
      change x.getLsbD i = true at hbit
      rw [BitVec.getLsbD_of_ge _ _ (by omega)] at hbit
      cases hbit
    exact ⟨i - j, by omega, by rwa [show j + (i - j) = i by omega]⟩

theorem highestBit_eq {x : SizeT} (hx : x.toNat ≠ 0) :
    (highestBit x).toNat = 2 ^ Nat.log2 x.toNat := by
  have hsmeared := (((((Smeared.refl x).or_shift).or_shift).or_shift).or_shift).or_shift.or_shift
  have hwidth : Nat.log2 x.toNat < 64 := (Nat.log2_lt hx).mpr x.isLt
  have hbits : highestBit x = BitVec.twoPow 64 (Nat.log2 x.toNat) := by
    apply BitVec.eq_of_getLsbD_eq
    intro j hj
    have hhere := hsmeared.getLsbD_iff j
    have hnext := hsmeared.getLsbD_iff (1 + j)
    rw [Bool.eq_iff_iff, BitVec.getLsbD_twoPow, highestBit]
    simp only [List.foldl_cons, List.foldl_nil, BitVec.getLsbD_and, BitVec.getLsbD_not,
      BitVec.getLsbD_ushiftRight, Bool.and_eq_true, Bool.not_eq_true', decide_eq_true_eq,
      ← Bool.not_eq_true]
    rw [hhere, hnext, and_iff_right hwidth, Nat.log2_eq_iff hx, Nat.add_comm 1 j]
    constructor
    · rintro ⟨hge, -, hlt⟩
      exact ⟨hge, by omega⟩
    · rintro ⟨hge, hlt⟩
      exact ⟨hge, hj, by omega⟩
  rw [hbits, BitVec.toNat_twoPow, Nat.mod_eq_of_lt (Nat.pow_lt_pow_right (by omega) hwidth)]

/-! ## The passes -/

section

variable {H : Type} {cnFastHash : H → H → H}

theorem hashPair_eq_ok {hashes rest : List H} {i : Nat} {first second : H}
    (h : hashes.drop i = first :: second :: rest) :
    hashPair cnFastHash hashes i = .ok (cnFastHash first second) := by
  have hfirst : hashes[i]? = some first := by
    have hdrop := congrArg (·[0]?) h
    simpa using hdrop
  have hsecond : hashes[i + 1]? = some second := by
    have hdrop := congrArg (·[1]?) h
    simpa using hdrop
  rw [hashPair, readAt, hfirst, readAt, hsecond]
  rfl

theorem writeAt_eq_ok {hashes : List H} {i : Nat} (h : i < hashes.length) (x : H) :
    writeAt hashes i x = .ok (hashes.set i x) := if_pos h

/-- The places up to a written one. -/
theorem take_succ_set {ints : List H} {j : Nat} (hj : j < ints.length) (x : H) :
    (ints.set j x).take (j + 1) = ints.take j ++ [x] := by
  have hlength : (ints.take j ++ [x]).length = j + 1 := by
    rw [List.length_append, List.length_take, List.length_singleton]
    omega
  have hset : ints.set j x = ints.take j ++ [x] ++ ints.drop (j + 1) := by
    rw [List.set_eq_take_append_cons_drop, if_pos hj, List.append_assoc]
    rfl
  rw [hset, List.take_left' hlength]

theorem exists_drop_eq {hashes : List H} {i : Nat} (hi : i + 2 ≤ hashes.length) :
    ∃ first second, hashes.drop i = first :: second :: hashes.drop (i + 2) := by
  match hdrop : hashes.drop i with
  | first :: second :: rest =>
      have hrest : hashes.drop (i + 2) = rest := by
        rw [← List.drop_drop, hdrop]
        rfl
      exact ⟨first, second, by rw [hrest]⟩
  | [_] | [] =>
      have hlength := congrArg List.length hdrop
      simp only [List.length_drop, List.length_cons, List.length_nil] at hlength
      omega

variable (cnFastHash)

/-- The first pass consumes the leaves to the last, two for each place that is left. -/
theorem firstPass_eq {hashes : List H} {cnt : Nat} (k : Nat) {i j : Nat} {ints : List H}
    (hi : i + 2 * k = hashes.length) (hj : j + k = cnt) (hints : ints.length = cnt) :
    firstPass cnFastHash hashes cnt i j ints =
      .ok (hashes.length, ints.take j ++ MerkleTree.level cnFastHash (hashes.drop i)) := by
  induction k generalizing i j ints with
  | zero =>
      rw [firstPass, if_neg (by omega), List.take_of_length_le (by omega),
        List.drop_of_length_le (by omega), MerkleTree.level_nil, List.append_nil,
        show i = hashes.length by omega]
      rfl
  | succ k ih =>
      obtain ⟨first, second, hdrop⟩ := exists_drop_eq (show i + 2 ≤ hashes.length by omega)
      have hplace : j < ints.length := by omega
      have hset : (ints.set j (cnFastHash first second)).length = cnt := by
        rw [List.length_set, hints]
      rw [firstPass, if_pos (by omega), hashPair_eq_ok hdrop, ok_bind, writeAt_eq_ok hplace, ok_bind,
        ih (by omega) (by omega) hset, take_succ_set hplace, hdrop, MerkleTree.level_cons_cons,
        List.append_assoc, List.singleton_append]

/-- A later pass fills the places before `cnt`, and reads no place that it has filled. -/
theorem nextPass_eq {cnt : Nat} (k : Nat) {j : Nat} {ints : List H} (hj : j + k = cnt)
    (hints : 2 * cnt ≤ ints.length) :
    nextPass cnFastHash cnt (2 * j) j ints =
      .ok (ints.take j ++ MerkleTree.level cnFastHash ((ints.drop (2 * j)).take (2 * k)) ++
        ints.drop cnt) := by
  induction k generalizing j ints with
  | zero =>
      rw [nextPass, if_neg (by omega), Nat.mul_zero, List.take_zero, MerkleTree.level_nil,
        List.append_nil, show cnt = j by omega, List.take_append_drop]
      rfl
  | succ k ih =>
      obtain ⟨first, second, hdrop⟩ := exists_drop_eq (show 2 * j + 2 ≤ ints.length by omega)
      have hplace : j < ints.length := by omega
      have hset : 2 * cnt ≤ (ints.set j (cnFastHash first second)).length := by
        rw [List.length_set]
        exact hints
      -- the pair behind the one that was read is where it was
      have hread : (ints.set j (cnFastHash first second)).drop (2 * (j + 1)) =
          ints.drop (2 * j + 2) := List.drop_set_of_lt (by omega)
      have hrest : (ints.set j (cnFastHash first second)).drop cnt = ints.drop cnt :=
        List.drop_set_of_lt (by omega)
      have hnext := ih (show j + 1 + k = cnt by omega) hset
      rw [hread, hrest, take_succ_set hplace] at hnext
      rw [nextPass, if_pos (by omega), hashPair_eq_ok hdrop, ok_bind, writeAt_eq_ok hplace, ok_bind,
        show 2 * j + 2 = 2 * (j + 1) by omega, hnext, hdrop,
        show 2 * (k + 1) = 2 * k + 1 + 1 by omega, List.take_succ_cons, List.take_succ_cons,
        MerkleTree.level_cons_cons]
      simp only [List.append_assoc, List.cons_append, List.nil_append]

/-- The passes leave the two halves of the full tree at the front of the buffer. -/
theorem nextPasses_eq {d : Nat} {ints : List H} (hints : 2 ^ (d + 1) ≤ ints.length) :
    ∃ first second rest, nextPasses cnFastHash (2 ^ (d + 1)) ints = .ok (first :: second :: rest) ∧
      MerkleTree.root cnFastHash (d + 1) (ints.take (2 ^ (d + 1))) =
        some (cnFastHash first second) := by
  induction d generalizing ints with
  | zero =>
      obtain ⟨first, second, hdrop⟩ := exists_drop_eq (show 0 + 2 ≤ ints.length by omega)
      rw [List.drop_zero] at hdrop
      refine ⟨first, second, ints.drop (0 + 2), ?_, ?_⟩
      · rw [nextPasses, if_neg (by omega), ← hdrop]
        rfl
      · rw [hdrop]
        rfl
  | succ d ih =>
      have hpow : 2 ^ (d + 2) = 2 * 2 ^ (d + 1) := Nat.pow_succ'
      have hpos : 0 < 2 ^ d := Nat.two_pow_pos d
      have hpow' : 2 ^ (d + 1) = 2 * 2 ^ d := Nat.pow_succ'
      have hpass := nextPass_eq cnFastHash (2 ^ (d + 1)) (Nat.zero_add _)
        (show 2 * 2 ^ (d + 1) ≤ ints.length by omega)
      rw [List.take_zero, List.nil_append, Nat.mul_zero, List.drop_zero, ← hpow] at hpass
      have hlength : (ints.take (2 ^ (d + 2))).length = 2 * 2 ^ (d + 1) := by
        rw [List.length_take]
        omega
      have hlevel := MerkleTree.length_level cnFastHash hlength
      obtain ⟨first, second, rest, hpasses, hroot⟩ := ih (show 2 ^ (d + 1) ≤
          (MerkleTree.level cnFastHash (ints.take (2 ^ (d + 2))) ++
            ints.drop (2 ^ (d + 1))).length by
        rw [List.length_append, hlevel]
        omega)
      refine ⟨first, second, rest, ?_, ?_⟩
      · rw [nextPasses, if_pos (by omega), show 2 ^ (d + 1 + 1) / 2 = 2 ^ (d + 1) by omega, hpass]
        exact hpasses
      · rw [List.take_left' hlevel] at hroot
        rw [MerkleTree.root_succ cnFastHash (hlength.trans hpow.symm)]
        exact hroot

/-! ## The hash -/

/-- The numbers that `tree_hash` computes from the count of three or more hashes. -/
theorem treeHash_sizes {n d : Nat} (hn : 3 ≤ n) (hfits : n * 32 < 2 ^ 64)
    (hd : MerkleTree.depth n = d) {count cnt : SizeT} (hcount : count = BitVec.ofNat 64 n)
    (hcnt : cnt = highestBit (count - 1)) :
    count.toNat = n ∧ cnt.toNat = 2 ^ d ∧ (cnt * hashSize).toNat / 32 = 2 ^ d ∧
      (2 * cnt - count).toNat = MerkleTree.single n ∧
      ((2 * cnt - count) * hashSize).toNat / 32 = MerkleTree.single n := by
  have hpow := MerkleTree.two_pow_depth (show 0 < n by omega)
  have hcountNat : count.toNat = n := by
    rw [hcount, BitVec.toNat_ofNat, Nat.mod_eq_of_lt (by omega)]
  have hpred : (count - 1).toNat = n - 1 := by
    rw [BitVec.toNat_sub_of_le (by rw [BitVec.le_def, hcountNat]; change 1 ≤ n; omega), hcountNat]
    rfl
  have hcntNat : cnt.toNat = 2 ^ d := by
    rw [hcnt, highestBit_eq (by omega), hpred, ← hd]
    rfl
  rw [hd] at hpow
  have htwice : (2 * cnt : SizeT).toNat = 2 * 2 ^ d := by
    rw [BitVec.toNat_mul_of_lt (by rw [hcntNat]; change 2 * 2 ^ d < 2 ^ 64; omega), hcntNat]
    rfl
  have hsingle : (2 * cnt - count).toNat = MerkleTree.single n := by
    rw [BitVec.toNat_sub_of_le (by rw [BitVec.le_def, hcountNat, htwice]; exact hpow.1), htwice,
      hcountNat, MerkleTree.single, hd]
  have hbytes : ∀ {size : SizeT}, size.toNat * 32 < 2 ^ 64 →
      (size * hashSize).toNat / 32 = size.toNat := by
    intro size hsize
    rw [BitVec.toNat_mul_of_lt hsize]
    exact Nat.mul_div_cancel _ (by decide)
  have hle : MerkleTree.single n ≤ 2 ^ d := by
    rw [MerkleTree.single, hd]
    omega
  exact ⟨hcountNat, hcntNat, by rw [hbytes (by omega), hcntNat], hsingle,
    by rw [hbytes (by omega), hsingle]⟩

/-- Three or more hashes. -/
theorem treeHash_eq_of_three_le (stack : Nat → H) {hashes : List H} (hthree : 3 ≤ hashes.length)
    (hfits : FitsMemory hashes) :
    ∃ root, treeHash cnFastHash stack hashes = .ok root ∧
      MerkleTree.treeRoot cnFastHash hashes = some root := by
  obtain ⟨d, hd⟩ : ∃ d, MerkleTree.depth hashes.length = d + 1 := by
    have hlog : 1 ≤ MerkleTree.depth hashes.length :=
      (Nat.le_log2 (by omega)).mpr (by omega)
    exact ⟨MerkleTree.depth hashes.length - 1, by omega⟩
  have hne : hashes ≠ [] := List.ne_nil_of_length_pos (by omega)
  have hpow := MerkleTree.two_pow_depth (show 0 < hashes.length by omega)
  have hfull := MerkleTree.length_fullLeaves cnFastHash hne
  rw [hd] at hpow hfull
  obtain ⟨hcount, hcnt, halloca, hskip, hcopy⟩ := treeHash_sizes hthree hfits hd rfl rfl
  have hsingle : MerkleTree.single hashes.length = 2 * 2 ^ (d + 1) - hashes.length := by
    rw [MerkleTree.single, hd]
  have hnotOne : BitVec.ofNat 64 hashes.length ≠ 1 := by
    intro heq
    rw [heq] at hcount
    change 1 = hashes.length at hcount
    omega
  have hnotTwo : BitVec.ofNat 64 hashes.length ≠ 2 := by
    intro heq
    rw [heq] at hcount
    change 2 = hashes.length at hcount
    omega
  have hpositive : decide (BitVec.ofNat 64 hashes.length > 0) = true := by
    rw [decide_eq_true_eq, gt_iff_lt, BitVec.lt_def, hcount]
    change 0 < hashes.length
    omega
  -- the buffer, with the first leaves in it
  obtain ⟨ints, hints, hlength⟩ : ∃ ints : List H,
      (List.range (2 ^ (d + 1))).map stack = ints ∧ ints.length = 2 ^ (d + 1) :=
    ⟨_, rfl, by rw [List.length_map, List.length_range]⟩
  have hcopied : copyHashes ints hashes (MerkleTree.single hashes.length) =
      .ok (hashes.take (MerkleTree.single hashes.length) ++
        ints.drop (MerkleTree.single hashes.length)) :=
    if_pos ⟨by omega, by omega⟩
  have htake : (hashes.take (MerkleTree.single hashes.length)).length =
      MerkleTree.single hashes.length := by
    rw [List.length_take]
    omega
  have hplaces : (hashes.take (MerkleTree.single hashes.length) ++
      ints.drop (MerkleTree.single hashes.length)).length = 2 ^ (d + 1) := by
    rw [List.length_append, htake, List.length_drop]
    omega
  have hfirst := firstPass_eq cnFastHash (hashes.length - 2 ^ (d + 1))
    (show MerkleTree.single hashes.length + 2 * (hashes.length - 2 ^ (d + 1)) = hashes.length by
      omega)
    (show MerkleTree.single hashes.length + (hashes.length - 2 ^ (d + 1)) = 2 ^ (d + 1) by omega)
    hplaces
  rw [List.take_left' htake] at hfirst
  obtain ⟨first, second, rest, hpasses, hroot⟩ :=
    nextPasses_eq cnFastHash hfull.ge
  rw [List.take_of_length_le hfull.le, ← hd] at hroot
  refine ⟨cnFastHash first second, ?_, hroot⟩
  rw [treeHash, assert_eq_ok hpositive, ok_bind, if_neg hnotOne, if_neg hnotTwo]
  dsimp only
  rw [halloca, hcopy, hskip, hcnt, hcount, hints, hcopied, ok_bind, hfirst, ok_bind]
  dsimp only
  rw [assert_eq_ok (decide_eq_true rfl), ok_bind]
  change (nextPasses cnFastHash (2 ^ (d + 1)) (MerkleTree.fullLeaves cnFastHash hashes) >>= _) = _
  rw [hpasses, ok_bind]
  exact hashPair_eq_ok rfl

/-- Every access of `tree_hash` is inside the hashes or its buffer, the first pass ends behind the
last hash, and the result is the root of the tree, whatever was on the stack. -/
theorem treeHash_eq (stack : Nat → H) {hashes : List H} (hne : hashes ≠ [])
    (hfits : FitsMemory hashes) :
    ∃ root, treeHash cnFastHash stack hashes = .ok root ∧
      MerkleTree.treeRoot cnFastHash hashes = some root := by
  match hashes, hne, hfits with
  | [h], _, _ => exact ⟨h, rfl, rfl⟩
  | [first, second], _, _ => exact ⟨cnFastHash first second, rfl, rfl⟩
  | _ :: _ :: _ :: hashes, _, hfits =>
      exact treeHash_eq_of_three_le cnFastHash stack (by simp only [List.length_cons]; omega) hfits

end

end Chinet
