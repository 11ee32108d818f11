import Chinet.Crypto.TreeHash
import Chinet.Serialization.WireFormat
import Mathlib.Data.Nat.Pairing

/-!
# Block hashes

`get_block_hash` hashes the header, the tree hash over the ids of the transactions, and their
number.  A header with a major version that `do_serialize` does not know leaves the version alone
in the blob, and nobody looks at what `t_serializable_object_to_blob` returns.
-/

namespace Chinet
namespace BlockHash

open PartialSteps

/-! ## Data -/

structure BlockHeader where
  majorVersion : UInt8
  minorVersion : UInt8
  timestamp : UInt64
  prevId : Hash
  nonce : UInt64
  flags : UInt8
deriving DecidableEq

structure Block extends BlockHeader where
  minerTx : Wire.Transaction
  txHashes : List Hash
deriving DecidableEq

/-- The header in the wire format, if its version is known. -/
def BlockHeader.toWire (b : BlockHeader) : Option Wire.BlockHeader :=
  if h : ¬ b.majorVersion > currentBlockMajorVersion then
    some ⟨⟨b.majorVersion, h⟩, b.minorVersion.toNat, b.timestamp.toNat, b.prevId, b.nonce.toBitVec,
      b.flags⟩
  else none

/-- `t_serializable_object_to_blob` of a header. -/
def BlockHeader.toBlob (b : BlockHeader) : ByteString :=
  match b.toWire with
  | some header => tSerializableObjectToBlob Wire.blockHeader header
  | none => [b.majorVersion]

/-! ## Hashes -/

section

variable (cnFastHash : ByteString → Hash) (stack : Nat → Hash)

def getTransactionHash (t : Wire.Transaction) : Hash :=
  cnFastHash (tSerializableObjectToBlob Wire.transactionPrefix t.toTransactionPrefix)

/-- The 64 bytes of two hashes. -/
def pairBytes (first second : Hash) : ByteString :=
  tSerializableObjectToBlob Wire.hash first ++ tSerializableObjectToBlob Wire.hash second

def txsIds (b : Block) : List Hash := getTransactionHash cnFastHash b.minerTx :: b.txHashes

def getTxTreeHash (b : Block) : Defined Hash :=
  treeHash (fun first second => cnFastHash (pairBytes first second)) stack (txsIds cnFastHash b)

def getBlockHashingBlob (b : Block) : Defined ByteString := do
  let treeRootHash ← getTxTreeHash cnFastHash stack b
  return b.toBlob ++ tSerializableObjectToBlob Wire.hash treeRootHash ++
    writeVarint (b.txHashes.length + 1)

/-- `get_object_hash` of the hashing blob, a string. -/
def getBlockHash (b : Block) : Defined Hash := do
  let blob ← getBlockHashingBlob cnFastHash stack b
  return cnFastHash (tSerializableObjectToBlob serializeString blob)

end

/-! ## The hashing blob -/

theorem delimits_blockHeader :
    Wire.blockHeader.Delimits fun b => b.minorVersion < 2 ^ 8 ∧ b.timestamp < 2 ^ 64 := by
  have hversion := Codec.delimits_byte.check fun version => ¬ version > currentBlockMajorVersion
  have hrest := (delimits_serializeUint 8).pair ((delimits_serializeBlob 32).pair
    ((delimits_varintField 8 (Nat.zero_lt_succ 7)).pair
      ((delimits_varintField 64 (Nat.zero_lt_succ 63)).pair Codec.delimits_byte)))
  refine (hversion.pair hrest).map _
    (fun b hb => ⟨trivial, trivial, trivial, hb.1, hb.2, trivial⟩) fun b b' _ _ heq => ?_
  cases b
  cases b'
  cases heq
  rfl

/-- The version is the first byte in either case. -/
theorem BlockHeader.exists_toBlob (b : BlockHeader) : ∃ rest, b.toBlob = b.majorVersion :: rest := by
  unfold toBlob toWire
  split_ifs with hversion
  · exact ⟨_, rfl⟩
  · exact ⟨_, rfl⟩

theorem BlockHeader.toWire_inj {b b' : BlockHeader} {header : Wire.BlockHeader}
    (h : b.toWire = some header) (h' : b'.toWire = some header) : b = b' := by
  unfold toWire at h h'
  split_ifs at h h'
  rw [← h', Option.some.injEq] at h
  simp only [Wire.BlockHeader.mk.injEq, Subtype.mk.injEq, UInt8.toNat_inj, UInt64.toNat_inj,
    UInt64.toBitVec_inj] at h
  obtain ⟨hmajor, hminor, htimestamp, hprev, hnonce, hflags⟩ := h
  cases b
  cases b'
  simp_all

/-- Of a header with an unknown version only the version is written. -/
theorem BlockHeader.toBlob_of_unknown {b : BlockHeader}
    (h : b.majorVersion > currentBlockMajorVersion) : b.toBlob = [b.majorVersion] := by
  rw [toBlob, toWire, dif_neg (not_not.mpr h)]

/-- What is behind a header in a blob is told from the header, and so is the header itself if its
version is known. -/
theorem BlockHeader.toBlob_append_inj {b b' : BlockHeader} {s t : ByteString}
    (h : b.toBlob ++ s = b'.toBlob ++ t) :
    b.majorVersion = b'.majorVersion ∧ s = t ∧
      (¬ b.majorVersion > currentBlockMajorVersion → b = b') := by
  obtain ⟨rest, hrest⟩ := b.exists_toBlob
  obtain ⟨rest', hrest'⟩ := b'.exists_toBlob
  have hmajor : b.majorVersion = b'.majorVersion := by
    rw [hrest, hrest'] at h
    exact (List.cons.inj h).1
  refine ⟨hmajor, ?_⟩
  by_cases hversion : b.majorVersion > currentBlockMajorVersion
  · rw [toBlob_of_unknown hversion, toBlob_of_unknown (hmajor ▸ hversion)] at h
    exact ⟨(List.cons.inj h).2, fun hknown => absurd hversion hknown⟩
  · obtain ⟨header, hheader⟩ : ∃ header, b.toWire = some header := ⟨_, dif_pos hversion⟩
    obtain ⟨header', hheader'⟩ : ∃ header, b'.toWire = some header :=
      ⟨_, dif_pos (hmajor ▸ hversion)⟩
    have hfits : ∀ {b : BlockHeader} {header : Wire.BlockHeader}, b.toWire = some header →
        header.minorVersion < 2 ^ 8 ∧ header.timestamp < 2 ^ 64 := by
      intro b header hb
      unfold toWire at hb
      split_ifs at hb
      cases hb
      exact ⟨b.minorVersion.toNat_lt, b.timestamp.toNat_lt⟩
    unfold toBlob at h
    rw [hheader, hheader'] at h
    obtain ⟨rfl, hst⟩ := delimits_blockHeader (hfits hheader) (hfits hheader') h
    exact ⟨hst, fun _ => toWire_inj hheader hheader'⟩

/-- The root hash and the number of hashes are told from what is behind the header. -/
theorem hash_append_varint_inj {root root' : Hash} {n n' : Nat} (hn : n < 2 ^ 64)
    (hn' : n' < 2 ^ 64)
    (h : tSerializableObjectToBlob Wire.hash root ++ writeVarint n =
      tSerializableObjectToBlob Wire.hash root' ++ writeVarint n') : root = root' ∧ n = n' := by
  obtain ⟨hroot, hvarint⟩ := delimits_serializeBlob 32 trivial trivial h
  have hread := readVarint_writeVarint [] (show 0 < 64 by decide) hn
  rw [hvarint, readVarint_writeVarint [] (by decide) hn', VarintRead.mk.injEq] at hread
  exact ⟨hroot, hread.2.1.symm⟩

/-- Strings are told from their serialization, whatever their length. -/
theorem serializeString_inj {blob blob' : ByteString}
    (h : tSerializableObjectToBlob serializeString blob =
      tSerializableObjectToBlob serializeString blob') : blob = blob' := by
  have hbytes : ∀ blob : ByteString, Codec.byte.writeMany blob = blob := fun blob =>
    List.flatMap_singleton' blob
  have hwrite : ∀ blob : ByteString, tSerializableObjectToBlob serializeString blob =
      (serializeUvarint 64 (Nat.zero_lt_succ 63)).write (BitVec.ofNat 64 blob.length) ++ blob := by
    intro blob
    change uint64Field.write blob.length ++ Codec.byte.writeMany blob = _
    rw [hbytes]
    rfl
  rw [hwrite, hwrite] at h
  exact (delimits_serializeUvarint 64 _ trivial trivial h).2

/-! ## What a block hash commits to -/

/-- What is hashed for the id of a block, the id of its miner transaction apart. -/
def hashedInputs (cnFastHash : ByteString → Hash) (stack : Nat → Hash) (b : Block) :
    List ByteString :=
  (MerkleTree.treePairs (fun first second => cnFastHash (pairBytes first second))
      (txsIds cnFastHash b)).map (fun pair => pairBytes pair.1 pair.2) ++
    match getBlockHashingBlob cnFastHash stack b with
    | .ok blob => [tSerializableObjectToBlob serializeString blob]
    | .error _ => []

variable {cnFastHash : ByteString → Hash} {stack stack' : Nat → Hash}

theorem pairBytes_inj {first second first' second' : Hash}
    (h : pairBytes first second = pairBytes first' second') :
    first = first' ∧ second = second' := by
  obtain ⟨hfirst, hrest⟩ := delimits_serializeBlob 32 trivial trivial h
  exact ⟨hfirst, ((delimits_serializeBlob 32).write_inj trivial trivial).mp hrest⟩

/-- Inputs that do not collide are pairs that do not collide. -/
theorem collisionFree_of_injOn {inputs : List ByteString} {pairs : List (Hash × Hash)}
    (h : Set.InjOn cnFastHash {input | input ∈ inputs})
    (hpairs : ∀ pair ∈ pairs, pairBytes pair.1 pair.2 ∈ inputs) :
    MerkleTree.CollisionFree (fun first second => cnFastHash (pairBytes first second)) pairs := by
  intro p hp q hq heq
  obtain ⟨hfirst, hsecond⟩ := pairBytes_inj (h (hpairs p hp) (hpairs q hq) heq)
  exact Prod.ext hfirst hsecond

/-- A block of a size that fits has a hash, over the root of the tree. -/
theorem exists_getBlockHash (stack : Nat → Hash) (b : Block)
    (hfits : FitsMemory (txsIds cnFastHash b)) :
    ∃ root,
      MerkleTree.treeRoot (fun first second => cnFastHash (pairBytes first second))
        (txsIds cnFastHash b) = some root ∧
      getBlockHashingBlob cnFastHash stack b =
        .ok (b.toBlob ++ tSerializableObjectToBlob Wire.hash root ++
          writeVarint (b.txHashes.length + 1)) := by
  have hne : txsIds cnFastHash b ≠ [] := List.cons_ne_nil _ _
  obtain ⟨root, htree, hroot⟩ := treeHash_eq _ stack hne hfits
  refine ⟨root, hroot, ?_⟩
  rw [getBlockHashingBlob, getTxTreeHash, htree, ok_bind]
  rfl

/-- Two blocks with one hash have the same transactions, and the same header if its version is
known. -/
theorem eq_of_getBlockHash_eq {b b' : Block} (hfits : FitsMemory (txsIds cnFastHash b))
    (hfits' : FitsMemory (txsIds cnFastHash b'))
    (hfree : Set.InjOn cnFastHash {input |
      input ∈ hashedInputs cnFastHash stack b ++ hashedInputs cnFastHash stack' b'})
    (heq : getBlockHash cnFastHash stack b = getBlockHash cnFastHash stack' b') :
    b.majorVersion = b'.majorVersion ∧
      getTransactionHash cnFastHash b.minerTx = getTransactionHash cnFastHash b'.minerTx ∧
      b.txHashes = b'.txHashes ∧
      (¬ b.majorVersion > currentBlockMajorVersion → b.toBlockHeader = b'.toBlockHeader) := by
  obtain ⟨root, hroot, hblob⟩ := exists_getBlockHash stack b hfits
  obtain ⟨root', hroot', hblob'⟩ := exists_getBlockHash stack' b' hfits'
  rw [getBlockHash, getBlockHash, hblob, hblob', ok_bind, ok_bind] at heq
  have hobject := hfree (by simp [hashedInputs, hblob]) (by simp [hashedInputs, hblob'])
    (Except.ok.inj heq)
  have hblobs := serializeString_inj hobject
  rw [List.append_assoc, List.append_assoc] at hblobs
  obtain ⟨hmajor, hbehind, hheader⟩ := BlockHeader.toBlob_append_inj hblobs
  have hcount : ∀ {b : Block}, FitsMemory (txsIds cnFastHash b) →
      b.txHashes.length + 1 < 2 ^ 64 := by
    intro b hb
    rw [FitsMemory, txsIds, List.length_cons] at hb
    omega
  obtain ⟨rfl, hlength⟩ := hash_append_varint_inj (hcount hfits) (hcount hfits') hbehind
  have hpairs : MerkleTree.CollisionFree (fun first second => cnFastHash (pairBytes first second))
      (MerkleTree.treePairs (fun first second => cnFastHash (pairBytes first second))
        (txsIds cnFastHash b) ++
      MerkleTree.treePairs (fun first second => cnFastHash (pairBytes first second))
        (txsIds cnFastHash b')) := by
    refine collisionFree_of_injOn hfree fun pair hpair => ?_
    rcases List.mem_append.mp hpair with hpair | hpair
    · exact List.mem_append_left _ (List.mem_append_left _ (List.mem_map_of_mem hpair))
    · exact List.mem_append_right _ (List.mem_append_left _ (List.mem_map_of_mem hpair))
  have hids := MerkleTree.treeRoot_inj (by simpa [txsIds] using hlength) hpairs
    (hroot.trans hroot'.symm)
  rw [txsIds, txsIds, List.cons.injEq] at hids
  exact ⟨hmajor, hids.1, hids.2, hheader⟩

/-- `tree_hash` stays in its buffers and computes the root of the tree; without collisions among
the pairs it commits to the hashes, and the block hash commits to the transactions, and to the
header if its version is known. -/
theorem tree_hash_commits :
    (∀ {H : Type} (node : H → H → H) (stack : Nat → H) (hashes : List H), hashes ≠ [] →
      FitsMemory hashes → ∃ root, treeHash node stack hashes = .ok root ∧
        MerkleTree.treeRoot node hashes = some root) ∧
    (∀ {H : Type} (node : H → H → H) (stack stack' : Nat → H) (hashes hashes' : List H),
      FitsMemory hashes → hashes.length = hashes'.length →
      MerkleTree.CollisionFree node
        (MerkleTree.treePairs node hashes ++ MerkleTree.treePairs node hashes') →
      treeHash node stack hashes = treeHash node stack' hashes' → hashes = hashes') ∧
    ∀ (cnFastHash : ByteString → Hash) (stack stack' : Nat → Hash) (b b' : Block),
      FitsMemory (txsIds cnFastHash b) → FitsMemory (txsIds cnFastHash b') →
      Set.InjOn cnFastHash {input |
        input ∈ hashedInputs cnFastHash stack b ++ hashedInputs cnFastHash stack' b'} →
      getBlockHash cnFastHash stack b = getBlockHash cnFastHash stack' b' →
      b.majorVersion = b'.majorVersion ∧
        getTransactionHash cnFastHash b.minerTx = getTransactionHash cnFastHash b'.minerTx ∧
        b.txHashes = b'.txHashes ∧
        (¬ b.majorVersion > currentBlockMajorVersion → b.toBlockHeader = b'.toBlockHeader) := by
  refine ⟨fun node stack _ hne hfits => treeHash_eq node stack hne hfits, ?_,
    fun _ _ _ _ _ hfits hfits' hfree heq => eq_of_getBlockHash_eq hfits hfits' hfree heq⟩
  intro H node stack stack' hashes hashes' hfits hlength hfree heq
  rcases eq_or_ne hashes [] with rfl | hne
  · exact (List.length_eq_zero_iff.mp hlength.symm).symm
  have hne' : hashes' ≠ [] := by
    rintro rfl
    exact hne (List.length_eq_zero_iff.mp hlength)
  have hfits' : FitsMemory hashes' := by
    rw [FitsMemory, ← hlength]
    exact hfits
  obtain ⟨root, htree, hroot⟩ := treeHash_eq node stack hne hfits
  obtain ⟨root', htree', hroot'⟩ := treeHash_eq node stack' hne' hfits'
  rw [htree, htree', Except.ok.injEq] at heq
  rw [← heq] at hroot'
  exact MerkleTree.treeRoot_inj hlength hfree (hroot.trans hroot'.symm)

/-- The rest of a header with an unknown version does not count. -/
theorem getBlockHash_eq_of_unknown {b b' : Block} (hmajor : b.majorVersion = b'.majorVersion)
    (hunknown : b.majorVersion > currentBlockMajorVersion) (hminer : b.minerTx = b'.minerTx)
    (htxs : b.txHashes = b'.txHashes) :
    getBlockHash cnFastHash stack b = getBlockHash cnFastHash stack b' := by
  have hblob : b.toBlob = b'.toBlob := by
    rw [BlockHeader.toBlob_of_unknown hunknown, BlockHeader.toBlob_of_unknown (hmajor ▸ hunknown),
      hmajor]
  unfold getBlockHash getBlockHashingBlob getTxTreeHash txsIds
  rw [hblob, hminer, htxs]

/-- Reads the bytes of an input as digits, each above zero. -/
def digitsHash (input : ByteString) : Hash :=
  input.foldl (fun digits byte => digits * 257 + BitVec.ofNat 256 (byte.toNat + 1)) 0

/-- A block with a known version and two transactions. -/
def sampleBlock (nonce : UInt64) (txHashes : List Hash) : Block :=
  { majorVersion := 2
    minorVersion := 0
    timestamp := 1700000000
    prevId := 7
    nonce
    flags := 0
    minerTx := Wire.sampleTransaction
    txHashes }

/-- The inputs that are hashed for a block and another are told by their digits. -/
def DigitsTell (b b' : Block) : Prop :=
  ∀ x ∈ hashedInputs digitsHash (fun _ => 0) b ++ hashedInputs digitsHash (fun _ => 0) b',
    ∀ y ∈ hashedInputs digitsHash (fun _ => 0) b ++ hashedInputs digitsHash (fun _ => 0) b',
      digitsHash x = digitsHash y → x = y

instance (b b' : Block) : Decidable (DigitsTell b b') := by
  unfold DigitsTell
  infer_instance

theorem DigitsTell.injOn {b b' : Block} (h : DigitsTell b b') :
    Set.InjOn digitsHash {input | input ∈ hashedInputs digitsHash (fun _ => 0) b ++
      hashedInputs digitsHash (fun _ => 0) b'} :=
  fun x hx y hy heq => h x hx y hy heq

/-- Other numbers under a pairing have another root, and blocks with other transactions or
another nonce have other hashes. -/
theorem tree_hash_commits_sample :
    (∃ root, treeHash Nat.pair (fun _ => 0) [1, 2, 3] = .ok root ∧
      MerkleTree.treeRoot Nat.pair [1, 2, 3] = some root) ∧
    treeHash Nat.pair (fun _ => 0) [1, 2, 3] ≠ treeHash Nat.pair (fun _ => 0) [1, 3, 2] ∧
    getBlockHash digitsHash (fun _ => 0) (sampleBlock 42 [8, 9]) ≠
      getBlockHash digitsHash (fun _ => 0) (sampleBlock 42 [9, 8]) ∧
    getBlockHash digitsHash (fun _ => 0) (sampleBlock 42 [8, 9]) ≠
      getBlockHash digitsHash (fun _ => 0) (sampleBlock 43 [8, 9]) := by
  have hlength : [1, 2, 3].length * 32 < 2 ^ 64 := by decide
  have hfits : ∀ nonce i j, FitsMemory (txsIds digitsHash (sampleBlock nonce [i, j])) := by
    intro nonce i j
    change (2 + 1) * 32 < 2 ^ 64
    decide
  refine ⟨tree_hash_commits.1 Nat.pair (fun _ => 0) [1, 2, 3] (by decide) hlength, ?_, ?_, ?_⟩
  · intro heq
    have hsame := tree_hash_commits.2.1 Nat.pair (fun _ => 0) (fun _ => 0) [1, 2, 3] [1, 3, 2] hlength
      rfl (MerkleTree.collisionFree_of_injective (fun _ _ _ _ h => Nat.pair_eq_pair.mp h) _) heq
    exact absurd hsame (by decide)
  · intro heq
    have hfree : DigitsTell (sampleBlock 42 [8, 9]) (sampleBlock 42 [9, 8]) := by decide +kernel
    have hsame := tree_hash_commits.2.2 digitsHash (fun _ => 0) (fun _ => 0) _ _ (hfits 42 8 9)
      (hfits 42 9 8) hfree.injOn heq
    exact absurd hsame.2.2.1 (by decide)
  · intro heq
    have hfree : DigitsTell (sampleBlock 42 [8, 9]) (sampleBlock 43 [8, 9]) := by decide +kernel
    have hsame := tree_hash_commits.2.2 digitsHash (fun _ => 0) (fun _ => 0) _ _ (hfits 42 8 9)
      (hfits 43 8 9) hfree.injOn heq
    have hnonce : (42 : UInt64) = 43 := congrArg BlockHeader.nonce (hsame.2.2.2 (by decide))
    exact absurd hnonce (by decide)

/-- The sample block with a version that `do_serialize` does not know. -/
def unknownBlock (nonce : UInt64) : Block :=
  { sampleBlock nonce [8, 9] with majorVersion := 3 }

/-- Two headers with an unknown version: their nonces are not hashed. -/
theorem unknown_version_not_hashed :
    getBlockHash digitsHash (fun _ => 0) (unknownBlock 42) =
        getBlockHash digitsHash (fun _ => 0) (unknownBlock 43) ∧
      ¬ ∀ (cnFastHash : ByteString → Hash) (stack stack' : Nat → Hash) (b b' : Block),
        FitsMemory (txsIds cnFastHash b) → FitsMemory (txsIds cnFastHash b') →
        Set.InjOn cnFastHash {input |
          input ∈ hashedInputs cnFastHash stack b ++ hashedInputs cnFastHash stack' b'} →
        getBlockHash cnFastHash stack b = getBlockHash cnFastHash stack' b' →
        b.toBlockHeader = b'.toBlockHeader := by
  have hsame : getBlockHash digitsHash (fun _ => 0) (unknownBlock 42) =
      getBlockHash digitsHash (fun _ => 0) (unknownBlock 43) :=
    getBlockHash_eq_of_unknown rfl (by decide) rfl rfl
  have hfree : DigitsTell (unknownBlock 42) (unknownBlock 43) := by decide +kernel
  have hfits : ∀ nonce, FitsMemory (txsIds digitsHash (unknownBlock nonce)) := by
    intro nonce
    change (2 + 1) * 32 < 2 ^ 64
    decide
  refine ⟨hsame, fun hclaim => ?_⟩
  have hheader := hclaim digitsHash _ _ _ _ (hfits 42) (hfits 43) hfree.injOn hsame
  have hnonce : (42 : UInt64) = 43 := congrArg BlockHeader.nonce hheader
  exact absurd hnonce (by decide)

end BlockHash
end Chinet
